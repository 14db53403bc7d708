/-
Finding files by their extension.

The walk below a directory finds each file by its location, and the path that is reported
leads back to that location.  So what is found is a matter of the files below the directory:
a tree in which these are the same gives the same paths in the same order.
-/
import StepStubs.Files.Reading
import StepStubs.Proofs.Files.Follow
import StepStubs.Proofs.Files.Walk

namespace StepStubs
namespace Files

open StepStubs.Path (Component innerOf IsName)

namespace FileSystem

variable {fs fs' : FileSystem}

/-! ## Paths below a directory -/

/-- Can all names in the tree be names of files? -/
def NamesValid (fs : FileSystem) : Prop := ∀ c ∈ fs.root.contents, ∀ name ∈ c.1, IsName name

theorem innerOf_below {l : Location} (h : ∀ name ∈ l, IsName name) (p : Path) :
    innerOf (below p l).text = innerOf p.text ++ l.map .normal ∧
      (below p l).isAbsolute = p.isAbsolute := by
  induction l generalizing p with
  | nil => exact ⟨(List.append_nil _).symm, rfl⟩
  | cons name l ih =>
    have hname := h name List.mem_cons_self
    obtain ⟨hinner, habs⟩ := ih (fun n hn => h n (List.mem_cons_of_mem name hn)) (p.join ⟨name⟩)
    rw [Path.innerOf_join_name hname, List.append_assoc] at hinner
    rw [Path.isAbsolute_join (Path.isAbsolute_of_isName hname)] at habs
    exact ⟨hinner, habs⟩

theorem foldl_moveBy_names (here l : Location) :
    (l.map Component.normal).foldl moveBy here = here ++ l := by
  induction l generalizing here with
  | nil => exact (List.append_nil here).symm
  | cons name l ih =>
    rw [List.map_cons, List.foldl_cons, ih]
    show (here ++ [name]) ++ l = _
    rw [List.append_assoc, List.singleton_append]

theorem spot_below {l : Location} (h : ∀ name ∈ l, IsName name) (p : Path) :
    fs.spot (below p l) = fs.spot p ++ l := by
  obtain ⟨hinner, habs⟩ := innerOf_below h p
  rw [spot_of_innerOf_append habs hinner, foldl_moveBy_names]

/-- Names pass wherever there is something at their end. -/
theorem passes_names {here l : Location} (h : fs.view (here ++ l) ≠ none) :
    fs.Passes here (l.map .normal) := by
  induction l generalizing here with
  | nil =>
    rw [List.append_nil] at h
    exact h
  | cons name l ih =>
    have hdir : fs.view here = some none :=
      Node.view_eq_directory_of_append (List.cons_ne_nil name l) h
    refine ⟨hdir, ih ?_⟩
    show fs.view ((here ++ [name]) ++ l) ≠ none
    rwa [List.append_assoc, List.singleton_append]

/-! ## The names in a tree -/

theorem NamesValid.of_view (h : fs.NamesValid) {l : Location} (hl : fs.view l ≠ none) :
    ∀ name ∈ l, IsName name := by
  rw [Ne, view_eq_none_iff] at hl
  obtain ⟨n, hn⟩ := Option.ne_none_iff_exists'.mp hl
  exact h (l, n.bytes?) (Node.mem_contents_of_at? hn)

/-! ## What is found -/

theorem lookup_of_isDirectory {p : Path} (h : fs.isDirectory p = true) :
    ∃ n, fs.lookup p = .ok n ∧ fs.at? (fs.spot p) = some n := by
  obtain ⟨hp, hpasses, hview⟩ := isDirectory_iff.mp h
  obtain ⟨es, hes⟩ := view_eq_directory_iff.mp hview
  exact ⟨_, lookup_eq_ok_iff.mpr ⟨hp, ⟨hpasses, fun _ => hview⟩, hes⟩, hes⟩

theorem view_append_of_at? {l : Location} {n : Node} (h : fs.at? l = some n) (t : Location) :
    fs.view (l ++ t) = n.view t := by
  show (fs.root.at? (l ++ t)).map Node.bytes? = _
  rw [Node.at?_append]
  show ((fs.at? l).bind _).map Node.bytes? = _
  rw [h, Option.bind_some, Node.view]

theorem mem_filesWithExtension {p q : Path} {extension : Text} (hfs : fs.root.WellFormed)
    (hp : fs.isDirectory p = true) :
    q ∈ fs.filesWithExtension p extension ↔
      ∃ t, (∃ b, fs.view (fs.spot p ++ t) = some (some b)) ∧ below p t = q ∧
        q.extension? = some extension := by
  obtain ⟨n, hlookup, hat⟩ := lookup_of_isDirectory hp
  have hform := Node.wellFormed_of_at? hfs hat
  rw [filesWithExtension, hlookup]
  simp only [List.mem_filter, List.mem_map, Node.mem_fileLocations hform, decide_eq_true_eq,
    view_append_of_at? hat, Node.view_eq_file_iff]
  constructor
  · rintro ⟨⟨t, hb, hq⟩, hextension⟩
    exact ⟨t, hb, hq, hextension⟩
  · rintro ⟨t, hb, hq, hextension⟩
    exact ⟨⟨t, hb, hq⟩, hextension⟩

/-- What is found follows from the files below the directory. -/
theorem filesWithExtension_eq_of_files {p : Path} (extension : Text) (hfs : fs.root.WellFormed)
    (hfs' : fs'.root.WellFormed) (hp : fs.isDirectory p = true) (hp' : fs'.isDirectory p = true)
    (h : ∀ t, (∃ b, fs'.view (fs'.spot p ++ t) = some (some b)) ↔
      ∃ b, fs.view (fs.spot p ++ t) = some (some b)) :
    fs'.filesWithExtension p extension = fs.filesWithExtension p extension := by
  obtain ⟨n, hlookup, hat⟩ := lookup_of_isDirectory hp
  obtain ⟨n', hlookup', hat'⟩ := lookup_of_isDirectory hp'
  have hsame : n'.fileLocations = n.fileLocations := by
    refine Node.fileLocations_eq_of_view (Node.wellFormed_of_at? hfs' hat')
      (Node.wellFormed_of_at? hfs hat) fun t => ?_
    have ht := h t
    simp only [view_append_of_at? hat, view_append_of_at? hat'] at ht
    exact ht
  rw [filesWithExtension, filesWithExtension, hlookup, hlookup']
  simp only [hsame]

theorem filesWithExtension_eq {p : Path} (extension : Text) (hfs : fs.root.WellFormed)
    (hfs' : fs'.root.WellFormed) (hp : fs.isDirectory p = true) (hkeeps : fs.KeepsDirectories fs')
    (h : ∀ t b, fs'.view (fs.spot p ++ t) = some (some b) ↔
      fs.view (fs.spot p ++ t) = some (some b)) :
    fs'.filesWithExtension p extension = fs.filesWithExtension p extension := by
  refine filesWithExtension_eq_of_files extension hfs hfs' hp (hkeeps.isDirectory hp) fun t => ?_
  rw [hkeeps.spot]
  exact exists_congr (h t)

/-- What is known of a file that was found below a directory. -/
structure IsFound (fs : FileSystem) (directory q : Path) : Prop where
  below : fs.spot directory <+: fs.spot q
  view : ∃ b, fs.view (fs.spot q) = some (some b)
  reaches : fs.Reaches q
  stem : ∃ stem, q.stem? = some stem ∧ stem ≠ [] ∧ '/' ∉ stem

theorem isFound_of_mem {p q : Path} {extension : Text} (hfs : fs.root.WellFormed)
    (hnames : fs.NamesValid) (hp : fs.isDirectory p = true)
    (hq : q ∈ fs.filesWithExtension p extension) : fs.IsFound p q := by
  obtain ⟨t, ⟨b, hb⟩, rfl, -⟩ := (mem_filesWithExtension hfs hp).mp hq
  have hsome : fs.view (fs.spot p ++ t) ≠ none := by
    rw [hb]
    exact nofun
  have hvalid : ∀ name ∈ t, IsName name := fun name hname =>
    hnames.of_view hsome name (List.mem_append_right _ hname)
  have hspot : fs.spot (FileSystem.below p t) = fs.spot p ++ t := spot_below hvalid p
  obtain ⟨-, hpasses, hview⟩ := isDirectory_iff.mp hp
  -- The directory itself is no file, so the file has a name in it.
  rcases List.eq_nil_or_concat t with rfl | ⟨init, name, ht⟩
  · rw [List.append_nil, hview] at hb
    exact nomatch hb
  · rw [List.concat_eq_append] at ht
    have hname : IsName name := hvalid name (ht ▸ List.mem_append_right _ List.mem_cons_self)
    have hjoin : FileSystem.below p t = (FileSystem.below p init).join ⟨name⟩ := by
      rw [ht, FileSystem.below, FileSystem.below, List.foldl_append]
      rfl
    have hinner := innerOf_below hvalid p
    refine ⟨hspot ▸ List.prefix_append _ _, ⟨b, hspot.symm ▸ hb⟩, ⟨?_, ?_⟩, ?_⟩
    · rw [startOf_eq_of_isAbsolute_eq hinner.2, hinner.1, passes_append]
      exact ⟨hpasses, passes_names hsome⟩
    · rintro ⟨part, hpart, hidle⟩
      rw [hjoin, Path.getLast?_parts_join hname] at hpart
      rw [← Option.some.inj hpart, Path.innerComponent?_of_isName hname] at hidle
      exact nomatch hidle
    · have hfile : (FileSystem.below p t).fileName? = some name := by
        rw [hjoin, Path.fileName?_join_name hname]
      obtain ⟨hne, hstart⟩ := Path.splitName_stem hname.1
      refine ⟨_, by rw [Path.stem?, hfile, Option.map_some], hne, fun hslash => ?_⟩
      exact hname.2.2.2 (hstart.subset hslash)

/-! ## Reading -/

theorem readText_eq_of_lookup_eq {p : Path} (h : fs'.lookup p = fs.lookup p) (limit : Nat) :
    fs'.readText p limit = fs.readText p limit := by
  rw [readText, readText, textOf, textOf, contentOf, contentOf, h]

theorem textOf_of_contentOf {p : Path} {t : Text} (h : fs.contentOf p = .ok (Text.utf8 t)) :
    fs.textOf p = .ok t := by
  simp only [textOf, h, bind, Except.bind, Text.ofUtf8?_utf8]

theorem dropMark_of_head? {t : Text} (h : t.head? ≠ some '\ufeff') : dropMark t = t := by
  unfold dropMark
  split
  · exact absurd rfl h
  · rfl

/-- A text that is stored in a file is read back if the file is not too large. -/
theorem readText_of_contentOf {p : Path} {t : Text} (h : fs.contentOf p = .ok (Text.utf8 t))
    (limit : Nat) :
    fs.readText p limit =
      if Text.byteLength t ≤ limit then .ok (dropMark t)
      else .error (.tooLarge p (Text.byteLength t) limit) := by
  obtain ⟨n, hlookup, hn⟩ := bind_eq_ok_iff.mp h
  cases n with
  | directory es => exact nomatch hn
  | file b =>
    have hsize : sizeOf (.file b) = Text.byteLength t := congrArg ByteArray.size (Except.ok.inj hn)
    rw [readText, hlookup, textOf_of_contentOf h]
    show (if sizeOf (.file b) > limit then _ else _ : Except Failure Text) = _
    rw [hsize]
    by_cases hlimit : Text.byteLength t ≤ limit
    · rw [if_pos hlimit, if_neg (Nat.not_lt.mpr hlimit)]
      rfl
    · rw [if_neg hlimit, if_pos (Nat.not_le.mp hlimit)]

theorem isFollowable_of_readText {p : Path} {limit : Nat} {t : Text}
    (h : fs.readText p limit = .ok t) : IsFollowable p := by
  obtain ⟨n, hn, -⟩ := bind_eq_ok_iff.mp h
  cases hlookup : fs.lookup p with
  | error c =>
    rw [hlookup] at hn
    exact nomatch hn
  | ok m => exact (lookup_eq_ok_iff.mp hlookup).1

/-- A file that was found is read as it was, as long as directories stay and the file does. -/
theorem IsFound.readText_eq_ok_iff {directory q : Path} (h : fs.IsFound directory q)
    (hkeeps : fs.KeepsDirectories fs') (hview : fs'.view (fs.spot q) = fs.view (fs.spot q))
    {limit : Nat} {t : Text} :
    fs'.readText q limit = .ok t ↔ fs.readText q limit = .ok t := by
  have hlookup : IsFollowable q → fs'.lookup q = fs.lookup q := by
    intro hfollow
    obtain ⟨b, hb⟩ := h.view
    have hreach : fs'.Reaches q := hkeeps.reaches h.reaches (by rw [hview, hb]; exact nofun)
    have hb' : fs'.view (fs'.spot q) = some (some b) := by rw [hkeeps.spot, hview, hb]
    rw [lookup_eq_ok_iff.mpr ⟨hfollow, h.reaches, view_eq_file_iff.mp hb⟩,
      lookup_eq_ok_iff.mpr ⟨hfollow, hreach, view_eq_file_iff.mp hb'⟩]
  constructor
  · intro hread
    rwa [← readText_eq_of_lookup_eq (hlookup (isFollowable_of_readText hread))]
  · intro hread
    rwa [readText_eq_of_lookup_eq (hlookup (isFollowable_of_readText hread))]

end FileSystem
end Files
end StepStubs
