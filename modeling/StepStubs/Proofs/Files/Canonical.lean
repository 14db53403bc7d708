/-
What is found below a directory, and in which order.

Finding files by an extension finds each file below the directory whose name has the extension, at
any depth, and finds it once.  The files come in the order of their locations, which are compared
name by name and each name by its bytes: a walk that goes through each directory in the order of its
names is the same as one sorting of all locations.  This is not the order of the paths as texts,
where a slash would count as a character.

So what is found depends on the files below the directory alone
(`filesWithExtension_canonical`).
-/
import Mathlib
import StepStubs.Proofs.Files.Discovery
import StepStubs.Proofs.Path.Extension
import StepStubs.Proofs.Text.ByteOrder

namespace StepStubs
namespace Files

open StepStubs.Path (IsName)

/-! ## The order of locations -/

/-- Names are compared by their bytes. -/
theorem Node.bytes_lt_of_nameLe {a b : Name} (h : nameLe a b = true) (hne : a ≠ b) :
    Text.bytes a < Text.bytes b := by
  induction a generalizing b with
  | nil =>
    obtain ⟨y, b, rfl⟩ := List.exists_cons_of_ne_nil (Ne.symm hne)
    exact Text.bytes_nil_lt y b
  | cons x a ih =>
    cases b with
    | nil => exact nomatch h
    | cons y b =>
      rw [nameLe] at h
      by_cases hxy : x = y
      · rw [if_pos hxy] at h
        rw [hxy] at hne ⊢
        exact Text.bytes_cons_lt (ih h fun hab => hne (congrArg (y :: ·) hab)) y
      · rw [if_neg hxy] at h
        exact Text.bytes_cons_lt_of_lt (of_decide_eq_true h) a b

/-- Locations are compared name by name, and names by their bytes. -/
theorem Location.Before.map_bytes_lt {l l' : Location} (h : l.Before l') :
    l.map Text.bytes < l'.map Text.bytes := by
  induction l generalizing l' with
  | nil =>
    cases l' with
    | nil => exact h.elim
    | cons b l' => exact List.nil_lt_cons _ _
  | cons a l ih =>
    cases l' with
    | nil => exact h.elim
    | cons b l' =>
      rw [Before] at h
      by_cases hab : a = b
      · rw [if_pos hab] at h
        rw [hab]
        exact .cons (ih h)
      · rw [if_neg hab] at h
        exact .rel (Node.bytes_lt_of_nameLe h hab)

/-- Is the last name some text, a dot and the extension, with no dot in the extension? -/
def Location.HasExtension (l : Location) (extension : Text) : Prop :=
  ∃ above stem, l = above ++ [stem ++ '.' :: extension] ∧ stem ≠ [] ∧ '.' ∉ extension

namespace FileSystem

variable {fs fs' : FileSystem} {directory : Path} {l : Location}

/-! ## Files below a directory -/

/-- Is there a file at the location, seen from the directory? -/
def HasFileBelow (fs : FileSystem) (directory : Path) (l : Location) : Prop :=
  ∃ b, fs.view (fs.spot directory ++ l) = some (some b)

theorem HasFileBelow.isName (hnames : fs.NamesValid) (h : fs.HasFileBelow directory l) :
    ∀ name ∈ l, IsName name := by
  obtain ⟨b, hb⟩ := h
  have hsome : fs.view (fs.spot directory ++ l) ≠ none := by
    rw [hb]
    exact nofun
  exact fun name hname => hnames.of_view hsome name (List.mem_append_right _ hname)

theorem HasFileBelow.ne_nil (hdirectory : fs.isDirectory directory = true)
    (h : fs.HasFileBelow directory l) : l ≠ [] := by
  rintro rfl
  obtain ⟨b, hb⟩ := h
  obtain ⟨-, -, hview⟩ := isDirectory_iff.mp hdirectory
  rw [List.append_nil, hview] at hb
  exact nomatch hb

/-- The file name of a path below a directory is the last name on the way. -/
theorem fileName?_below {above : Location} {name : Name}
    (h : ∀ n ∈ above ++ [name], IsName n) (directory : Path) :
    (below directory (above ++ [name])).fileName? = some name := by
  obtain ⟨hinner, -⟩ := innerOf_below h directory
  rw [List.map_append, ← List.append_assoc] at hinner
  exact Path.fileName?_eq_some hinner

theorem extension?_below_iff (hvalid : ∀ name ∈ l, IsName name) (hne : l ≠ [])
    (directory : Path) (extension : Text) :
    (below directory l).extension? = some extension ↔ l.HasExtension extension := by
  obtain ⟨above, name, rfl⟩ : ∃ above name, l = above ++ [name] :=
    ⟨_, _, (List.dropLast_concat_getLast hne).symm⟩
  rw [Path.extension?_eq_some_iff, fileName?_below hvalid]
  constructor
  · rintro ⟨stem, hname, hstem⟩
    exact ⟨above, stem, by rw [Option.some.inj hname], hstem⟩
  · rintro ⟨above', stem, heq, hstem⟩
    exact ⟨stem, congrArg some (List.cons.inj (List.append_inj' heq rfl).2).1, hstem⟩

/-- The path of a file below a directory leads to that file and to no other. -/
theorem HasFileBelow.eq_of_below_eq (hnames : fs.NamesValid) {l' : Location}
    (h : fs.HasFileBelow directory l) (h' : fs.HasFileBelow directory l')
    (heq : below directory l = below directory l') : l = l' := by
  have hspot := congrArg fs.spot heq
  rw [spot_below (h.isName hnames), spot_below (h'.isName hnames)] at hspot
  exact List.append_cancel_left hspot

/-! ## What is found -/

/-- The files that are found, by their locations. -/
theorem exists_filesWithExtension_eq_map (hfs : fs.root.WellFormed) (hnames : fs.NamesValid)
    (hdirectory : fs.isDirectory directory = true) (extension : Text) :
    ∃ found : List Location,
      fs.filesWithExtension directory extension = found.map (below directory) ∧
      (∀ l, l ∈ found ↔ fs.HasFileBelow directory l ∧ l.HasExtension extension) ∧
      found.Pairwise Location.Before := by
  obtain ⟨n, hlookup, hat⟩ := lookup_of_isDirectory hdirectory
  have hform := Node.wellFormed_of_at? hfs hat
  refine ⟨n.fileLocations.filter fun l => (below directory l).extension? = some extension, ?_, ?_,
    (Node.pairwise_fileLocations hform).filter _⟩
  · rw [filesWithExtension, hlookup]
    simp only [List.filter_map, Function.comp_def]
  · intro l
    have hfile : l ∈ n.fileLocations ↔ fs.HasFileBelow directory l := by
      rw [Node.mem_fileLocations hform]
      simp only [HasFileBelow, view_append_of_at? hat, Node.view_eq_file_iff]
    rw [List.mem_filter, decide_eq_true_eq, hfile]
    exact and_congr_right fun h =>
      extension?_below_iff (h.isName hnames) (h.ne_nil hdirectory) directory extension

/-- A file that is found is told by the directory it is in and its stem. -/
theorem exists_of_mem_filesWithExtension {f : Path} {extension : Text}
    (hfs : fs.root.WellFormed) (hnames : fs.NamesValid)
    (hdirectory : fs.isDirectory directory = true)
    (hf : f ∈ fs.filesWithExtension directory extension) :
    ∃ above stem, f = below directory (above ++ [stem ++ '.' :: extension]) ∧
      (fs.spot f).dropLast = fs.spot directory ++ above ∧ f.stem? = some stem := by
  obtain ⟨found, hfound, hmem, -⟩ :=
    exists_filesWithExtension_eq_map hfs hnames hdirectory extension
  rw [hfound] at hf
  obtain ⟨l, hl, rfl⟩ := List.mem_map.mp hf
  obtain ⟨hfile, above, stem, rfl, hstem, hextension⟩ := (hmem l).mp hl
  have hvalid := hfile.isName hnames
  refine ⟨above, stem, rfl, ?_, ?_⟩
  · rw [spot_below hvalid, ← List.append_assoc, List.dropLast_concat]
  · exact (Path.stem?_extension?_eq_iff.mpr
      ⟨fileName?_below hvalid directory, hstem, hextension⟩).1

/-- Two files that are found in one directory have different stems. -/
theorem eq_of_stem?_eq {f g : Path} {extension : Text} (hfs : fs.root.WellFormed)
    (hnames : fs.NamesValid) (hdirectory : fs.isDirectory directory = true)
    (hf : f ∈ fs.filesWithExtension directory extension)
    (hg : g ∈ fs.filesWithExtension directory extension)
    (hsame : (fs.spot f).dropLast = (fs.spot g).dropLast) (hstem : f.stem? = g.stem?) : f = g := by
  obtain ⟨above, stem, rfl, habove, hf'⟩ :=
    exists_of_mem_filesWithExtension hfs hnames hdirectory hf
  obtain ⟨above', stem', rfl, habove', hg'⟩ :=
    exists_of_mem_filesWithExtension hfs hnames hdirectory hg
  rw [habove, habove'] at hsame
  rw [hf', hg'] at hstem
  rw [List.append_cancel_left hsame, Option.some.inj hstem]

/-- Finding files by an extension finds exactly the files below the directory whose names have it,
each once and in the order of the bytes of their names.  So in another tree with the same files
below the directory the same is found. -/
theorem filesWithExtension_canonical (hfs : fs.root.WellFormed) (hnames : fs.NamesValid)
    (hdirectory : fs.isDirectory directory = true) (extension : Text) :
    (∃ found : List Location,
      fs.filesWithExtension directory extension = found.map (below directory) ∧
      (∀ l, l ∈ found ↔ fs.HasFileBelow directory l ∧ l.HasExtension extension) ∧
      found.Pairwise fun l l' => l.map Text.bytes < l'.map Text.bytes) ∧
    (fs.filesWithExtension directory extension).Nodup ∧
    (∀ l, fs.HasFileBelow directory l → fs.spot (below directory l) = fs.spot directory ++ l ∧
      ((below directory l).extension? = some extension ↔ l.HasExtension extension)) ∧
    ∀ fs' : FileSystem, fs'.root.WellFormed → fs'.isDirectory directory = true →
      (∀ l, fs'.HasFileBelow directory l ↔ fs.HasFileBelow directory l) →
      fs'.filesWithExtension directory extension = fs.filesWithExtension directory extension := by
  obtain ⟨found, hfound, hmem, hsorted⟩ :=
    exists_filesWithExtension_eq_map hfs hnames hdirectory extension
  refine ⟨⟨found, hfound, hmem, hsorted.imp Location.Before.map_bytes_lt⟩, ?_, ?_, ?_⟩
  · rw [hfound, List.nodup_iff_pairwise_ne, List.pairwise_map]
    refine hsorted.imp_of_mem fun {l l'} hl hl' hbefore heq => ?_
    have hsame := ((hmem l).mp hl).1.eq_of_below_eq hnames ((hmem l').mp hl').1 heq
    rw [hsame] at hbefore
    exact Location.not_before_self l' hbefore
  · exact fun l h => ⟨spot_below (h.isName hnames) directory,
      extension?_below_iff (h.isName hnames) (h.ne_nil hdirectory) directory extension⟩
  · exact fun fs' hfs' hdirectory' hsame =>
      filesWithExtension_eq_of_files extension hfs hfs' hdirectory hdirectory' hsame

/-- A tree whose directories list their entries in no order, with a directory that is named like a
file and a file whose name is an extension only. -/
def unorderedTree : FileSystem :=
  ⟨.directory [("t".toList, .directory [
    ("z.feature".toList, .file .empty),
    ("a.feature".toList, .directory [("in.feature".toList, .file .empty)]),
    ("a-b.feature".toList, .file .empty),
    ("a".toList, .directory [
      ("n".toList, .directory [("c.feature".toList, .file .empty)]),
      (".feature".toList, .file .empty),
      ("x.md".toList, .file .empty),
      ("b.feature".toList, .file .empty)])])], []⟩

/-- The files of the tree come by their locations.  As texts the paths would have another order,
with `/t/a-b.feature` first. -/
theorem filesWithExtension_unorderedTree :
    unorderedTree.root.WellFormed ∧ unorderedTree.NamesValid ∧
      unorderedTree.isDirectory (.ofString "/t") = true ∧
      (unorderedTree.filesWithExtension (.ofString "/t") "feature".toList).Nodup ∧
      unorderedTree.filesWithExtension (.ofString "/t") "feature".toList =
        [.ofString "/t/a/b.feature", .ofString "/t/a/n/c.feature", .ofString "/t/a-b.feature",
          .ofString "/t/a.feature/in.feature", .ofString "/t/z.feature"] := by
  have hform : unorderedTree.root.WellFormed := by
    simp only [unorderedTree, Node.WellFormed, Node.EntriesWellFormed]
    decide
  have hnames : unorderedTree.NamesValid := by
    rw [NamesValid]
    decide +kernel
  have hdirectory : unorderedTree.isDirectory (.ofString "/t") = true := by decide +kernel
  obtain ⟨-, hnodup, -⟩ := filesWithExtension_canonical hform hnames hdirectory "feature".toList
  exact ⟨hform, hnames, hdirectory, hnodup, by cbv⟩

end FileSystem
end Files
end StepStubs
