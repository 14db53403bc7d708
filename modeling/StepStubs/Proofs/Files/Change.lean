/-
What the operations on single files and directories change.

Each operation that succeeds sets one location, or two if it moves a file, and leaves every
other as it was.  `Sets` says so about the view of the tree, so whoever uses an operation
need not know how trees are changed.  None of these operations takes a directory away, so
paths lead where they led before.
-/
import StepStubs.Proofs.Files.Follow

namespace StepStubs
namespace Files

open StepStubs.Path (Component innerOf)

namespace FileSystem

variable {fs fs' : FileSystem}

/-! ## Places -/

def placeIn (p : Path) (directory : Location) : Except Cause Place :=
  match (openParts p).getLast?.bind Path.innerComponent? with
  | some (.normal name) =>
    if Text.byteLength name > maxNameLength then .error .nameTooLong
    else .ok ⟨directory, some name, (openParts p).length < p.parts.length⟩
  | _ => .ok ⟨directory, none, (openParts p).length < p.parts.length⟩

theorem placeOf_eq_ok_iff {p : Path} {place : Place} :
    fs.placeOf p = .ok place ↔
      checkPath p = .ok () ∧ ∃ d, (openParts p).dropLast.foldlM fs.enter (fs.startOf p) = .ok d ∧
        fs.view d = some none ∧ placeIn p d = .ok place := by
  have hplace : fs.placeOf p = (checkPath p >>= fun _ =>
      (openParts p).dropLast.foldlM fs.enter (fs.startOf p) >>= fun d =>
        fs.directoryAt d >>= fun _ => placeIn p d) := rfl
  rw [hplace, bind_eq_ok_iff]
  constructor
  · rintro ⟨_, hcheck, h⟩
    obtain ⟨d, hd, h⟩ := bind_eq_ok_iff.mp h
    obtain ⟨n, hn, h⟩ := bind_eq_ok_iff.mp h
    exact ⟨hcheck, d, hd, (directoryAt_eq_ok_iff.mp hn).1, h⟩
  · rintro ⟨hcheck, d, hd, hview, h⟩
    obtain ⟨n, hn⟩ := exists_directoryAt hview
    exact ⟨(), hcheck, bind_eq_ok_iff.mpr ⟨d, hd, bind_eq_ok_iff.mpr ⟨n, hn, h⟩⟩⟩

theorem innerOf_openParts (p : Path) :
    (openParts p).filterMap Path.innerComponent? = innerOf p.text :=
  Path.filterMap_reverse_dropWhile (fun part h => by
    rw [List.isEmpty_iff.mp h, Path.innerComponent?, if_pos (Or.inl rfl)]) p.parts

/-- A path that names a place can be followed through its directory. -/
theorem exists_of_placeOf {p : Path} {d : Location} {name : Name} {closed : Bool}
    (h : fs.placeOf p = .ok ⟨d, some name, closed⟩) :
    ∃ cs, innerOf p.text = cs ++ [.normal name] ∧ d = cs.foldl moveBy (fs.startOf p) ∧
      IsFollowable p ∧ fs.Passes (fs.startOf p) cs ∧ fs.view d = some none := by
  obtain ⟨hcheck, d', hfold, hview, hplace⟩ := placeOf_eq_ok_iff.mp h
  rw [placeIn] at hplace
  cases hlast : (openParts p).getLast?.bind Path.innerComponent? with
  | none =>
    rw [hlast] at hplace
    exact nomatch hplace
  | some c =>
    rw [hlast] at hplace
    obtain ⟨part, hpart, hc⟩ := Option.bind_eq_some_iff.mp hlast
    obtain ⟨init, hinit⟩ := List.getLast?_eq_some_iff.mp hpart
    have hinner : innerOf p.text = init.filterMap Path.innerComponent? ++ [c] := by
      rw [← innerOf_openParts, hinit, List.filterMap_append, List.filterMap_cons_some hc,
        List.filterMap_nil]
    rw [hinit, List.dropLast_concat] at hfold
    obtain ⟨hd, hfits, hpasses, -⟩ := foldlM_enter_eq_ok_iff.mp
      ⟨hfold, by rw [hview]; exact nofun⟩
    -- Behind `..` there is no name, and a name that is too long is refused.
    rcases Path.innerComponent?_eq_some hc with rfl | rfl
    · exact nomatch hplace
    · by_cases hlong : Text.byteLength part > maxNameLength
      · simp only [if_pos hlong] at hplace
        exact nomatch hplace
      · simp only [if_neg hlong] at hplace
        obtain ⟨rfl, hname, -⟩ := Place.mk.inj (Except.ok.inj hplace)
        rw [← Option.some.inj hname]
        refine ⟨_, hinner, hd, ⟨hcheck, fun c hc => ?_⟩, hpasses, hview⟩
        rw [hinner, List.mem_append, List.mem_singleton] at hc
        rcases hc with hc | rfl
        · exact hfits c hc
        · show Text.byteLength part ≤ maxNameLength
          omega

theorem spot_of_placeOf {p : Path} {d : Location} {name : Name} {closed : Bool}
    (h : fs.placeOf p = .ok ⟨d, some name, closed⟩) : fs.spot p = d ++ [name] := by
  obtain ⟨cs, hinner, rfl, -⟩ := exists_of_placeOf h
  rw [spot, hinner, List.foldl_append]
  rfl

theorem openParts_isPrefix (p : Path) : openParts p <+: p.parts := by
  obtain ⟨t, ht⟩ := List.dropWhile_suffix List.isEmpty (l := p.parts.reverse)
  refine ⟨t.reverse, ?_⟩
  rw [openParts, ← List.reverse_append, ht, List.reverse_reverse]

/-- A path that names a place and has no slash after it ends in a name. -/
theorem not_endsIdle_of_placeOf {p : Path} {d : Location} {name : Name}
    (h : fs.placeOf p = .ok ⟨d, some name, false⟩) : ¬ EndsIdle p.parts := by
  obtain ⟨-, d', -, -, hplace⟩ := placeOf_eq_ok_iff.mp h
  rw [placeIn] at hplace
  cases hlast : (openParts p).getLast?.bind Path.innerComponent? with
  | none =>
    rw [hlast] at hplace
    exact nomatch (Place.mk.inj (Except.ok.inj hplace)).2.1
  | some c =>
    obtain ⟨part, hpart, hc⟩ := Option.bind_eq_some_iff.mp hlast
    have hopen : ¬ (openParts p).length < p.parts.length := by
      rw [hlast] at hplace
      rcases Path.innerComponent?_eq_some hc with rfl | rfl
      · exact of_decide_eq_false (Place.mk.inj (Except.ok.inj hplace)).2.2
      · by_cases hlong : Text.byteLength part > maxNameLength
        · simp only [if_pos hlong] at hplace
          exact nomatch hplace
        · simp only [if_neg hlong] at hplace
          exact of_decide_eq_false (Place.mk.inj (Except.ok.inj hplace)).2.2
    have hsame : openParts p = p.parts := (openParts_isPrefix p).eq_of_length_le (by omega)
    rintro ⟨last, hlast', hidle⟩
    rw [← hsame, hpart] at hlast'
    rw [← Option.some.inj hlast', hc] at hidle
    exact nomatch hidle

theorem KeepsDirectories.placeOf (h : fs.KeepsDirectories fs') {p : Path} {place : Place}
    (hplace : fs.placeOf p = .ok place) : fs'.placeOf p = .ok place := by
  obtain ⟨hcheck, d, hfold, hview, hin⟩ := placeOf_eq_ok_iff.mp hplace
  have hview' := h.directory d hview
  obtain ⟨rfl, hfits, hpasses, -⟩ := foldlM_enter_eq_ok_iff.mp
    ⟨hfold, by rw [hview]; exact nofun⟩
  have hnone : fs'.view (((openParts p).dropLast.filterMap Path.innerComponent?).foldl moveBy
      (fs.startOf p)) ≠ none := by
    rw [hview']
    exact nofun
  refine placeOf_eq_ok_iff.mpr ⟨hcheck, _, ?_, hview', hin⟩
  rw [h.startOf]
  exact foldlM_enter_eq_ok rfl hfits (h.passes hpasses hnone) hview'

/-! ## Setting a location -/

/-- Is the one tree the other but for what stands at `l`, which is now `v`? -/
structure Sets (fs : FileSystem) (l : Location) (v : Option (Option ByteArray))
    (fs' : FileSystem) : Prop where
  workingDirectory : fs'.workingDirectory = fs.workingDirectory
  wellFormed : fs'.root.WellFormed
  view : ∀ l', fs'.view l' = if l' = l then v else fs.view l'

theorem Sets.view_self {l : Location} {v : Option (Option ByteArray)} (h : fs.Sets l v fs') :
    fs'.view l = v := by
  rw [h.view, if_pos rfl]

theorem Sets.view_of_ne {l l' : Location} {v : Option (Option ByteArray)} (h : fs.Sets l v fs')
    (hl : l' ≠ l) : fs'.view l' = fs.view l' := by
  rw [h.view, if_neg hl]

/-- What is set twice is as it was set last. -/
theorem Sets.trans {fs₁ : FileSystem} {l : Location} {v v' : Option (Option ByteArray)}
    (h : fs.Sets l v fs₁) (h' : fs₁.Sets l v' fs') : fs.Sets l v' fs' := by
  refine ⟨h'.workingDirectory.trans h.workingDirectory, h'.wellFormed, fun l' => ?_⟩
  rw [h'.view, h.view]
  by_cases hl : l' = l
  · rw [if_pos hl, if_pos hl]
  · rw [if_neg hl, if_neg hl, if_neg hl]

theorem Sets.keepsDirectories {l : Location} {v : Option (Option ByteArray)}
    (h : fs.Sets l v fs') (hl : fs.view l ≠ some none) : fs.KeepsDirectories fs' := by
  refine ⟨h.workingDirectory, fun l' hl' => ?_⟩
  rw [h.view_of_ne, hl']
  rintro rfl
  exact hl hl'

theorem Sets.keepsDirectories' {l : Location} {v : Option (Option ByteArray)}
    (h : fs.Sets l v fs') (hv : v ≠ some none) : fs'.KeepsDirectories fs := by
  refine ⟨h.workingDirectory.symm, fun l' hl' => ?_⟩
  rw [h.view] at hl'
  by_cases he : l' = l
  · rw [if_pos he] at hl'
    exact absurd hl' hv
  · rwa [if_neg he] at hl'

theorem sets_alter (hfs : fs.root.WellFormed) {d : Location} {name : Name}
    (hdir : fs.view d = some none) (hold : fs.view (d ++ [name]) ≠ some none) {o : Option Node}
    (ho : Node.IsLeaf o) (hform : ∀ n ∈ o, n.WellFormed) :
    fs.Sets (d ++ [name]) (o.map Node.bytes?) (fs.alter (d ++ [name]) fun _ => o) where
  workingDirectory := rfl
  wellFormed := Node.wellFormed_alter (fun _ n _ h => hform n h) hfs
  view := Node.view_alter_leaf hfs (List.append_ne_nil_of_right_ne_nil d (List.cons_ne_nil _ _))
    (by rw [List.dropLast_concat]; exact hdir) hold ho

/-! ## Directories -/

/-- A directory that was made is new and can be followed, and its path started at a directory
before. -/
theorem createDirectory_ok {p : Path} (hfs : fs.root.WellFormed)
    (h : fs.createDirectory p = .ok fs') :
    fs.view (fs.startOf p) = some none ∧ fs.view (fs.spot p) = none ∧
      fs.Sets (fs.spot p) (some none) fs' ∧ fs'.isDirectory p = true := by
  obtain ⟨⟨d, name?, closed⟩, hplace, h⟩ := bind_eq_ok_iff.mp h
  cases name? with
  | none => exact nomatch h
  | some name =>
    have hspot := spot_of_placeOf hplace
    obtain ⟨cs, hinner, hd, hfollow, hpasses, hview⟩ := exists_of_placeOf hplace
    simp only at h
    by_cases hsome : (fs.at? (d ++ [name])).isSome = true
    · rw [if_pos hsome] at h
      exact nomatch h
    · rw [if_neg hsome] at h
      have hnone : fs.view (d ++ [name]) = none := by
        rw [view_eq_none_iff]
        simpa using hsome
      have hnot : fs.view (d ++ [name]) ≠ some none := by
        rw [hnone]
        exact nofun
      have hsets : fs.Sets (d ++ [name]) (some none) fs' := by
        rw [← Except.ok.inj h]
        refine sets_alter hfs hview hnot Node.isLeaf_emptyDirectory fun n hn => ?_
        rw [← Option.some.inj hn]
        exact Node.wellFormed_directory_iff.mpr ⟨List.nodup_nil, nofun⟩
      have hkeeps := hsets.keepsDirectories hnot
      rw [hspot]
      refine ⟨view_start_of_passes_directory hpasses (hd ▸ hview), hnone, hsets,
        isDirectory_iff.mpr ⟨hfollow, ?_, ?_⟩⟩
      · rw [hinner, passes_append, hkeeps.startOf, ← hd]
        have hdir := hkeeps.directory d hview
        refine ⟨hkeeps.passes hpasses (by rw [← hd, hdir]; exact nofun), hdir, ?_⟩
        show fs'.view (d ++ [name]) ≠ none
        rw [hsets.view_self]
        exact nofun
      · rw [hkeeps.spot, hspot]
        exact hsets.view_self

/-! ## Files -/

/-- Does the path name a place in a directory at which there is a file or nothing? -/
def Offers (fs : FileSystem) (p : Path) : Prop :=
  ∃ d name, fs.placeOf p = .ok ⟨d, some name, false⟩ ∧ fs.view (d ++ [name]) ≠ some none

/-- The bytes of the file at a location, none if there is no file. -/
def bytesAt (fs : FileSystem) (l : Location) : ByteArray := (fs.view l).join.getD .empty

theorem Offers.not_directory {p : Path} (h : fs.Offers p) : fs.view (fs.spot p) ≠ some none := by
  obtain ⟨d, name, hplace, hview⟩ := h
  rwa [spot_of_placeOf hplace]

/-- A path goes on to offer a place as long as no directory takes the place. -/
theorem Offers.of_keepsDirectories {p : Path} (h : fs.Offers p)
    (hkeeps : fs.KeepsDirectories fs') (hview : fs'.view (fs.spot p) ≠ some none) :
    fs'.Offers p := by
  obtain ⟨d, name, hplace, -⟩ := h
  rw [spot_of_placeOf hplace] at hview
  exact ⟨d, name, hkeeps.placeOf hplace, hview⟩

theorem Offers.of_sets {p : Path} {v : Option (Option ByteArray)} (h : fs.Offers p)
    (hset : fs.Sets (fs.spot p) v fs') (hv : v ≠ some none) : fs'.Offers p :=
  h.of_keepsDirectories (hset.keepsDirectories h.not_directory) (by rwa [hset.view_self])

theorem openFile_eq_ok_iff {p : Path} {l : Location} {content : ByteArray} :
    fs.openFile p = .ok (l, content) ↔
      fs.Offers p ∧ l = fs.spot p ∧ content = fs.bytesAt l := by
  rw [openFile, bind_eq_ok_iff]
  constructor
  · rintro ⟨⟨d, name?, closed⟩, hplace, h⟩
    cases name? with
    | none => exact nomatch h
    | some name =>
      cases closed with
      | true => exact nomatch h
      | false =>
        have hspot := spot_of_placeOf hplace
        simp only [Bool.false_eq_true, if_false] at h
        cases hat : fs.at? (d ++ [name]) with
        | none =>
          rw [hat] at h
          obtain ⟨rfl, rfl⟩ := Prod.mk.inj (Except.ok.inj h)
          have hview := view_eq_none_iff.mpr hat
          refine ⟨⟨d, name, hplace, by rw [hview]; exact nofun⟩, hspot.symm, ?_⟩
          rw [bytesAt, hview]
          rfl
        | some n =>
          rw [hat] at h
          cases n with
          | directory es => exact nomatch h
          | file b =>
            obtain ⟨rfl, rfl⟩ := Prod.mk.inj (Except.ok.inj h)
            have hview := view_eq_file_iff.mpr hat
            refine ⟨⟨d, name, hplace, by rw [hview]; exact nofun⟩, hspot.symm, ?_⟩
            rw [bytesAt, hview]
            rfl
  · rintro ⟨⟨d, name, hplace, hview⟩, rfl, rfl⟩
    refine ⟨_, hplace, ?_⟩
    rw [spot_of_placeOf hplace]
    simp only [Bool.false_eq_true, if_false]
    cases hat : fs.at? (d ++ [name]) with
    | none =>
      rw [bytesAt, view_eq_none_iff.mpr hat]
      rfl
    | some n =>
      cases n with
      | directory es => exact absurd (view_eq_directory_iff.mpr ⟨es, hat⟩) hview
      | file b =>
        rw [bytesAt, view_eq_file_iff.mpr hat]
        rfl

/-- Putting a file where a path offers a place sets the file. -/
theorem Offers.sets_put {p : Path} (h : fs.Offers p) (hfs : fs.root.WellFormed)
    (b : ByteArray) : fs.Sets (fs.spot p) (some (some b)) (fs.put (fs.spot p) (.file b)) := by
  obtain ⟨d, name, hplace, hview⟩ := h
  obtain ⟨-, -, -, -, -, hdir⟩ := exists_of_placeOf hplace
  rw [spot_of_placeOf hplace]
  refine sets_alter hfs hdir hview (Node.isLeaf_file b) fun n hn => ?_
  rw [← Option.some.inj hn]
  exact trivial

theorem createFile_ok {p : Path} (hfs : fs.root.WellFormed) (h : fs.createFile p = .ok fs') :
    fs.Offers p ∧ fs.Sets (fs.spot p) (some (some .empty)) fs' := by
  obtain ⟨⟨l, content⟩, hopen, h⟩ := bind_eq_ok_iff.mp h
  obtain ⟨hoffers, rfl, -⟩ := openFile_eq_ok_iff.mp hopen
  refine ⟨hoffers, ?_⟩
  rw [← Except.ok.inj h]
  exact hoffers.sets_put hfs .empty

theorem appendFile_eq_ok_iff {p : Path} {bytes : ByteArray} :
    fs.appendFile p bytes = .ok fs' ↔
      fs.Offers p ∧ (fs.bytesAt (fs.spot p)).size + bytes.size ≤ maxFileSize ∧
        fs.put (fs.spot p) (.file (fs.bytesAt (fs.spot p) ++ bytes)) = fs' := by
  rw [appendFile, bind_eq_ok_iff]
  constructor
  · rintro ⟨⟨l, content⟩, hopen, h⟩
    obtain ⟨hoffers, rfl, rfl⟩ := openFile_eq_ok_iff.mp hopen
    by_cases hsize : (fs.bytesAt (fs.spot p)).size + bytes.size ≤ maxFileSize
    · simp only [if_neg (Nat.not_lt.mpr hsize)] at h
      exact ⟨hoffers, hsize, Except.ok.inj h⟩
    · simp only [if_pos (Nat.not_le.mp hsize)] at h
      exact nomatch h
  · rintro ⟨hoffers, hsize, rfl⟩
    refine ⟨_, openFile_eq_ok_iff.mpr ⟨hoffers, rfl, rfl⟩, ?_⟩
    simp only [if_neg (Nat.not_lt.mpr hsize)]
    rfl

theorem Offers.appendFile_of_oversized {p : Path} {bytes : ByteArray} (h : fs.Offers p)
    (hsize : maxFileSize < (fs.bytesAt (fs.spot p)).size + bytes.size) :
    fs.appendFile p bytes = .error .fileTooLarge := by
  rw [appendFile, openFile_eq_ok_iff.mpr ⟨h, rfl, rfl⟩]
  exact if_pos hsize

theorem appendFile_ok {p : Path} {bytes : ByteArray} (hfs : fs.root.WellFormed)
    (h : fs.appendFile p bytes = .ok fs') :
    fs.Sets (fs.spot p) (some (some (fs.bytesAt (fs.spot p) ++ bytes))) fs' := by
  obtain ⟨hoffers, -, rfl⟩ := appendFile_eq_ok_iff.mp h
  exact hoffers.sets_put hfs _

theorem Offers.exists_createFile {p : Path} (h : fs.Offers p) :
    ∃ fs', fs.createFile p = .ok fs' :=
  ⟨_, bind_eq_ok_iff.mpr ⟨_, openFile_eq_ok_iff.mpr ⟨h, rfl, rfl⟩, rfl⟩⟩

theorem Offers.exists_appendFile {p : Path} {bytes : ByteArray} (h : fs.Offers p)
    (hsize : (fs.bytesAt (fs.spot p)).size + bytes.size ≤ maxFileSize) :
    ∃ fs', fs.appendFile p bytes = .ok fs' :=
  ⟨_, appendFile_eq_ok_iff.mpr ⟨h, hsize, rfl⟩⟩

/-- A file that was just made is empty. -/
theorem bytesAt_of_createFile {p : Path} (hfs : fs.root.WellFormed)
    (h : fs.createFile p = .ok fs') : fs'.bytesAt (fs'.spot p) = .empty := by
  obtain ⟨-, hset⟩ := createFile_ok hfs h
  rw [spot_eq_of_workingDirectory_eq hset.workingDirectory, bytesAt, hset.view_self]
  rfl

/-- A file that was made and filled holds the bytes that it was filled with. -/
theorem fillFile_ok {fs₁ : FileSystem} {p : Path} {bytes : ByteArray} (hfs : fs.root.WellFormed)
    (h : fs.createFile p = .ok fs₁) (h' : fs₁.appendFile p bytes = .ok fs') :
    fs.Sets (fs.spot p) (some (some bytes)) fs' := by
  obtain ⟨-, hset⟩ := createFile_ok hfs h
  have hset' := appendFile_ok hset.wellFormed h'
  rw [bytesAt_of_createFile hfs h, ByteArray.empty_append,
    spot_eq_of_workingDirectory_eq hset.workingDirectory] at hset'
  exact hset.trans hset'

/-- A file that was just made can be filled with the bytes exactly if a file can have that many. -/
theorem exists_fillFile_iff {fs₁ : FileSystem} {p : Path} (hfs : fs.root.WellFormed)
    (h : fs.createFile p = .ok fs₁) (bytes : ByteArray) :
    (∃ fs₂, fs₁.appendFile p bytes = .ok fs₂) ↔ bytes.size ≤ maxFileSize := by
  obtain ⟨hoffers, hset⟩ := createFile_ok hfs h
  have hsize : (fs₁.bytesAt (fs₁.spot p)).size + bytes.size = bytes.size := by
    rw [bytesAt_of_createFile hfs h]
    exact Nat.zero_add _
  constructor
  · rintro ⟨fs₂, h₂⟩
    rw [← hsize]
    exact (appendFile_eq_ok_iff.mp h₂).2.1
  · intro hle
    exact (hoffers.of_sets hset nofun).exists_appendFile (hsize.symm ▸ hle)

theorem fillFile_of_oversized {fs₁ : FileSystem} {p : Path} {bytes : ByteArray}
    (hfs : fs.root.WellFormed) (h : fs.createFile p = .ok fs₁)
    (hsize : maxFileSize < bytes.size) : fs₁.appendFile p bytes = .error .fileTooLarge := by
  obtain ⟨hoffers, hset⟩ := createFile_ok hfs h
  refine (hoffers.of_sets hset nofun).appendFile_of_oversized ?_
  rw [bytesAt_of_createFile hfs h]
  exact Nat.lt_of_lt_of_eq hsize (Nat.zero_add _).symm

theorem sets_erase {d : Location} {name : Name} {b : ByteArray} (hfs : fs.root.WellFormed)
    (hview : fs.view (d ++ [name]) = some (some b)) :
    fs.Sets (d ++ [name]) none (fs.erase (d ++ [name])) := by
  have hdir : fs.view d = some none :=
    Node.view_eq_directory_of_append (List.cons_ne_nil name []) (by
      show fs.view (d ++ [name]) ≠ none
      rw [hview]
      exact nofun)
  exact sets_alter hfs hdir (by rw [hview]; exact nofun) Node.isLeaf_none nofun

theorem removeFile_ok {p : Path} {d : Location} {name : Name} (hfs : fs.root.WellFormed)
    (hspot : fs.spot p = d ++ [name]) (h : fs.removeFile p = .ok fs') :
    fs.view (fs.spot p) ≠ some none ∧ fs.Sets (fs.spot p) none fs' := by
  obtain ⟨l, hlocate, h⟩ := bind_eq_ok_iff.mp h
  cases hat : fs.at? l with
  | none =>
    rw [hat] at h
    exact nomatch h
  | some n =>
    rw [hat] at h
    cases n with
    | directory es => exact nomatch h
    | file b =>
      have hview := view_eq_file_iff.mpr hat
      obtain ⟨rfl, -⟩ := locate_eq_ok_iff.mp ⟨hlocate, by rw [hview]; exact nofun⟩
      refine ⟨by rw [hview]; exact nofun, ?_⟩
      rw [← Except.ok.inj h]
      rw [hspot] at hview ⊢
      exact sets_erase hfs hview

theorem Offers.reaches {p : Path} (h : fs.Offers p) (hview : fs.view (fs.spot p) ≠ none) :
    IsFollowable p ∧ fs.Reaches p := by
  obtain ⟨d, name, hplace, -⟩ := h
  obtain ⟨cs, hinner, hd, hfollow, hpasses, hdir⟩ := exists_of_placeOf hplace
  refine ⟨hfollow, ?_, fun hidle => absurd hidle (not_endsIdle_of_placeOf hplace)⟩
  rw [hinner, passes_append, ← hd]
  refine ⟨hpasses, hdir, ?_⟩
  show fs.view (d ++ [name]) ≠ none
  rwa [← spot_of_placeOf hplace]

theorem Offers.contentOf_eq {p : Path} {b : ByteArray} (h : fs.Offers p)
    (hview : fs.view (fs.spot p) = some (some b)) : fs.contentOf p = .ok b := by
  obtain ⟨hfollow, hreach⟩ := h.reaches (by rw [hview]; exact nofun)
  exact contentOf_eq_ok_iff.mpr ⟨hfollow, hreach, hview⟩

theorem writeFile_ok {p : Path} {bytes : ByteArray} (hfs : fs.root.WellFormed)
    (h : fs.writeFile p bytes = .ok fs') : fs'.contentOf p = .ok bytes := by
  obtain ⟨fs₁, hcreate, happend⟩ := bind_eq_ok_iff.mp h
  obtain ⟨hoffers, -⟩ := createFile_ok hfs hcreate
  have hset := fillFile_ok hfs hcreate happend
  have hkeeps := hset.keepsDirectories hoffers.not_directory
  refine (hoffers.of_sets hset nofun).contentOf_eq ?_
  rw [hkeeps.spot]
  exact hset.view_self

theorem Offers.exists_removeFile {p : Path} {b : ByteArray} (h : fs.Offers p)
    (hview : fs.view (fs.spot p) = some (some b)) : ∃ fs', fs.removeFile p = .ok fs' := by
  obtain ⟨hfollow, hreach⟩ := h.reaches (by rw [hview]; exact nofun)
  refine ⟨fs.erase (fs.spot p), bind_eq_ok_iff.mpr
    ⟨fs.spot p, (locate_eq_ok_iff.mpr ⟨rfl, hfollow, hreach⟩).1, ?_⟩⟩
  rw [view_eq_file_iff.mp hview]

theorem moveFile_eq_ok {source target : Path} (h : fs.moveFile source target = .ok fs') :
    ∃ d name d' name' b, fs.placeOf source = .ok ⟨d, some name, false⟩ ∧
      fs.placeOf target = .ok ⟨d', some name', false⟩ ∧
      fs.view (d ++ [name]) = some (some b) ∧ fs.view (d' ++ [name']) ≠ some none ∧
      fs' = (fs.erase (d ++ [name])).put (d' ++ [name']) (.file b) := by
  obtain ⟨⟨d, name?, closed⟩, hold, h⟩ := bind_eq_ok_iff.mp h
  obtain ⟨⟨d', name'?, closed'⟩, hnew, h⟩ := bind_eq_ok_iff.mp h
  -- Every case but one ends in an error: a file goes where there is a file or nothing.
  cases name? with
  | none => exact nomatch h
  | some name =>
    cases name'? with
    | none => exact nomatch h
    | some name' =>
      simp only at h
      cases hat : fs.at? (d ++ [name]) with
      | none =>
        rw [hat] at h
        exact nomatch h
      | some n =>
        rw [hat] at h
        cases n with
        | directory es => exact nomatch h
        | file b =>
          cases closed with
          | true => exact nomatch h
          | false =>
            cases closed' with
            | true => exact nomatch h
            | false =>
              simp only [Bool.or_false, Bool.false_eq_true, if_false] at h
              refine ⟨d, name, d', name', b, hold, hnew, view_eq_file_iff.mpr hat, ?_, ?_⟩
              · intro hdir
                obtain ⟨es, hes⟩ := view_eq_directory_iff.mp hdir
                rw [hes] at h
                exact nomatch h
              · cases hat' : fs.at? (d' ++ [name']) with
                | none =>
                  rw [hat'] at h
                  exact (Except.ok.inj h).symm
                | some m =>
                  rw [hat'] at h
                  cases m with
                  | directory es => exact nomatch h
                  | file b' => exact (Except.ok.inj h).symm

/-- Moving a file takes it away from the one place and sets it at the other. -/
theorem moveFile_ok {source target : Path} (hfs : fs.root.WellFormed)
    (h : fs.moveFile source target = .ok fs') :
    fs.Offers target ∧ ∃ b between, fs.view (fs.spot source) = some (some b) ∧
      fs.Sets (fs.spot source) none between ∧
      between.Sets (fs.spot target) (some (some b)) fs' := by
  obtain ⟨d, name, d', name', b, hold, hnew, hview, htarget, rfl⟩ := moveFile_eq_ok h
  obtain ⟨-, -, -, -, -, hdir⟩ := exists_of_placeOf hnew
  have hbetween := sets_erase hfs hview
  have hkeeps := hbetween.keepsDirectories (by rw [hview]; exact nofun)
  have htarget' : (fs.erase (d ++ [name])).view (d' ++ [name']) ≠ some none := by
    rw [hbetween.view]
    split
    · exact nofun
    · exact htarget
  rw [spot_of_placeOf hold, spot_of_placeOf hnew]
  refine ⟨⟨d', name', hnew, htarget⟩, b, _, hview, hbetween, ?_⟩
  refine sets_alter hbetween.wellFormed (hkeeps.directory _ hdir) htarget' (Node.isLeaf_file b)
    fun n hn => ?_
  rw [← Option.some.inj hn]
  exact trivial

theorem Offers.exists_moveFile {source target : Path} {b : ByteArray} (h : fs.Offers source)
    (h' : fs.Offers target) (hview : fs.view (fs.spot source) = some (some b)) :
    ∃ fs', fs.moveFile source target = .ok fs' := by
  obtain ⟨d, name, hold, -⟩ := h
  obtain ⟨d', name', hnew, htarget⟩ := h'
  rw [spot_of_placeOf hold] at hview
  refine ⟨(fs.erase (d ++ [name])).put (d' ++ [name']) (.file b), ?_⟩
  refine bind_eq_ok_iff.mpr ⟨_, hold, bind_eq_ok_iff.mpr ⟨_, hnew, ?_⟩⟩
  simp only [view_eq_file_iff.mp hview]
  cases hat : fs.at? (d' ++ [name']) with
  | none => rfl
  | some n =>
    cases n with
    | directory es => exact absurd (view_eq_directory_iff.mpr ⟨es, hat⟩) htarget
    | file b' => rfl

end FileSystem
end Files
end StepStubs
