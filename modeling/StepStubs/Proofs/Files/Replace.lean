/-
Replacing a file.

Once the directory of a file is there, three steps are left: the temporary file is made, is
filled and is moved into place.  `replaceIn` is these steps with what is cleaned up if one of
them fails.  If all succeed, the file has its new content and the temporary file is gone; if
one fails, nothing but the temporary file was touched.  Whether they succeed depends on the
paths, the directories of the tree and the number of bytes, not on any file.
-/
import StepStubs.Proofs.Files.Directories

namespace StepStubs
namespace Files

open StepStubs.Path (Component innerOf)

/-! ## The steps as a function of the tree -/

/-- The directory that a file is replaced in. -/
def directoryFor (p : Path) : Path := p.parent?.getD ⟨['.']⟩

/-- The tree without the temporary file for `p`, as far as that can be taken away. -/
def cleanUp (p : Path) (fs : FileSystem) : FileSystem :=
  match fs.removeFile (temporaryPath p) with
  | .ok fs' => fs'
  | .error _ => fs

def replaceIn (p : Path) (bytes : ByteArray) (fs : FileSystem) :
    Except Failure Unit × FileSystem :=
  match fs.createFile (temporaryPath p) with
  | .error c => (.error (.unwritable (temporaryPath p) c), fs)
  | .ok fs₁ =>
    match fs₁.appendFile (temporaryPath p) bytes with
    | .error c => (.error (.unwritable (temporaryPath p) c), cleanUp p fs₁)
    | .ok fs₂ =>
      match fs₂.moveFile (temporaryPath p) p with
      | .error c => (.error (.unwritable p c), cleanUp p fs₂)
      | .ok fs₃ => (.ok (), fs₃)

theorem change_run (f : FileSystem → Except Cause FileSystem) (fs : FileSystem) :
    change f fs =
      match f fs with
      | .ok fs' => (.ok (), fs')
      | .error c => (.error c, fs) := by
  rw [change]
  show (match f fs with | .ok _ => _ | .error _ => _ : Operation Cause Unit) fs = _
  cases f fs <;> rfl

theorem writing_change_run (p : Path) (f : FileSystem → Except Cause FileSystem)
    (fs : FileSystem) :
    writing p (change f) fs =
      match f fs with
      | .ok fs' => (.ok (), fs')
      | .error c => (.error (.unwritable p c), fs) := by
  rw [writing, run_adapt, change_run]
  cases f fs <;> rfl

theorem writing_change_eq_ok_iff {p : Path} {f : FileSystem → Except Cause FileSystem}
    {fs fs' : FileSystem} : writing p (change f) fs = (.ok (), fs') ↔ f fs = .ok fs' := by
  rw [writing_change_run]
  cases f fs with
  | error c => exact ⟨nofun, nofun⟩
  | ok fs₁ =>
    constructor
    · intro h
      rw [(Prod.mk.inj h).2]
    · intro h
      rw [Except.ok.inj h]

theorem removeTemporary_run (p : Path) (fs : FileSystem) :
    removeTemporary p fs = (.ok (), cleanUp p fs) := by
  rw [removeTemporary, cleanUp]
  show (match fs.removeFile (temporaryPath p) with
    | .ok _ => _
    | .error _ => _ : Operation Failure Unit) fs = _
  cases fs.removeFile (temporaryPath p) <;> rfl

theorem run_tryCatch {ε α : Type} (x : Operation ε α) (f : ε → Operation ε α) (fs : FileSystem) :
    (tryCatch x f : Operation ε α) fs =
      match x fs with
      | (.ok a, fs') => (.ok a, fs')
      | (.error e, fs') => f e fs' := by
  have h : (tryCatch x f : Operation ε α) fs =
      (fun r : Except ε α × FileSystem =>
        (match r.1 with
          | .ok a => fun fs' => (.ok a, fs')
          | .error e => f e : FileSystem → Except ε α × FileSystem) r.2) (x fs) := rfl
  rw [h]
  rcases x fs with ⟨_ | _, _⟩ <;> rfl

theorem perform_createParents (p : Path) (bytes : ByteArray) :
    WriteStep.createParents.perform p bytes = ensureDirectory (directoryFor p) := rfl

theorem perform_createTemporary_run (p : Path) (bytes : ByteArray) (fs : FileSystem) :
    WriteStep.createTemporary.perform p bytes fs =
      match fs.createFile (temporaryPath p) with
      | .ok fs' => (.ok (), fs')
      | .error c => (.error (.unwritable (temporaryPath p) c), fs) :=
  writing_change_run _ _ fs

theorem perform_fillTemporary_run (p : Path) (bytes : ByteArray) (fs : FileSystem) :
    WriteStep.fillTemporary.perform p bytes fs =
      match fs.appendFile (temporaryPath p) bytes with
      | .ok fs' => (.ok (), fs')
      | .error c => (.error (.unwritable (temporaryPath p) c), fs) :=
  writing_change_run _ _ fs

theorem perform_replaceTarget_run (p : Path) (bytes : ByteArray) (fs : FileSystem) :
    WriteStep.replaceTarget.perform p bytes fs =
      match fs.moveFile (temporaryPath p) p with
      | .ok fs' => (.ok (), fs')
      | .error c => (.error (.unwritable p c), fs) :=
  writing_change_run _ _ fs

theorem writeAtomically_run (p : Path) (bytes : ByteArray) (fs : FileSystem) :
    writeAtomically p bytes fs =
      match ensureDirectory (directoryFor p) fs with
      | (.ok (), fs') => replaceIn p bytes fs'
      | (.error e, fs') => (.error e, fs') := by
  rw [writeAtomically, run_bind, perform_createParents]
  rcases ensureDirectory (directoryFor p) fs with ⟨e | _, fs'⟩
  · rfl
  · simp only [run_bind, run_tryCatch, perform_createTemporary_run, perform_fillTemporary_run,
      perform_replaceTarget_run, removeTemporary_run]
    rw [replaceIn]
    cases fs'.createFile (temporaryPath p) with
    | error c => rfl
    | ok fs₁ =>
      simp only
      cases fs₁.appendFile (temporaryPath p) bytes with
      | error c => rfl
      | ok fs₂ =>
        simp only
        cases fs₂.moveFile (temporaryPath p) p <;> rfl

namespace FileSystem

variable {fs fs' : FileSystem}

/-! ## What replacing a file changes -/

/-- Do the trees differ in files at some of the locations only?  No directory comes or goes. -/
structure KeepsBut (fs : FileSystem) (touched : Location → Prop) (fs' : FileSystem) : Prop where
  workingDirectory : fs'.workingDirectory = fs.workingDirectory
  wellFormed : fs'.root.WellFormed
  view : ∀ l, fs'.view l = fs.view l ∨
    touched l ∧ fs.view l ≠ some none ∧ fs'.view l ≠ some none

theorem KeepsBut.refl (hfs : fs.root.WellFormed) (touched : Location → Prop) :
    fs.KeepsBut touched fs :=
  ⟨rfl, hfs, fun _ => Or.inl rfl⟩

theorem KeepsBut.mono {touched touched' : Location → Prop} (h : fs.KeepsBut touched fs')
    (hsub : ∀ l, touched l → touched' l) : fs.KeepsBut touched' fs' :=
  ⟨h.workingDirectory, h.wellFormed, fun l => (h.view l).imp_right fun ht => ⟨hsub l ht.1, ht.2⟩⟩

theorem KeepsBut.trans {fs₁ fs₂ fs₃ : FileSystem} {touched : Location → Prop}
    (h : fs₁.KeepsBut touched fs₂) (h' : fs₂.KeepsBut touched fs₃) :
    fs₁.KeepsBut touched fs₃ := by
  refine ⟨h'.workingDirectory.trans h.workingDirectory, h'.wellFormed, fun l => ?_⟩
  rcases h'.view l with h₂ | ⟨ht, hold, hnew⟩
  · rw [h₂]
    exact h.view l
  · rcases h.view l with h₁ | ⟨-, hold₁, -⟩
    · rw [h₁] at hold
      exact Or.inr ⟨ht, hold, hnew⟩
    · exact Or.inr ⟨ht, hold₁, hnew⟩

theorem KeepsBut.view_of_not {touched : Location → Prop} (h : fs.KeepsBut touched fs')
    {l : Location} (hl : ¬ touched l) : fs'.view l = fs.view l :=
  (h.view l).resolve_right fun ht => hl ht.1

theorem KeepsBut.view_eq_directory_iff {touched : Location → Prop} (h : fs.KeepsBut touched fs')
    {l : Location} : fs'.view l = some none ↔ fs.view l = some none := by
  rcases h.view l with hsame | ⟨-, hold, hnew⟩
  · rw [hsame]
  · exact ⟨fun hdir => absurd hdir hnew, fun hdir => absurd hdir hold⟩

theorem KeepsBut.keepsDirectories {touched : Location → Prop} (h : fs.KeepsBut touched fs') :
    fs.KeepsDirectories fs' :=
  ⟨h.workingDirectory, fun _ => h.view_eq_directory_iff.mpr⟩

theorem KeepsBut.keepsDirectories' {touched : Location → Prop} (h : fs.KeepsBut touched fs') :
    fs'.KeepsDirectories fs :=
  ⟨h.workingDirectory.symm, fun _ => h.view_eq_directory_iff.mp⟩

theorem Sets.keepsBut {l : Location} {v : Option (Option ByteArray)} (h : fs.Sets l v fs')
    (hold : fs.view l ≠ some none) (hnew : v ≠ some none) : fs.KeepsBut (· = l) fs' := by
  refine ⟨h.workingDirectory, h.wellFormed, fun l' => ?_⟩
  by_cases hl : l' = l
  · rw [hl, h.view_self]
    exact Or.inr ⟨rfl, hold, hnew⟩
  · exact Or.inl (h.view_of_ne hl)

def temporarySpot (fs : FileSystem) (p : Path) : Location := fs.spot (temporaryPath p)

/-- Does the one tree have a new file at the path, and else what the other has, but for the
temporary file? -/
structure Replaces (fs : FileSystem) (p : Path) (bytes : ByteArray) (fs' : FileSystem) :
    Prop where
  workingDirectory : fs'.workingDirectory = fs.workingDirectory
  wellFormed : fs'.root.WellFormed
  view : ∀ l, fs'.view l =
    if l = fs.spot p then some (some bytes)
    else if l = fs.temporarySpot p then none
    else fs.view l

/-- What stood at the temporary file before the replacement does not matter. -/
theorem Replaces.of_sets {fs₁ : FileSystem} {p : Path} {bytes : ByteArray}
    {v : Option (Option ByteArray)} (h : fs₁.Replaces p bytes fs')
    (hset : fs.Sets (fs.temporarySpot p) v fs₁) : fs.Replaces p bytes fs' := by
  have hspot : ∀ q, fs₁.spot q = fs.spot q :=
    spot_eq_of_workingDirectory_eq hset.workingDirectory
  have htemporary : fs₁.temporarySpot p = fs.temporarySpot p := hspot _
  refine ⟨h.workingDirectory.trans hset.workingDirectory, h.wellFormed, fun l => ?_⟩
  rw [h.view, hset.view, hspot, htemporary]
  by_cases hl : l = fs.temporarySpot p
  · rw [if_pos hl, if_pos hl]
  · rw [if_neg hl, if_neg hl, if_neg hl]

theorem Replaces.keepsBut {p : Path} {bytes : ByteArray} (h : fs.Replaces p bytes fs')
    (hp : fs.view (fs.spot p) ≠ some none) (ht : fs.view (fs.temporarySpot p) ≠ some none) :
    fs.KeepsBut (fun l => l = fs.spot p ∨ l = fs.temporarySpot p) fs' := by
  refine ⟨h.workingDirectory, h.wellFormed, fun l => ?_⟩
  rw [h.view]
  by_cases hl : l = fs.spot p
  · rw [if_pos hl, hl]
    exact Or.inr ⟨Or.inl rfl, hp, nofun⟩
  · rw [if_neg hl]
    by_cases hl' : l = fs.temporarySpot p
    · rw [if_pos hl', hl']
      exact Or.inr ⟨Or.inr rfl, ht, nofun⟩
    · rw [if_neg hl']
      exact Or.inl rfl

end FileSystem

variable {fs fs' : FileSystem} {p : Path} {bytes : ByteArray}

/-- A temporary file that is there is cleaned up. -/
theorem cleanUp_sets {b : ByteArray} (hfs : fs.root.WellFormed)
    (htemporary : fs.Offers (temporaryPath p))
    (hview : fs.view (fs.temporarySpot p) = some (some b)) :
    fs.Sets (fs.temporarySpot p) none (cleanUp p fs) := by
  obtain ⟨fs', h⟩ := htemporary.exists_removeFile hview
  obtain ⟨d, name, hplace, -⟩ := htemporary
  rw [cleanUp, h]
  exact (FileSystem.removeFile_ok hfs (FileSystem.spot_of_placeOf hplace) h).2

/-- A temporary file that is full and is moved becomes the file. -/
theorem moveTemporary_ok (hfs : fs.root.WellFormed)
    (hview : fs.view (fs.temporarySpot p) = some (some bytes))
    (h : fs.moveFile (temporaryPath p) p = .ok fs') : fs.Offers p ∧ fs.Replaces p bytes fs' := by
  obtain ⟨hoffers, b, between, hb, herased, hset⟩ := FileSystem.moveFile_ok hfs h
  have hbytes : b = bytes := (Option.some.inj (Option.some.inj (hview.symm.trans hb))).symm
  rw [hbytes] at hset
  refine ⟨hoffers, hset.workingDirectory.trans herased.workingDirectory, hset.wellFormed,
    fun l => ?_⟩
  rw [hset.view, herased.view, ← FileSystem.temporarySpot]

/-- Bytes that no file can have are refused when the temporary file is filled, and that file is
taken away again. -/
theorem replaceIn_of_oversized {fs₁ : FileSystem} (hfs : fs.root.WellFormed)
    (h : fs.createFile (temporaryPath p) = .ok fs₁)
    (hsize : FileSystem.maxFileSize < bytes.size) :
    replaceIn p bytes fs =
      (.error (.unwritable (temporaryPath p) .fileTooLarge), cleanUp p fs₁) := by
  rw [replaceIn, h]
  simp only [FileSystem.fillFile_of_oversized hfs h hsize]

/-- A replacement that succeeds gives the file its content and takes the temporary file
away. -/
theorem replaceIn_ok (hfs : fs.root.WellFormed) (h : replaceIn p bytes fs = (.ok (), fs')) :
    fs.Offers (temporaryPath p) ∧ fs.Offers p ∧ bytes.size ≤ FileSystem.maxFileSize ∧
      fs.Replaces p bytes fs' := by
  rw [replaceIn] at h
  cases h₁ : fs.createFile (temporaryPath p) with
  | error c =>
    rw [h₁] at h
    exact nomatch (Prod.mk.inj h).1
  | ok fs₁ =>
    simp only [h₁] at h
    cases h₂ : fs₁.appendFile (temporaryPath p) bytes with
    | error c =>
      rw [h₂] at h
      exact nomatch (Prod.mk.inj h).1
    | ok fs₂ =>
      simp only [h₂] at h
      cases h₃ : fs₂.moveFile (temporaryPath p) p with
      | error c =>
        rw [h₃] at h
        exact nomatch (Prod.mk.inj h).1
      | ok fs₃ =>
        rw [h₃] at h
        have hfs₃ : fs₃ = fs' := (Prod.mk.inj h).2
        subst hfs₃
        obtain ⟨htemporary, -⟩ := FileSystem.createFile_ok hfs h₁
        have hfilled : fs.Sets (fs.temporarySpot p) (some (some bytes)) fs₂ :=
          FileSystem.fillFile_ok hfs h₁ h₂
        have hsize := (FileSystem.exists_fillFile_iff hfs h₁ bytes).mp ⟨fs₂, h₂⟩
        have hkeeps := hfilled.keepsDirectories htemporary.not_directory
        have hspot : fs₂.temporarySpot p = fs.temporarySpot p := hkeeps.spot _
        obtain ⟨hoffers, hreplaces⟩ :=
          moveTemporary_ok hfilled.wellFormed (by rw [hspot, hfilled.view_self]) h₃
        refine ⟨htemporary, ?_, hsize, hreplaces.of_sets hfilled⟩
        refine hoffers.of_keepsDirectories (hfilled.keepsDirectories' nofun) fun hdir => ?_
        exact hoffers.not_directory (hkeeps.directory _ hdir)

namespace FileSystem

/-- Do the trees differ at most in that the one has lost a temporary file? -/
structure LosesTemporary (fs : FileSystem) (p : Path) (fs' : FileSystem) : Prop where
  keeps : fs.KeepsBut (· = fs.temporarySpot p) fs'
  temporary : fs'.view (fs.temporarySpot p) = fs.view (fs.temporarySpot p) ∨
    fs'.view (fs.temporarySpot p) = none

theorem LosesTemporary.of_keepsBut (h : fs.KeepsBut (fun _ => False) fs') :
    fs.LosesTemporary p fs' :=
  ⟨h.mono fun _ hl => hl.elim, Or.inl (h.view_of_not id)⟩

end FileSystem

/-- A temporary file that was made is lost when it is cleaned up, whatever it holds. -/
theorem losesTemporary_cleanUp {b : ByteArray} (htemporary : fs.Offers (temporaryPath p))
    (hset : fs.Sets (fs.temporarySpot p) (some (some b)) fs') :
    fs.LosesTemporary p (cleanUp p fs') := by
  have hspot : fs'.temporarySpot p = fs.temporarySpot p :=
    FileSystem.spot_eq_of_workingDirectory_eq hset.workingDirectory _
  have hcleaned := cleanUp_sets hset.wellFormed (htemporary.of_sets hset nofun)
    (by rw [hspot, hset.view_self])
  rw [hspot] at hcleaned
  have hset' := hset.keepsBut htemporary.not_directory nofun
  have hcleaned' := hcleaned.keepsBut (by rw [hset.view_self]; exact nofun) nofun
  exact ⟨hset'.trans hcleaned', Or.inr hcleaned.view_self⟩

/-- A replacement that fails touches the temporary file at most, and leaves none of its own. -/
theorem replaceIn_error {e : Failure} (hfs : fs.root.WellFormed)
    (h : replaceIn p bytes fs = (.error e, fs')) : fs.LosesTemporary p fs' := by
  rw [replaceIn] at h
  cases h₁ : fs.createFile (temporaryPath p) with
  | error c =>
    rw [h₁] at h
    rw [← (Prod.mk.inj h).2]
    exact .of_keepsBut (.refl hfs _)
  | ok fs₁ =>
    obtain ⟨htemporary, hcreated⟩ := FileSystem.createFile_ok hfs h₁
    simp only [h₁] at h
    cases h₂ : fs₁.appendFile (temporaryPath p) bytes with
    | error c =>
      rw [h₂] at h
      rw [← (Prod.mk.inj h).2]
      exact losesTemporary_cleanUp htemporary hcreated
    | ok fs₂ =>
      simp only [h₂] at h
      cases h₃ : fs₂.moveFile (temporaryPath p) p with
      | error c =>
        rw [h₃] at h
        rw [← (Prod.mk.inj h).2]
        exact losesTemporary_cleanUp htemporary (FileSystem.fillFile_ok hfs h₁ h₂)
      | ok fs₃ =>
        rw [h₃] at h
        exact nomatch (Prod.mk.inj h).1

theorem exists_replaceIn (hfs : fs.root.WellFormed) (htemporary : fs.Offers (temporaryPath p))
    (hp : fs.Offers p) (hsize : bytes.size ≤ FileSystem.maxFileSize) :
    ∃ fs', replaceIn p bytes fs = (.ok (), fs') := by
  obtain ⟨fs₁, h₁⟩ := htemporary.exists_createFile
  obtain ⟨fs₂, h₂⟩ := (FileSystem.exists_fillFile_iff hfs h₁ bytes).mpr hsize
  have hfilled : fs.Sets (fs.temporarySpot p) (some (some bytes)) fs₂ :=
    FileSystem.fillFile_ok hfs h₁ h₂
  have hkeeps := hfilled.keepsDirectories htemporary.not_directory
  have hp₂ := hp.of_keepsDirectories hkeeps (by
    rw [hfilled.view]
    split
    · exact nofun
    · exact hp.not_directory)
  have hview : fs₂.view (fs₂.spot (temporaryPath p)) = some (some bytes) := by
    rw [hkeeps.spot]
    exact hfilled.view_self
  obtain ⟨fs₃, h₃⟩ := (htemporary.of_sets hfilled nofun).exists_moveFile hp₂ hview
  refine ⟨fs₃, ?_⟩
  rw [replaceIn]
  simp only [h₁, h₂, h₃]

/-! ## Replacing a file in a directory that is there -/

variable {directory : Path}

theorem FileSystem.Offers.check (h : fs.Offers p) : FileSystem.checkPath p = .ok () := by
  obtain ⟨d, name, hplace, -⟩ := h
  obtain ⟨-, -, -, hfollow, -⟩ := FileSystem.exists_of_placeOf hplace
  exact hfollow.check

/-- An atomic write into a directory that is there replaces the file in the same tree. -/
theorem writeAtomically_cases (hfs : fs.root.WellFormed)
    (hdirectory : fs.isDirectory directory = true) (hp : p.IsEntryOf directory)
    (bytes : ByteArray) :
    ∃ fs₁, (∀ touched, fs.KeepsBut touched fs₁) ∧
      (writeAtomically p bytes fs = replaceIn p bytes fs₁ ∨
        ∃ e, writeAtomically p bytes fs = (.error e, fs₁)) := by
  obtain ⟨r, hr, hinner, habs, -, -⟩ := hp.exists_parent
  have hfor : directoryFor p = r := by rw [directoryFor, hr]; rfl
  have hadds := ensureDirectory_adds r hfs
  refine ⟨(ensureDirectory r fs).2, fun touched => ⟨hadds.workingDirectory, hadds.wellFormed,
    fun l => Or.inl (hadds.view_eq hdirectory habs hinner l)⟩, ?_⟩
  rw [writeAtomically_run, hfor]
  rcases ensureDirectory r fs with ⟨e | _, fs₁⟩
  · exact Or.inr ⟨e, rfl⟩
  · exact Or.inl rfl

theorem writeAtomically_ok (hfs : fs.root.WellFormed)
    (hdirectory : fs.isDirectory directory = true) (hp : p.IsEntryOf directory)
    (h : writeAtomically p bytes fs = (.ok (), fs')) :
    fs.Offers (temporaryPath p) ∧ fs.Offers p ∧ bytes.size ≤ FileSystem.maxFileSize ∧
      fs.Replaces p bytes fs' := by
  obtain ⟨fs₁, hsame, hrun⟩ := writeAtomically_cases hfs hdirectory hp bytes
  have hkeeps := hsame fun _ => False
  rcases hrun with hrun | ⟨e, hrun⟩
  · obtain ⟨htemporary, hoffers, hsize, hreplaces⟩ :=
      replaceIn_ok hkeeps.wellFormed (hrun.symm.trans h)
    have hview : ∀ l, fs₁.view l = fs.view l := fun l => hkeeps.view_of_not id
    have hspot : ∀ q, fs₁.spot q = fs.spot q := hkeeps.keepsDirectories.spot
    refine ⟨htemporary.of_keepsDirectories hkeeps.keepsDirectories' ?_,
      hoffers.of_keepsDirectories hkeeps.keepsDirectories' ?_, hsize,
      hreplaces.workingDirectory.trans hkeeps.workingDirectory, hreplaces.wellFormed, fun l => ?_⟩
    · rw [← hview]
      exact htemporary.not_directory
    · rw [← hview]
      exact hoffers.not_directory
    · rw [hreplaces.view, FileSystem.temporarySpot, FileSystem.temporarySpot, hspot, hspot, hview]
  · exact nomatch (Prod.mk.inj (h.symm.trans hrun)).1

theorem writeAtomically_error {e : Failure} (hfs : fs.root.WellFormed)
    (hdirectory : fs.isDirectory directory = true) (hp : p.IsEntryOf directory)
    (h : writeAtomically p bytes fs = (.error e, fs')) : fs.LosesTemporary p fs' := by
  obtain ⟨fs₁, hsame, hrun⟩ := writeAtomically_cases hfs hdirectory hp bytes
  rcases hrun with hrun | ⟨e', hrun⟩
  · have hkeeps := hsame (· = fs.temporarySpot p)
    have hview : fs₁.view (fs.temporarySpot p) = fs.view (fs.temporarySpot p) :=
      (hsame fun _ => False).view_of_not id
    obtain ⟨hlost, htemporary⟩ := replaceIn_error hkeeps.wellFormed (hrun.symm.trans h)
    have hspot : fs₁.temporarySpot p = fs.temporarySpot p := hkeeps.keepsDirectories.spot _
    rw [hspot] at hlost htemporary
    rw [hview] at htemporary
    exact ⟨hkeeps.trans hlost, htemporary⟩
  · rw [← (Prod.mk.inj (hrun.symm.trans h)).2]
    exact .of_keepsBut (hsame _)

theorem exists_writeAtomically (hfs : fs.root.WellFormed)
    (hdirectory : fs.isDirectory directory = true) (hp : p.IsEntryOf directory)
    (htemporary : fs.Offers (temporaryPath p)) (hoffers : fs.Offers p)
    (hsize : bytes.size ≤ FileSystem.maxFileSize) :
    ∃ fs', writeAtomically p bytes fs = (.ok (), fs') := by
  obtain ⟨r, hr, hinner, habs, hprefix, -⟩ := hp.exists_parent
  have hfor : directoryFor p = r := by rw [directoryFor, hr]; rfl
  have hensure := ensureDirectory_of_innerOf_eq hdirectory habs hinner fun hne =>
    FileSystem.checkPath_of_prefix hprefix hne hoffers.check
  obtain ⟨fs', hfs'⟩ := exists_replaceIn hfs htemporary hoffers hsize
  refine ⟨fs', ?_⟩
  rw [writeAtomically_run, hfor, hensure]
  exact hfs'

end Files
end StepStubs
