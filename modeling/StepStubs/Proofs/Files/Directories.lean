/-
Making sure that a directory exists.

Missing directories are made one by one from the outside in, along the path that is asked for
(`createDirectoriesWithin_makes`).  Nothing else is changed, whether that succeeds or not, so the
tree afterwards has the files that it had before, and its new directories are on the way of the
path.
-/
import Mathlib.Logic.Relation
import StepStubs.Files.Writing
import StepStubs.Proofs.Files.Change

namespace StepStubs
namespace Files

open StepStubs.Path (Component innerOf)
open FileSystem (moveBy)

/-! ## Running operations -/

theorem run_bind {σ ε α β : Type} (x : ExceptT ε (StateM σ) α) (f : α → ExceptT ε (StateM σ) β)
    (s : σ) :
    (x >>= f) s =
      match x s with
      | (.ok a, s') => f a s'
      | (.error e, s') => (.error e, s') := by
  have h : (x >>= f) s = (fun r : Except ε α × σ => ExceptT.bindCont f r.1 r.2) (x s) := rfl
  rw [h]
  rcases x s with ⟨_ | _, _⟩ <;> rfl

theorem run_adapt {ε ε' α : Type} (g : ε → ε') (x : Operation ε α) (fs : FileSystem) :
    (x.adapt g : Operation ε' α) fs = ((x fs).1.mapError g, (x fs).2) := by
  have h : (x.adapt g : Operation ε' α) fs =
      (fun r : Except ε α × FileSystem => (r.1.mapError g, r.2)) (x fs) := rfl
  rw [h]

theorem createOrKeepDirectory_run (p : Path) (fs : FileSystem) :
    createOrKeepDirectory p fs =
      match fs.createDirectory p with
      | .ok fs' => (.ok (), fs')
      | .error c => if fs.isDirectory p then (.ok (), fs) else (.error c, fs) := by
  rw [createOrKeepDirectory]
  show (match fs.createDirectory p with | .ok _ => _ | .error _ => _ : Operation Cause Unit) fs = _
  cases fs.createDirectory p with
  | ok fs' => rfl
  | error c =>
    show (if fs.isDirectory p then _ else _ : Operation Cause Unit) fs = _
    split <;> rfl

def createParents (depth : Nat) (p : Path) (fs : FileSystem) : Except Cause Unit × FileSystem :=
  match p.parent? with
  | some parent => createDirectoriesWithin depth parent fs
  | none => (.ok (), fs)

theorem createDirectoriesWithin_run (depth : Nat) (p : Path) (fs : FileSystem) :
    createDirectoriesWithin (depth + 1) p fs =
      match fs.createDirectory p with
      | .ok fs' => (.ok (), fs')
      | .error .notFound =>
        match createParents depth p fs with
        | (.ok (), fs') => createOrKeepDirectory p fs'
        | (.error e, fs') => (.error e, fs')
      | .error c => if fs.isDirectory p then (.ok (), fs) else (.error c, fs) := by
  rw [createDirectoriesWithin]
  show (match fs.createDirectory p with
    | .ok _ => _
    | .error .notFound => _
    | .error _ => _ : Operation Cause Unit) fs = _
  cases fs.createDirectory p with
  | ok fs' => rfl
  | error c =>
    cases c
    case notFound =>
      show (match p.parent? with
        | some parent => createDirectoriesWithin depth parent >>= fun _ => createOrKeepDirectory p
        | none => createOrKeepDirectory p : Operation Cause Unit) fs = _
      rw [createParents]
      cases p.parent? with
      | none => rfl
      | some parent =>
        show (createDirectoriesWithin depth parent >>= fun _ => createOrKeepDirectory p) fs =
          match createDirectoriesWithin depth parent fs with
          | (.ok (), fs') => createOrKeepDirectory p fs'
          | (.error e, fs') => (.error e, fs')
        rw [run_bind]
        rcases createDirectoriesWithin depth parent fs with ⟨_ | _, _⟩ <;> rfl
    all_goals
      show (if fs.isDirectory p then _ else _ : Operation Cause Unit) fs = _
      split <;> rfl

/-- What is done where a directory above is missing. -/
theorem createDirectoriesWithin_of_notFound {p : Path} {fs : FileSystem} (depth : Nat)
    (h : fs.createDirectory p = .error .notFound) :
    createDirectoriesWithin (depth + 1) p fs =
      match createParents depth p fs with
      | (.ok (), fs') => createOrKeepDirectory p fs'
      | (.error e, fs') => (.error e, fs') := by
  rw [createDirectoriesWithin_run, h]

namespace FileSystem

variable {fs fs' : FileSystem}

/-! ## What making directories changes -/

/-- Does the path lead through the location, or to it? -/
def OnWay (fs : FileSystem) (p : Path) (l : Location) : Prop :=
  ∃ cs, cs <+: innerOf p.text ∧ l = cs.foldl moveBy (fs.startOf p)

/-- Is the one tree the other with some of the missing directories on the way of a path?  The
path has to start at a directory for that. -/
structure AddsDirectories (fs : FileSystem) (p : Path) (fs' : FileSystem) : Prop where
  workingDirectory : fs'.workingDirectory = fs.workingDirectory
  wellFormed : fs'.root.WellFormed
  start : fs'.view (fs.startOf p) = some none → fs.view (fs.startOf p) = some none
  view : ∀ l, fs'.view l = fs.view l ∨
    fs.OnWay p l ∧ fs.view l = none ∧ fs'.view l = some none

theorem onWay_spot (fs : FileSystem) (p : Path) : fs.OnWay p (fs.spot p) :=
  ⟨_, List.prefix_refl _, rfl⟩

theorem OnWay.of_parent {p q : Path} {l : Location} (h : fs.OnWay q l)
    (hq : p.parent? = some q) : fs.OnWay p l := by
  obtain ⟨cs, hcs, rfl⟩ := h
  obtain ⟨habs, hprefix⟩ := Path.parent?_eq_some hq
  exact ⟨cs, hcs.trans hprefix, by rw [startOf_eq_of_isAbsolute_eq habs]⟩

theorem onWay_iff_of_workingDirectory_eq (h : fs'.workingDirectory = fs.workingDirectory)
    {p : Path} {l : Location} : fs'.OnWay p l ↔ fs.OnWay p l := by
  rw [OnWay, OnWay, startOf, startOf, h]

theorem AddsDirectories.refl (hfs : fs.root.WellFormed) (p : Path) : fs.AddsDirectories p fs :=
  ⟨rfl, hfs, id, fun _ => Or.inl rfl⟩

theorem AddsDirectories.trans {fs₁ fs₂ fs₃ : FileSystem} {p : Path}
    (h : fs₁.AddsDirectories p fs₂) (h' : fs₂.AddsDirectories p fs₃) :
    fs₁.AddsDirectories p fs₃ := by
  have hstart : fs₂.startOf p = fs₁.startOf p := by
    unfold startOf
    rw [h.workingDirectory]
  refine ⟨h'.workingDirectory.trans h.workingDirectory, h'.wellFormed,
    fun hdir => h.start (hstart ▸ h'.start (hstart.symm ▸ hdir)), fun l => ?_⟩
  have hway := onWay_iff_of_workingDirectory_eq h.workingDirectory (p := p) (l := l)
  rcases h'.view l with h₂ | ⟨hon, hnone, hdir⟩
  · rw [h₂]
    exact h.view l
  · rcases h.view l with h₁ | ⟨-, -, hdir₁⟩
    · exact Or.inr ⟨hway.mp hon, h₁ ▸ hnone, hdir⟩
    · exact nomatch hdir₁.symm.trans hnone

theorem AddsDirectories.of_parent {p q : Path} (h : fs.AddsDirectories q fs')
    (hq : p.parent? = some q) : fs.AddsDirectories p fs' :=
  ⟨h.workingDirectory, h.wellFormed,
    startOf_eq_of_isAbsolute_eq (Path.parent?_eq_some hq).1 ▸ h.start,
    fun l => (h.view l).imp_right fun ⟨hon, hview⟩ => ⟨hon.of_parent hq, hview⟩⟩

theorem AddsDirectories.keepsDirectories {p : Path} (h : fs.AddsDirectories p fs') :
    fs.KeepsDirectories fs' := by
  refine ⟨h.workingDirectory, fun l hl => ?_⟩
  rcases h.view l with hsame | ⟨-, -, hdir⟩
  · rw [hsame, hl]
  · exact hdir

theorem AddsDirectories.view_eq_file_iff {p : Path} (h : fs.AddsDirectories p fs')
    {l : Location} {b : ByteArray} :
    fs'.view l = some (some b) ↔ fs.view l = some (some b) := by
  rcases h.view l with hsame | ⟨-, hnone, hdir⟩
  · rw [hsame]
  · rw [hnone, hdir]
    exact ⟨nofun, nofun⟩

theorem createDirectory_adds {p : Path} (hfs : fs.root.WellFormed)
    (h : fs.createDirectory p = .ok fs') : fs.AddsDirectories p fs' := by
  obtain ⟨hstart, hnone, hsets, -⟩ := createDirectory_ok hfs h
  refine ⟨hsets.workingDirectory, hsets.wellFormed, fun _ => hstart, fun l => ?_⟩
  by_cases hl : l = fs.spot p
  · rw [hl]
    exact Or.inr ⟨fs.onWay_spot p, hnone, hsets.view_self⟩
  · exact Or.inl (hsets.view_of_ne hl)

/-! ## Directories that are there -/

/-- A path to a directory leads through directories. -/
theorem view_of_onWay {p : Path} {l : Location} (hp : fs.isDirectory p = true)
    (hl : fs.OnWay p l) : fs.view l = some none := by
  obtain ⟨-, hpasses, hview⟩ := isDirectory_iff.mp hp
  obtain ⟨cs, ⟨ds, hds⟩, rfl⟩ := hl
  rw [spot, ← hds] at hview
  rw [← hds, passes_append] at hpasses
  cases ds with
  | nil => rwa [List.append_nil] at hview
  | cons d ds => exact hpasses.2.1

/-- Where a directory is there already, no directory on its way is added. -/
theorem AddsDirectories.view_eq {p q : Path} (h : fs.AddsDirectories q fs')
    (hp : fs.isDirectory p = true) (habs : q.isAbsolute = p.isAbsolute)
    (hinner : innerOf q.text = innerOf p.text) (l : Location) : fs'.view l = fs.view l := by
  refine (h.view l).resolve_right ?_
  rintro ⟨⟨cs, hcs, hl⟩, hnone, -⟩
  rw [hinner] at hcs
  rw [startOf_eq_of_isAbsolute_eq habs] at hl
  exact nomatch (view_of_onWay hp ⟨cs, hcs, hl⟩).symm.trans hnone

end FileSystem

open FileSystem (AddsDirectories)

theorem isDirectory_of_kept {p : Path} {fs fs' : FileSystem} {c : Cause}
    (h : (if fs.isDirectory p then (.ok (), fs) else (.error c, fs) :
      Except Cause Unit × FileSystem) = (.ok (), fs')) : fs'.isDirectory p = true := by
  by_cases hdir : fs.isDirectory p = true
  · rw [if_pos hdir] at h
    rw [← (Prod.mk.inj h).2]
    exact hdir
  · rw [if_neg hdir] at h
    exact nomatch (Prod.mk.inj h).1

theorem createOrKeepDirectory_ok {p : Path} {fs fs' : FileSystem} (hfs : fs.root.WellFormed)
    (h : createOrKeepDirectory p fs = (.ok (), fs')) : fs'.isDirectory p = true := by
  rw [createOrKeepDirectory_run] at h
  cases hc : fs.createDirectory p with
  | ok fs₁ =>
    rw [hc] at h
    rw [← (Prod.mk.inj h).2]
    exact (FileSystem.createDirectory_ok hfs hc).2.2.2
  | error c =>
    rw [hc] at h
    exact isDirectory_of_kept h

/-! ## Making directories one by one -/

/-- Is the one tree the other with one directory more, that of the path or one above it? -/
def MakesDirectory (p : Path) (fs fs' : FileSystem) : Prop :=
  ∃ q, Relation.ReflTransGen (fun q r => q.parent? = some r) p q ∧ fs.createDirectory q = .ok fs'

theorem MakesDirectory.of_parent {p q : Path} {fs fs' : FileSystem} (h : MakesDirectory q fs fs')
    (hq : p.parent? = some q) : MakesDirectory p fs fs' := by
  obtain ⟨r, hr, hmake⟩ := h
  exact ⟨r, .head hq hr, hmake⟩

theorem MakesDirectory.adds {p : Path} {fs fs' : FileSystem} (h : MakesDirectory p fs fs')
    (hfs : fs.root.WellFormed) : fs.AddsDirectories p fs' := by
  obtain ⟨q, habove, hmake⟩ := h
  have hadds := FileSystem.createDirectory_adds hfs hmake
  induction habove using Relation.ReflTransGen.head_induction_on with
  | refl => exact hadds
  | head hparent _ ih => exact ih.of_parent hparent

theorem adds_of_makes {p : Path} {fs fs' : FileSystem} (hfs : fs.root.WellFormed)
    (h : Relation.ReflTransGen (MakesDirectory p) fs fs') : fs.AddsDirectories p fs' := by
  induction h with
  | refl => exact AddsDirectories.refl hfs p
  | tail _ hmake ih => exact ih.trans (hmake.adds ih.wellFormed)

theorem makes_of_createDirectory {p : Path} {fs fs' : FileSystem}
    (h : fs.createDirectory p = .ok fs') : Relation.ReflTransGen (MakesDirectory p) fs fs' :=
  .single ⟨p, .refl, h⟩

theorem makes_of_kept (p : Path) (fs : FileSystem) (c : Cause) :
    Relation.ReflTransGen (MakesDirectory p) fs
      (if fs.isDirectory p then (.ok (), fs) else (.error c, fs) :
        Except Cause Unit × FileSystem).2 := by
  split <;> exact .refl

theorem createOrKeepDirectory_makes (p : Path) (fs : FileSystem) :
    Relation.ReflTransGen (MakesDirectory p) fs (createOrKeepDirectory p fs).2 := by
  rw [createOrKeepDirectory_run]
  cases h : fs.createDirectory p with
  | ok fs' => exact makes_of_createDirectory h
  | error c => exact makes_of_kept p fs c

/-- However far making directories comes, it makes them one by one. -/
theorem createDirectoriesWithin_makes (depth : Nat) (p : Path) (fs : FileSystem) :
    Relation.ReflTransGen (MakesDirectory p) fs (createDirectoriesWithin depth p fs).2 := by
  induction depth generalizing p fs with
  | zero => exact .refl
  | succ depth ih =>
    rw [createDirectoriesWithin_run]
    have hparents : Relation.ReflTransGen (MakesDirectory p) fs (createParents depth p fs).2 := by
      rw [createParents]
      cases hq : p.parent? with
      | none => exact .refl
      | some q =>
        have habove : MakesDirectory q ≤ MakesDirectory p := fun _ _ hmake => hmake.of_parent hq
        exact Relation.ReflTransGen.mono habove _ _ (ih q fs)
    cases h : fs.createDirectory p with
    | ok fs' => exact makes_of_createDirectory h
    | error c =>
      cases c
      case notFound =>
        -- What is made for the parent stays when the rest fails.
        rcases hrun : createParents depth p fs with ⟨e | _, fs'⟩
        · rw [hrun] at hparents
          exact hparents
        · rw [hrun] at hparents
          exact hparents.trans (createOrKeepDirectory_makes p fs')
      all_goals exact makes_of_kept p fs _

theorem createDirectoriesWithin_adds (depth : Nat) (p : Path) {fs : FileSystem}
    (hfs : fs.root.WellFormed) :
    fs.AddsDirectories p (createDirectoriesWithin depth p fs).2 :=
  adds_of_makes hfs (createDirectoriesWithin_makes depth p fs)

theorem createDirectoriesWithin_ok {depth : Nat} {p : Path} {fs fs' : FileSystem}
    (hfs : fs.root.WellFormed) (h : createDirectoriesWithin (depth + 1) p fs = (.ok (), fs')) :
    fs'.isDirectory p = true := by
  rw [createDirectoriesWithin_run] at h
  cases hc : fs.createDirectory p with
  | ok fs₁ =>
    rw [hc] at h
    rw [← (Prod.mk.inj h).2]
    exact (FileSystem.createDirectory_ok hfs hc).2.2.2
  | error c =>
    rw [hc] at h
    cases c
    case notFound =>
      have hparents : (createParents depth p fs).2.root.WellFormed := by
        rw [createParents]
        cases p.parent? with
        | none => exact hfs
        | some q => exact (createDirectoriesWithin_adds depth q hfs).wellFormed
      rcases hrun : createParents depth p fs with ⟨e | _, fs₁⟩
      · rw [hrun] at h
        exact nomatch (Prod.mk.inj h).1
      · rw [hrun] at h hparents
        exact createOrKeepDirectory_ok hparents h
    all_goals exact isDirectory_of_kept h

/-! ## Making sure that there is a directory -/

theorem ensureDirectory_run (p : Path) (fs : FileSystem) :
    ensureDirectory p fs =
      if fs.isDirectory p then (.ok (), fs)
      else ((createDirectories p fs).1.mapError (Failure.unwritable p),
        (createDirectories p fs).2) := by
  rw [ensureDirectory]
  show (if fs.isDirectory p then _ else _ : Operation Failure Unit) fs = _
  split
  · rfl
  · exact run_adapt _ _ fs

theorem ensureDirectory_of_isDirectory {p : Path} {fs : FileSystem}
    (h : fs.isDirectory p = true) : ensureDirectory p fs = (.ok (), fs) := by
  rw [ensureDirectory_run, if_pos h]

theorem ensureDirectory_makes (p : Path) (fs : FileSystem) :
    Relation.ReflTransGen (MakesDirectory p) fs (ensureDirectory p fs).2 := by
  rw [ensureDirectory_run]
  split
  · exact .refl
  · exact createDirectoriesWithin_makes _ p fs

/-- Making sure of a directory adds directories on its way, and nothing else, even if it
fails. -/
theorem ensureDirectory_adds (p : Path) {fs : FileSystem} (hfs : fs.root.WellFormed) :
    fs.AddsDirectories p (ensureDirectory p fs).2 :=
  adds_of_makes hfs (ensureDirectory_makes p fs)

theorem ensureDirectory_ok {p : Path} {fs fs' : FileSystem} (hfs : fs.root.WellFormed)
    (hp : p.text ≠ []) (h : ensureDirectory p fs = (.ok (), fs')) :
    fs'.isDirectory p = true := by
  rw [ensureDirectory_run] at h
  by_cases hdir : fs.isDirectory p = true
  · rw [if_pos hdir] at h
    rw [← (Prod.mk.inj h).2]
    exact hdir
  · rw [if_neg hdir] at h
    obtain ⟨hresult, hfs'⟩ := Prod.mk.inj h
    have hok : (createDirectories p fs).1 = .ok () := by
      cases hr : (createDirectories p fs).1 with
      | ok u => rfl
      | error c =>
        rw [hr] at hresult
        exact nomatch hresult
    obtain ⟨depth, hdepth⟩ := Nat.exists_eq_succ_of_ne_zero fun hzero =>
      Path.components_ne_nil hp (List.length_eq_zero_iff.mp hzero)
    have hrun : createDirectoriesWithin (depth + 1) p fs = (.ok (), fs') := by
      rw [← hok, ← hfs', createDirectories, hdepth]
      rfl
    exact createDirectoriesWithin_ok hfs hrun

/-- The empty path stands for no directory that could be missing. -/
theorem ensureDirectory_of_text_eq_nil {p : Path} (h : p.text = []) (fs : FileSystem) :
    ensureDirectory p fs = (.ok (), fs) := by
  obtain ⟨t⟩ := p
  subst h
  rw [ensureDirectory_run]
  split <;> rfl

/-- Where making sure of a directory succeeded there is nothing left to do. -/
theorem ensureDirectory_of_ok {p : Path} {fs fs' : FileSystem} (hfs : fs.root.WellFormed)
    (h : ensureDirectory p fs = (.ok (), fs')) : ensureDirectory p fs' = (.ok (), fs') := by
  by_cases hempty : p.text = []
  · exact ensureDirectory_of_text_eq_nil hempty fs'
  · exact ensureDirectory_of_isDirectory (ensureDirectory_ok hfs hempty h)

/-- A path that leads to where a directory is needs no new directory, if it can be followed at
all. -/
theorem ensureDirectory_of_innerOf_eq {p q : Path} {fs : FileSystem} (hp : fs.isDirectory p = true)
    (habs : q.isAbsolute = p.isAbsolute) (hinner : innerOf q.text = innerOf p.text)
    (hq : q.text ≠ [] → FileSystem.checkPath q = .ok ()) :
    ensureDirectory q fs = (.ok (), fs) := by
  by_cases hempty : q.text = []
  · exact ensureDirectory_of_text_eq_nil hempty fs
  · obtain ⟨hfollow, hpasses, hview⟩ := FileSystem.isDirectory_iff.mp hp
    refine ensureDirectory_of_isDirectory (FileSystem.isDirectory_iff.mpr ⟨⟨hq hempty, ?_⟩, ?_, ?_⟩)
    · rw [hinner]
      exact hfollow.fits
    · rw [hinner, FileSystem.startOf_eq_of_isAbsolute_eq habs]
      exact hpasses
    · rw [FileSystem.spot, hinner, FileSystem.startOf_eq_of_isAbsolute_eq habs]
      exact hview

end Files
end StepStubs
