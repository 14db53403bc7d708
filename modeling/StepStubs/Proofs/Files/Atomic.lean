/-
Writing a file at once or not at all.

A write goes from stage to stage (`Stage`, `Move`).  The directories above the file are made one by
one, the temporary file is made and is filled piece by piece, and it is moved; each of these may
fail instead, whatever the reason, and then what was begun is taken back.  A write that is broken
off has made some of these moves.

What the tree holds follows from the stage alone: `Writing.Fits` says so, one move keeps it
(`Move.fits`), and so does a run of moves (`fits_of_run`).  The write as it is done is one such run
(`exists_run`), so what is known of all runs is known of it (`writes_at_once`).
-/
import StepStubs.Proofs.Files.Temporary

namespace StepStubs
namespace Files

open StepStubs.Path (Component)

/-! ## The stages of a write -/

inductive Stage where
  /-- The directories above the file are being made. -/
  | starting
  | ready
  /-- The temporary file holds the bytes `written`, and `left` are still to come. -/
  | filling (written left : ByteArray)
  | synced
  | replaced
  /-- Something failed before the temporary file was made. -/
  | refused (e : Failure)
  /-- Something failed, and the temporary file is still there. -/
  | failing (e : Failure)
  /-- Something failed, and the temporary file was taken away. -/
  | withdrawn (e : Failure)

/-- What a write gives when it ends at the stage. -/
def Stage.result? : Stage → Option (Except Failure Unit)
  | replaced => some (.ok ())
  | refused e => some (.error e)
  | withdrawn e => some (.error e)
  | _ => none

structure Writing where
  stage : Stage
  files : FileSystem

/-- One move of giving the file `p` the content `bytes`. -/
inductive Move (p : Path) (bytes : ByteArray) : Writing → Writing → Prop
  | makesDirectory {fs fs' : FileSystem} (h : MakesDirectory (directoryFor p) fs fs') :
    Move p bytes ⟨.starting, fs⟩ ⟨.starting, fs'⟩
  | hasDirectory {fs : FileSystem} (h : WriteStep.createParents.perform p bytes fs = (.ok (), fs)) :
    Move p bytes ⟨.starting, fs⟩ ⟨.ready, fs⟩
  | createsTemporary {fs fs' : FileSystem}
    (h : WriteStep.createTemporary.perform p bytes fs = (.ok (), fs')) :
    Move p bytes ⟨.ready, fs⟩ ⟨.filling .empty bytes, fs'⟩
  | fills {fs fs' : FileSystem} {written piece left : ByteArray}
    (h : WriteStep.fillTemporary.perform p piece fs = (.ok (), fs')) :
    Move p bytes ⟨.filling written (piece ++ left), fs⟩ ⟨.filling (written ++ piece) left, fs'⟩
  | syncs {fs : FileSystem} {written : ByteArray} :
    Move p bytes ⟨.filling written .empty, fs⟩ ⟨.synced, fs⟩
  | replaces {fs fs' : FileSystem}
    (h : WriteStep.replaceTarget.perform p bytes fs = (.ok (), fs')) :
    Move p bytes ⟨.synced, fs⟩ ⟨.replaced, fs'⟩
  | failsDirectory {fs : FileSystem} (e : Failure) :
    Move p bytes ⟨.starting, fs⟩ ⟨.refused e, fs⟩
  | failsTemporary {fs : FileSystem} (e : Failure) :
    Move p bytes ⟨.ready, fs⟩ ⟨.refused e, fs⟩
  -- Also when all is written and cannot be synced.
  | failsFilling {fs : FileSystem} {written left : ByteArray} (e : Failure) :
    Move p bytes ⟨.filling written left, fs⟩ ⟨.failing e, fs⟩
  | failsReplacing {fs : FileSystem} (e : Failure) :
    Move p bytes ⟨.synced, fs⟩ ⟨.failing e, fs⟩
  | cleansUp {fs fs' : FileSystem} {e : Failure} (h : removeTemporary p fs = (.ok (), fs')) :
    Move p bytes ⟨.failing e, fs⟩ ⟨.withdrawn e, fs'⟩

namespace FileSystem

variable {fs fs₁ fs₂ : FileSystem} {p : Path} {bytes written piece : ByteArray}
  {target temporary v : Option (Option ByteArray)}

/-! ## What stands in the tree -/

/-- Does the tree have `target` at the path, `temporary` at its temporary path, and else what there
was before, with new directories above the path at most? -/
structure Stands (fs : FileSystem) (p : Path) (target temporary : Option (Option ByteArray))
    (fs' : FileSystem) : Prop where
  workingDirectory : fs'.workingDirectory = fs.workingDirectory
  wellFormed : fs'.root.WellFormed
  target : fs'.view (fs.spot p) = target
  temporary : fs'.view (fs.temporarySpot p) = temporary
  others : ∀ l, l ≠ fs.spot p → l ≠ fs.temporarySpot p → fs'.view l = fs.view l ∨
    fs.OnWay (directoryFor p) l ∧ fs.view l = none ∧ fs'.view l = some none

theorem stands_self (hfs : fs.root.WellFormed) (p : Path) :
    fs.Stands p (fs.view (fs.spot p)) (fs.view (fs.temporarySpot p)) fs :=
  ⟨rfl, hfs, rfl, rfl, fun _ _ _ => Or.inl rfl⟩

theorem Stands.spot (h : fs.Stands p target temporary fs₁) (q : Path) :
    fs₁.spot q = fs.spot q :=
  spot_eq_of_workingDirectory_eq h.workingDirectory q

theorem Stands.temporarySpot (h : fs.Stands p target temporary fs₁) :
    fs₁.temporarySpot p = fs.temporarySpot p := h.spot _

theorem Stands.adds (h : fs.Stands p target temporary fs₁) (hapart : fs.KeepsApart p)
    (hadds : fs₁.AddsDirectories (directoryFor p) fs₂) : fs.Stands p target temporary fs₂ := by
  have hway : ∀ l, fs₁.OnWay (directoryFor p) l ↔ fs.OnWay (directoryFor p) l := fun l =>
    onWay_iff_of_workingDirectory_eq h.workingDirectory
  have hsame : ∀ l, ¬ fs.OnWay (directoryFor p) l → fs₂.view l = fs₁.view l := fun l hl =>
    (hadds.view l).resolve_right fun hnew => hl ((hway l).mp hnew.1)
  refine ⟨hadds.workingDirectory.trans h.workingDirectory, hadds.wellFormed, ?_, ?_,
    fun l hl hl' => ?_⟩
  · rw [hsame _ hapart.not_onWay, h.target]
  · rw [hsame _ hapart.temporary_not_onWay, h.temporary]
  · rcases hadds.view l with h₂ | ⟨hon, hnone, hdir⟩
    · rw [h₂]
      exact h.others l hl hl'
    · rcases h.others l hl hl' with h₁ | ⟨-, -, hdir₁⟩
      · exact Or.inr ⟨(hway l).mp hon, h₁ ▸ hnone, hdir⟩
      · exact nomatch hdir₁.symm.trans hnone

theorem Stands.setTemporary (h : fs.Stands p target temporary fs₁) (hapart : fs.KeepsApart p)
    (hset : fs₁.Sets (fs₁.temporarySpot p) v fs₂) : fs.Stands p target v fs₂ := by
  rw [h.temporarySpot] at hset
  refine ⟨hset.workingDirectory.trans h.workingDirectory, hset.wellFormed, ?_, hset.view_self,
    fun l hl hl' => ?_⟩
  · rw [hset.view_of_ne hapart.temporary_ne.symm, h.target]
  · rw [hset.view_of_ne hl']
    exact h.others l hl hl'

theorem Stands.replace (h : fs.Stands p target temporary fs₁) (hapart : fs.KeepsApart p)
    (hreplaces : fs₁.Replaces p bytes fs₂) : fs.Stands p (some (some bytes)) none fs₂ := by
  have hview := hreplaces.view
  rw [h.spot, h.temporarySpot] at hview
  refine ⟨hreplaces.workingDirectory.trans h.workingDirectory, hreplaces.wellFormed, ?_, ?_,
    fun l hl hl' => ?_⟩
  · rw [hview, if_pos rfl]
  · rw [hview, if_neg hapart.temporary_ne, if_pos rfl]
  · rw [hview, if_neg hl, if_neg hl']
    exact h.others l hl hl'

/-! ## The temporary file -/

/-- Is the file as it was, beside a temporary file that holds the bytes? -/
structure HasTemporary (fs : FileSystem) (p : Path) (written : ByteArray) (fs' : FileSystem) :
    Prop where
  offers : fs'.Offers (temporaryPath p)
  stands : fs.Stands p (fs.view (fs.spot p)) (some (some written)) fs'

theorem HasTemporary.view (h : fs.HasTemporary p written fs₁) :
    fs₁.view (fs₁.temporarySpot p) = some (some written) := by
  rw [h.stands.temporarySpot, h.stands.temporary]

theorem HasTemporary.set (h : fs.HasTemporary p written fs₁) (hapart : fs.KeepsApart p)
    (hset : fs₁.Sets (fs₁.temporarySpot p) (some (some piece)) fs₂) :
    fs.HasTemporary p piece fs₂ :=
  ⟨h.offers.of_sets hset nofun, h.stands.setTemporary hapart hset⟩

theorem HasTemporary.create (h : fs.Stands p (fs.view (fs.spot p)) temporary fs₁)
    (hapart : fs.KeepsApart p) (hcreate : fs₁.createFile (temporaryPath p) = .ok fs₂) :
    fs.HasTemporary p .empty fs₂ := by
  obtain ⟨hoffers, hset⟩ := createFile_ok h.wellFormed hcreate
  exact ⟨hoffers.of_sets hset nofun, h.setTemporary hapart hset⟩

theorem HasTemporary.append (h : fs.HasTemporary p written fs₁) (hapart : fs.KeepsApart p)
    (happend : fs₁.appendFile (temporaryPath p) piece = .ok fs₂) :
    fs.HasTemporary p (written ++ piece) fs₂ := by
  have hset := appendFile_ok h.stands.wellFormed happend
  have hbytes : fs₁.bytesAt (fs₁.spot (temporaryPath p)) = written := by
    rw [bytesAt, ← FileSystem.temporarySpot, h.view]
    rfl
  rw [hbytes] at hset
  exact h.set hapart hset

/-- The temporary file is moved once it is full, and then the file can be read. -/
theorem HasTemporary.move (h : fs.HasTemporary p bytes fs₁) (hapart : fs.KeepsApart p)
    (hmove : fs₁.moveFile (temporaryPath p) p = .ok fs₂) :
    fs₂.contentOf p = .ok bytes ∧ fs.Stands p (some (some bytes)) none fs₂ := by
  obtain ⟨hoffers, hreplaces⟩ := moveTemporary_ok h.stands.wellFormed h.view hmove
  have hstands := h.stands.replace hapart hreplaces
  have hview : fs₂.view (fs₂.spot p) = some (some bytes) := by rw [hstands.spot, hstands.target]
  have hkeeps := hreplaces.keepsBut hoffers.not_directory (by rw [h.view]; exact nofun)
  have hoffers' : fs₂.Offers p := hoffers.of_keepsDirectories hkeeps.keepsDirectories (by
    rw [← spot_eq_of_workingDirectory_eq hreplaces.workingDirectory, hview]
    exact nofun)
  exact ⟨hoffers'.contentOf_eq hview, hstands⟩

theorem HasTemporary.remove (h : fs.HasTemporary p written fs₁) (hapart : fs.KeepsApart p) :
    fs.Stands p (fs.view (fs.spot p)) none (cleanUp p fs₁) :=
  h.stands.setTemporary hapart (cleanUp_sets h.stands.wellFormed h.offers h.view)

end FileSystem

/-! ## What a move keeps -/

variable {fs fs' : FileSystem} {p : Path} {bytes : ByteArray} {s s' : Writing}

/-- Does the tree have what the stage says? -/
def Writing.Fits (fs : FileSystem) (p : Path) (bytes : ByteArray) (s : Writing) : Prop :=
  match s.stage with
  | .starting | .ready | .refused _ =>
    fs.Stands p (fs.view (fs.spot p)) (fs.view (fs.temporarySpot p)) s.files
  | .filling written left => written ++ left = bytes ∧ fs.HasTemporary p written s.files
  | .synced => fs.HasTemporary p bytes s.files
  | .replaced => s.files.contentOf p = .ok bytes ∧ fs.Stands p (some (some bytes)) none s.files
  | .failing _ => ∃ written, fs.HasTemporary p written s.files
  | .withdrawn _ => fs.Stands p (fs.view (fs.spot p)) none s.files

/-- A tree that fits the stage still does after one move. -/
theorem Move.fits (hapart : fs.KeepsApart p) (hmove : Move p bytes s s')
    (h : s.Fits fs p bytes) : s'.Fits fs p bytes := by
  cases hmove with
  | makesDirectory hmakes => exact FileSystem.Stands.adds h hapart (hmakes.adds h.wellFormed)
  | hasDirectory _ => exact h
  | createsTemporary hcreate =>
    exact ⟨ByteArray.empty_append, .create h hapart (writing_change_eq_ok_iff.mp hcreate)⟩
  | fills hfill =>
    obtain ⟨hbytes, htemporary⟩ := h
    exact ⟨by rw [ByteArray.append_assoc, hbytes],
      htemporary.append hapart (writing_change_eq_ok_iff.mp hfill)⟩
  | syncs =>
    obtain ⟨hbytes, htemporary⟩ := h
    rw [ByteArray.append_empty] at hbytes
    exact hbytes ▸ htemporary
  | replaces hreplace =>
    exact FileSystem.HasTemporary.move h hapart (writing_change_eq_ok_iff.mp hreplace)
  | failsDirectory e => exact h
  | failsTemporary e => exact h
  | failsFilling e => exact ⟨_, h.2⟩
  | failsReplacing e => exact ⟨_, h⟩
  | cleansUp hremove =>
    obtain ⟨written, htemporary⟩ := h
    rw [removeTemporary_run] at hremove
    rw [← (Prod.mk.inj hremove).2]
    exact htemporary.remove hapart

theorem fits_of_run (hfs : fs.root.WellFormed) (hapart : fs.KeepsApart p)
    (h : Relation.ReflTransGen (Move p bytes) ⟨.starting, fs⟩ s) : s.Fits fs p bytes := by
  induction h with
  | refl => exact FileSystem.stands_self hfs p
  | tail _ hmove ih => exact hmove.fits hapart ih

/-! ## The write as a run -/

theorem move_cleanUp (p : Path) (bytes : ByteArray) (fs : FileSystem) (e : Failure) :
    Move p bytes ⟨.failing e, fs⟩ ⟨.withdrawn e, cleanUp p fs⟩ :=
  .cleansUp (removeTemporary_run p fs)

theorem exists_run_replaceIn (p : Path) (bytes : ByteArray) (fs : FileSystem) :
    ∃ stage, Relation.ReflTransGen (Move p bytes) ⟨.ready, fs⟩
        ⟨stage, (replaceIn p bytes fs).2⟩ ∧
      stage.result? = some (replaceIn p bytes fs).1 := by
  rw [replaceIn]
  cases h₁ : fs.createFile (temporaryPath p) with
  | error c => exact ⟨_, .single (.failsTemporary _), rfl⟩
  | ok fs₁ =>
    have hcreated : Relation.ReflTransGen (Move p bytes) ⟨.ready, fs⟩
        ⟨.filling .empty bytes, fs₁⟩ :=
      .single (.createsTemporary (writing_change_eq_ok_iff.mpr h₁))
    simp only
    cases h₂ : fs₁.appendFile (temporaryPath p) bytes with
    | error c =>
      exact ⟨_, (hcreated.tail (.failsFilling _)).tail (move_cleanUp p bytes fs₁ _), rfl⟩
    | ok fs₂ =>
      -- All bytes go into the temporary file in one piece.
      have hfills : Move p bytes ⟨.filling .empty (bytes ++ .empty), fs₁⟩
          ⟨.filling (.empty ++ bytes) .empty, fs₂⟩ :=
        .fills (writing_change_eq_ok_iff.mpr h₂)
      rw [ByteArray.append_empty] at hfills
      have hsynced := (hcreated.tail hfills).tail .syncs
      simp only
      cases h₃ : fs₂.moveFile (temporaryPath p) p with
      | error c =>
        exact ⟨_, (hsynced.tail (.failsReplacing _)).tail (move_cleanUp p bytes fs₂ _), rfl⟩
      | ok fs₃ => exact ⟨_, hsynced.tail (.replaces (writing_change_eq_ok_iff.mpr h₃)), rfl⟩

/-- A write makes moves from the start to an end, and gives what the end says. -/
theorem exists_run (hfs : fs.root.WellFormed) (p : Path) (bytes : ByteArray) :
    ∃ stage, Relation.ReflTransGen (Move p bytes) ⟨.starting, fs⟩
        ⟨stage, (writeAtomically p bytes fs).2⟩ ∧
      stage.result? = some (writeAtomically p bytes fs).1 := by
  have hmakes : Relation.ReflTransGen (Move p bytes) ⟨.starting, fs⟩
      ⟨.starting, (ensureDirectory (directoryFor p) fs).2⟩ :=
    Relation.ReflTransGen.lift (Writing.mk .starting) (fun _ _ => Move.makesDirectory) _ _
      (ensureDirectory_makes (directoryFor p) fs)
  rw [writeAtomically_run]
  rcases hrun : ensureDirectory (directoryFor p) fs with ⟨e | _, fs₁⟩
  · rw [hrun] at hmakes
    exact ⟨_, hmakes.tail (.failsDirectory e), rfl⟩
  · rw [hrun] at hmakes
    obtain ⟨stage, hreplace, hresult⟩ := exists_run_replaceIn p bytes fs₁
    have hready := hmakes.tail (.hasDirectory (ensureDirectory_of_ok hfs hrun))
    exact ⟨stage, hready.trans hreplace, hresult⟩

/-! ## At once or not at all -/

/-- What is found in the tree at a stage of a write, however the write came there. -/
structure IsWhole (fs : FileSystem) (p : Path) (bytes : ByteArray) (s : Writing) : Prop where
  /-- The file is as it was, or it is complete. -/
  target : s.files.view (fs.spot p) = fs.view (fs.spot p) ∨
    s.files.view (fs.spot p) = some (some bytes)
  /-- Nothing else is touched but the temporary file, and directories that were missing. -/
  others : ∀ l, l ≠ fs.spot p → l ≠ fs.temporarySpot p → s.files.view l = fs.view l ∨
    fs.OnWay (directoryFor p) l ∧ fs.view l = none ∧ s.files.view l = some none
  succeeded : s.stage.result? = some (.ok ()) →
    s.files.contentOf p = .ok bytes ∧ s.files.view (fs.temporarySpot p) = none
  failed : ∀ e, s.stage.result? = some (.error e) →
    s.files.view (fs.spot p) = fs.view (fs.spot p)
  refused : ∀ e, s.stage = .refused e →
    s.files.view (fs.temporarySpot p) = fs.view (fs.temporarySpot p)
  withdrawn : ∀ e, s.stage = .withdrawn e → s.files.view (fs.temporarySpot p) = none

theorem IsWhole.of_unended {v : Option (Option ByteArray)}
    (h : fs.Stands p (fs.view (fs.spot p)) v s.files) (hended : s.stage.result? = none) :
    IsWhole fs p bytes s := by
  refine ⟨Or.inl h.target, h.others, ?_, fun e => ?_, fun e hs => ?_, fun e hs => ?_⟩
  · rw [hended]
    exact nofun
  · rw [hended]
    exact nofun
  · rw [hs] at hended
    exact nomatch hended
  · rw [hs] at hended
    exact nomatch hended

theorem Writing.Fits.isWhole (h : s.Fits fs p bytes) : IsWhole fs p bytes s := by
  obtain ⟨stage, files⟩ := s
  cases stage with
  | starting => exact .of_unended h rfl
  | ready => exact .of_unended h rfl
  | filling written left => exact .of_unended h.2.stands rfl
  | synced => exact .of_unended h.stands rfl
  | failing e =>
    obtain ⟨written, htemporary⟩ := h
    exact .of_unended htemporary.stands rfl
  | replaced =>
    obtain ⟨hcontent, hstands⟩ := h
    exact ⟨Or.inr hstands.target, hstands.others, fun _ => ⟨hcontent, hstands.temporary⟩, nofun,
      nofun, nofun⟩
  | refused e =>
    have hstands : fs.Stands p _ _ files := h
    exact ⟨Or.inl hstands.target, hstands.others, nofun, fun _ _ => hstands.target,
      fun _ _ => hstands.temporary, nofun⟩
  | withdrawn e =>
    have hstands : fs.Stands p _ _ files := h
    exact ⟨Or.inl hstands.target, hstands.others, nofun, fun _ _ => hstands.target, nofun,
      fun _ _ => hstands.temporary⟩

/-- The content of a file that a write gave it. -/
theorem contentOf_of_writeAtomically (hfs : fs.root.WellFormed) (hapart : fs.KeepsApart p)
    (h : writeAtomically p bytes fs = (.ok (), fs')) : fs'.contentOf p = .ok bytes := by
  obtain ⟨stage, hrun, hresult⟩ := exists_run hfs p bytes
  rw [h] at hrun hresult
  exact ((fits_of_run hfs hapart hrun).isWhole.succeeded hresult).1

/-- Is the text that was written to the file read back?  A file of more than `limit` bytes is not
read, and of the marks U+FEFF at the front of a text the first is no part of it. -/
structure FileSystem.ReadsBack (fs : FileSystem) (p : Path) (t : Text) (limit : Nat) : Prop where
  tooLarge : limit < (Text.utf8 t).size →
    fs.readText p limit = .error (.tooLarge p (Text.utf8 t).size limit)
  marked : ∀ rest, t = '\ufeff' :: rest → (Text.utf8 t).size ≤ limit →
    fs.readText p limit = .ok rest
  unmarked : t.head? ≠ some '\ufeff' → (Text.utf8 t).size ≤ limit → fs.readText p limit = .ok t

theorem FileSystem.readsBack_of_contentOf {t : Text} (h : fs.contentOf p = .ok (Text.utf8 t))
    (limit : Nat) : fs.ReadsBack p t limit := by
  have hread := FileSystem.readText_of_contentOf h limit
  rw [Text.byteLength] at hread
  refine ⟨fun hlarge => ?_, fun rest ht hsmall => ?_, fun ht hsmall => ?_⟩
  · rw [hread, if_neg (Nat.not_le.mpr hlarge)]
  · rw [hread, if_pos hsmall, ht]
    rfl
  · rw [hread, if_pos hsmall, FileSystem.dropMark_of_head? ht]

/-- Whatever moves a write makes, and wherever it is broken off, the file is as it was or complete,
and nothing but the file, its temporary file and missing directories above it is touched.  When the
write succeeded the file is complete and the temporary file is gone; when it failed the file is as
it was, and a temporary file that was made is gone.  A text that was written is read back, without
a byte order mark at its front, if it is not too large. -/
theorem writes_at_once {name : Name} (hfs : fs.root.WellFormed) (hname : p.fileName? = some name)
    (hdots : Component.parent ∉ p.components) :
    (fs.spot p = fs.spot (directoryFor p) ++ [name] ∧
      fs.temporarySpot p = fs.spot (directoryFor p) ++ ['.' :: name ++ ".tmp".toList]) ∧
    (∀ bytes s, Relation.ReflTransGen (Move p bytes) ⟨.starting, fs⟩ s → IsWhole fs p bytes s) ∧
    (∀ bytes, ∃ stage, Relation.ReflTransGen (Move p bytes) ⟨.starting, fs⟩
        ⟨stage, (writeAtomically p bytes fs).2⟩ ∧
      stage.result? = some (writeAtomically p bytes fs).1) ∧
    ∀ (t : Text) (limit : Nat) (fs' : FileSystem),
      writeAtomically p (Text.utf8 t) fs = (.ok (), fs') → fs'.ReadsBack p t limit := by
  have hapart := FileSystem.keepsApart hname hdots fs
  refine ⟨⟨FileSystem.spot_eq hname, FileSystem.temporarySpot_eq hname⟩,
    fun bytes s hrun => (fits_of_run hfs hapart hrun).isWhole, exists_run hfs p,
    fun t limit fs' h => ?_⟩
  exact FileSystem.readsBack_of_contentOf (contentOf_of_writeAtomically hfs hapart h) limit

/-- A first file in an empty tree: its directories are made, and its text is read back, of two marks
at the front without the first. -/
theorem writes_at_once_nested :
    let fs : FileSystem := ⟨.emptyDirectory, []⟩
    let p : Path := .ofString "tests/steps/login.steps.ts"
    let t : Text := '\ufeff' :: '\ufeff' :: "import x;\n".toList
    fs.root.WellFormed ∧ p.fileName? = some "login.steps.ts".toList ∧
      Component.parent ∉ p.components ∧
      ∃ fs', writeAtomically p (Text.utf8 t) fs = (.ok (), fs') ∧
        fs'.readText p 16 = .ok ('\ufeff' :: "import x;\n".toList) ∧
        fs'.readText p 15 = .error (.tooLarge p 16 15) ∧
        fs'.view ["tests".toList, "steps".toList, ".login.steps.ts.tmp".toList] = none := by
  intro fs p t
  have hfs : fs.root.WellFormed := Node.wellFormed_directory_iff.mpr ⟨List.nodup_nil, nofun⟩
  have hname : p.fileName? = some "login.steps.ts".toList := by decide
  have hdots : Component.parent ∉ p.components := by decide
  obtain ⟨-, hwhole, hruns, hread⟩ := writes_at_once hfs hname hdots
  have hok : (writeAtomically p (Text.utf8 t) fs).1.isOk = true := by decide +kernel
  have hsize : (Text.utf8 t).size = 16 := by decide
  rcases hrun : writeAtomically p (Text.utf8 t) fs with ⟨e | _, fs'⟩
  · rw [hrun] at hok
    exact nomatch hok
  · obtain ⟨stage, hmoves, hresult⟩ := hruns (Text.utf8 t)
    rw [hrun] at hmoves hresult
    refine ⟨hfs, hname, hdots, fs', rfl, ?_, ?_, ?_⟩
    · exact (hread t 16 fs' hrun).marked _ rfl (Nat.le_of_eq hsize)
    · rw [(hread t 15 fs' hrun).tooLarge (by omega), hsize]
    · have htemporary := ((hwhole _ _ hmoves).succeeded hresult).2
      have hspot : fs.temporarySpot p =
          ["tests".toList, "steps".toList, ".login.steps.ts.tmp".toList] := by decide
      exact (congrArg fs'.view hspot.symm).trans htemporary

end Files
end StepStubs
