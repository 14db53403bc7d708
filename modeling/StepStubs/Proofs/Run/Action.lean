/-
What a run does to the files.

A run also logs what it does, and nothing it does to the files depends on that.  So each
action acts as an operation on the files alone, and what is proved about files is proved
about these operations.
-/
import StepStubs.Proofs.Files.Directories
import StepStubs.Run.Project

namespace StepStubs
namespace Run

open Files (FileSystem Operation run_bind)

variable {ε α β : Type}

/-! ## Actions and operations -/

/-- Does the action have the result of the operation, and leave the files that it leaves? -/
def ActsAs (x : Action ε α) (op : Operation ε α) : Prop :=
  ∀ w, ((x w).1, (x w).2.files) = op w.files

namespace ActsAs

theorem exists_run {x : Action ε α} {op : Operation ε α} (h : ActsAs x op) (w : World) :
    ∃ w', x w = ((op w.files).1, w') ∧ w'.files = (op w.files).2 := by
  rw [← h w]
  exact ⟨(x w).2, rfl, rfl⟩

theorem pure (a : α) : ActsAs (Pure.pure a : Action ε α) (Pure.pure a) := fun _ => rfl

theorem throw (e : ε) : ActsAs (MonadExcept.throw e : Action ε α) (MonadExcept.throw e) :=
  fun _ => rfl

theorem onFiles (op : Operation ε α) : ActsAs (onFiles op) op := fun _ => rfl

theorem log (e : Log.Event) : ActsAs (log e : Action ε Unit) (Pure.pure ()) := fun _ => rfl

theorem bind {x : Action ε α} {op : Operation ε α} {f : α → Action ε β} {g : α → Operation ε β}
    (hx : ActsAs x op) (hf : ∀ a, ActsAs (f a) (g a)) : ActsAs (x >>= f) (op >>= g) := by
  intro w
  have h := hx w
  rw [run_bind, run_bind, ← h]
  rcases x w with ⟨e | a, w'⟩
  · rfl
  · exact hf a w'

/-- What is only logged can be left out. -/
theorem seq {x : Action ε Unit} {y : Action ε α} {op : Operation ε α}
    (hx : ActsAs x (Pure.pure ())) (hy : ActsAs y op) : ActsAs (x >>= fun _ => y) op := by
  intro w
  have h := hx w
  rw [run_bind]
  rcases hrun : x w with ⟨e | _, w'⟩
  · rw [hrun] at h
    exact nomatch (Prod.mk.inj h).1
  · rw [hrun] at h
    have hfiles : w'.files = w.files := (Prod.mk.inj h).2
    rw [← hfiles]
    exact hy w'

theorem ofExcept (r : Except ε α) :
    ActsAs (MonadExcept.ofExcept r : Action ε α) (MonadExcept.ofExcept r) := by
  cases r with
  | error e => exact ActsAs.throw e
  | ok a => exact ActsAs.pure a

theorem foldlM {f : β → α → Action ε β} {g : β → α → Operation ε β}
    (h : ∀ b a, ActsAs (f b a) (g b a)) (b : β) (as : List α) :
    ActsAs (as.foldlM f b) (as.foldlM g b) := by
  induction as generalizing b with
  | nil => exact ActsAs.pure b
  | cons a as ih =>
    rw [List.foldlM_cons, List.foldlM_cons]
    exact (h b a).bind ih

theorem forM {f : α → Action ε Unit} (h : ∀ a, ActsAs (f a) (Pure.pure ())) (as : List α) :
    ActsAs (as.forM f) (Pure.pure ()) := by
  induction as with
  | nil => exact ActsAs.pure ()
  | cons a as ih => exact (h a).seq ih

end ActsAs

/-- A loop that fails, fails at one of its elements, after those before it. -/
theorem foldlM_error {σ : Type} {f : β → α → ExceptT ε (StateM σ) β} {as : List α} {b : β}
    {s s' : σ} {e : ε} (h : as.foldlM f b s = (.error e, s')) :
    ∃ before a after b₁ s₁, as = before ++ a :: after ∧
      before.foldlM f b s = (.ok b₁, s₁) ∧ f b₁ a s₁ = (.error e, s') := by
  induction as generalizing b s with
  | nil => exact nomatch (Prod.mk.inj h).1
  | cons a as ih =>
    rw [List.foldlM_cons, run_bind] at h
    rcases hstep : f b a s with ⟨e' | b₁, s₁⟩
    · rw [hstep] at h
      exact ⟨[], a, as, b, s, rfl, rfl, hstep.trans h⟩
    · rw [hstep] at h
      obtain ⟨before, a', after, b₂, s₂, has, hbefore, hfails⟩ := ih h
      refine ⟨a :: before, a', after, b₂, s₂, congrArg (a :: ·) has, ?_, hfails⟩
      rw [List.foldlM_cons, run_bind, hstep]
      exact hbefore

/-! ## Processing a feature file -/

namespace Project

/-- The report about a feature file with the content, whose stub file is `output`. -/
def reportOf (p : Project) (path : Path) (content : Text) (output : Path) : Report :=
  .ofSteps (p.relative path) (p.relative output) (Feature.compiledSteps content).length
    (Feature.extract content).skipped.length (StepSet.ofList (Feature.compiledSteps content))

/-- The stub file of a feature file with the content. -/
def stubsOf (p : Project) (path : Path) (content : Text) : Text :=
  Stub.ofFeature content (p.relative path) p.config.cucumberModule

def writeStubs (p : Project) (path : Path) (content : Text) : Operation Failure Report := do
  let output ← MonadExcept.ofExcept (p.outputPath path)
  (Files.writeAtomically output (Text.utf8 (p.stubsOf path content))).adapt .files
  return p.reportOf path content output

theorem writeStubs_run (p : Project) (path : Path) (content : Text) (fs : FileSystem) :
    p.writeStubs path content fs =
      match p.outputPath path with
      | .error e => (.error e, fs)
      | .ok output =>
        match Files.writeAtomically output (Text.utf8 (p.stubsOf path content)) fs with
        | (.ok (), fs') => (.ok (p.reportOf path content output), fs')
        | (.error e, fs') => (.error (.files e), fs') := by
  rw [writeStubs, run_bind]
  cases p.outputPath path with
  | error e => rfl
  | ok output =>
    show ((Files.writeAtomically output (Text.utf8 (p.stubsOf path content))).adapt .files >>=
      fun _ => pure (p.reportOf path content output) : Operation Failure Report) fs = _
    rw [run_bind, Files.run_adapt]
    simp only
    rcases Files.writeAtomically output (Text.utf8 (p.stubsOf path content)) fs with ⟨_ | _, _⟩ <;>
      rfl

/-- What processing a feature file does to the files. -/
def processFiles (p : Project) (path : Path) : Operation Failure Report := fun fs =>
  match fs.readText path maxFeatureSize with
  | .error e => (.error (.files e), fs)
  | .ok content => p.writeStubs path content fs

/-- A feature file that is read and has a stub file is as good as written; any other changes
nothing. -/
theorem processFiles_cases (p : Project) (path : Path) (fs : FileSystem) :
    (∃ e, p.processFiles path fs = (.error e, fs)) ∨
      ∃ content output, p.outputPath path = .ok output ∧
        p.processFiles path fs =
          match Files.writeAtomically output (Text.utf8 (p.stubsOf path content)) fs with
          | (.ok (), fs') => (.ok (p.reportOf path content output), fs')
          | (.error e, fs') => (.error (.files e), fs') := by
  unfold processFiles
  cases fs.readText path maxFeatureSize with
  | error e => exact Or.inl ⟨.files e, rfl⟩
  | ok content =>
    simp only [writeStubs_run]
    cases p.outputPath path with
    | error e => exact Or.inl ⟨e, rfl⟩
    | ok output => exact Or.inr ⟨content, output, rfl, rfl⟩

theorem logExtraction_actsAs (e : Feature.Extraction) :
    ActsAs (logExtraction e) (Pure.pure ()) := by
  refine (ActsAs.forM (fun _ => ActsAs.log _) _).seq ?_
  split
  · exact ActsAs.log _
  · exact ActsAs.pure ()

theorem process_actsAs (p : Project) (path : Path) :
    ActsAs (p.process path) (p.processFiles path) := by
  intro w
  have hload : FeatureFile.load path w =
      (((w.files.readText path maxFeatureSize).mapError Failure.files).map (FeatureFile.mk path),
        w) := by
    show ((w.files.readText path maxFeatureSize).mapError Failure.files >>= _, w) = _
    cases w.files.readText path maxFeatureSize <;> rfl
  rw [process, run_bind, hload, processFiles]
  cases w.files.readText path maxFeatureSize with
  | error e => rfl
  | ok content =>
    refine ActsAs.seq (logExtraction_actsAs _) (ActsAs.seq (ActsAs.log _)
      ((ActsAs.ofExcept _).bind fun output => ?_)) w
    exact (ActsAs.onFiles _).bind fun _ => ActsAs.seq (ActsAs.log _) (ActsAs.pure _)

/-- A feature file that is processed is reported on with its content and its output. -/
theorem exists_reportOf_of_process_ok {p : Project} {f : Path} {w w' : World} {r : Report}
    (h : p.process f w = (.ok r, w')) :
    ∃ content output, p.outputPath f = .ok output ∧ r = p.reportOf f content output := by
  have hfiles := p.process_actsAs f w
  rw [h] at hfiles
  rcases p.processFiles_cases f w.files with ⟨e, hfails⟩ | ⟨content, output, houtput, hruns⟩
  · exact nomatch (Prod.mk.inj (hfiles.trans hfails)).1
  · rw [hruns] at hfiles
    rcases hwrite : Files.writeAtomically output (Text.utf8 (p.stubsOf f content)) w.files with
      ⟨e | _, fs'⟩
    · rw [hwrite] at hfiles
      exact nomatch (Prod.mk.inj hfiles).1
    · rw [hwrite] at hfiles
      exact ⟨content, output, houtput, Except.ok.inj (Prod.mk.inj hfiles).1⟩

/-! ## A whole run -/

def features (p : Project) (fs : FileSystem) : List Path :=
  if fs.isDirectory p.featuresDir then
    fs.filesWithExtension p.featuresDir p.config.featureExtension
  else []

def processAll (p : Project) (features : List Path) (s : Summary) : Operation Failure Summary :=
  features.foldlM (fun s path => do return s.record (← p.processFiles path)) s

/-- What a run does to the files. -/
def runFiles (p : Project) : Operation Failure Summary := fun fs =>
  if (p.features fs).isEmpty then
    (.error (.noFeatureFiles p.featuresDir p.config.featureExtension), fs)
  else
    match Files.ensureDirectory p.stepsDir fs with
    | (.error e, fs') => (.error (.files e), fs')
    | (.ok (), fs') => p.processAll (p.features fs) .empty fs'

theorem record_actsAs (s : Summary) (r : Report) : ActsAs (record s r) (pure (s.record r)) := by
  rw [record]
  split
  · exact ActsAs.seq (ActsAs.log _) (ActsAs.pure _)
  · exact ActsAs.pure _

theorem featuresBelow_actsAs (p : Project) :
    ActsAs (featuresBelow p.featuresDir p.config.featureExtension)
      (fun fs => (.ok (p.features fs), fs)) := by
  intro w
  rw [featuresBelow, run_bind]
  show (((if w.files.isDirectory p.featuresDir then _ else _ : Action Failure (List Path)) w).1,
    ((if w.files.isDirectory p.featuresDir then _ else _ : Action Failure (List Path)) w).2.files) =
      (.ok (if w.files.isDirectory p.featuresDir then _ else _), w.files)
  split <;> rfl

theorem discover_actsAs (p : Project) :
    ActsAs p.discover fun fs =>
      if (p.features fs).isEmpty then
        (.error (.noFeatureFiles p.featuresDir p.config.featureExtension), fs)
      else (.ok (p.features fs), fs) := by
  intro w
  have hfeatures := p.featuresBelow_actsAs w
  rw [discover, run_bind]
  rcases hrun : featuresBelow p.featuresDir p.config.featureExtension w with ⟨e | found, w'⟩
  · rw [hrun] at hfeatures
    exact nomatch (Prod.mk.inj hfeatures).1
  · rw [hrun] at hfeatures
    have hfound : p.features w.files = found := (Except.ok.inj (Prod.mk.inj hfeatures).1).symm
    have hfiles : w.files = w'.files := (Prod.mk.inj hfeatures).2.symm
    simp only [hfound]
    rw [hfiles]
    by_cases hempty : found.isEmpty = true
    · simp only [if_pos hempty]
      rfl
    · simp only [if_neg hempty]
      exact ActsAs.seq (ActsAs.log _) (ActsAs.pure found) w'

theorem prepare_actsAs (p : Project) :
    ActsAs p.prepare ((Files.ensureDirectory p.stepsDir).adapt .files) :=
  ActsAs.onFiles _

/-- What a run does with each feature file. -/
def step (p : Project) (s : Summary) (path : Path) : Action Failure Summary := do
  record s (← p.process path)

/-- The part of a run that comes after the feature files were found. -/
def runOver (p : Project) (features : List Path) : Action Failure Summary := do
  p.prepare
  features.foldlM p.step .empty

theorem run_eq (p : Project) : p.run = p.discover >>= p.runOver := rfl

theorem foldlM_step_actsAs (p : Project) (features : List Path) (s : Summary) :
    ActsAs (features.foldlM p.step s) (p.processAll features s) :=
  ActsAs.foldlM (fun s path => (p.process_actsAs path).bind fun r => record_actsAs s r) s features

theorem run_actsAs (p : Project) : ActsAs p.run p.runFiles := by
  intro w
  have hrun : ActsAs p.run _ := p.discover_actsAs.bind fun features =>
    p.prepare_actsAs.bind fun _ => p.foldlM_step_actsAs features .empty
  rw [hrun w, run_bind, runFiles]
  by_cases hempty : (p.features w.files).isEmpty = true
  · simp only [if_pos hempty]
  · simp only [if_neg hempty]
    rw [run_bind, Files.run_adapt]
    rcases Files.ensureDirectory p.stepsDir w.files with ⟨_ | _, fs'⟩ <;> rfl

end Project
end Run
end StepStubs
