/-
A run that tells how far it has come is a run.

`generate` and `Project.run` are two loops over the same feature files.  The parts that they are
made of neither say anything nor depend on what was said (`IsSilent`), so each step of the one is
a step of the other with lines said before and after it.  `Follows` states that of two actions,
together with what the lines are when the action succeeds; it is kept by sequencing and carried
through the loop by `follows_foldlM_generateOne`.

The main statement is `generate_agrees_with_run`: the result, the files and the events are those of
the run, whether anything is said or not, and what is printed is nothing, or the transcript of the
summary.  The transcript is spelled out line by line (`transcript`), apart from the program's own
texts; that the two have the same characters is the last step (`flatMap_text_told`).
-/
import StepStubs.Command.Generate
import StepStubs.Proofs.Run.Reported

namespace StepStubs

namespace Run

variable {ε α β : Type}

/-! ## Actions that say nothing -/

/-- The world with other lines said. -/
def World.saying (w : World) (said : List Progress) : World := { w with said := said }

theorem World.saying_said (w : World) : w.saying w.said = w := rfl

/-- Does the action say nothing, and do the same whatever was said before it? -/
def IsSilent (x : Action ε α) : Prop :=
  ∀ w said, x (w.saying said) = ((x w).1, (x w).2.saying said)

namespace IsSilent

theorem pure (a : α) : IsSilent (Pure.pure a : Action ε α) := fun _ _ => rfl

theorem throw (e : ε) : IsSilent (MonadExcept.throw e : Action ε α) := fun _ _ => rfl

theorem onFiles (op : Files.Operation ε α) : IsSilent (onFiles op) := fun _ _ => rfl

theorem askFiles (question : Files.FileSystem → Except ε α) : IsSilent (askFiles question) :=
  fun _ _ => rfl

theorem log (e : Log.Event) : IsSilent (log e : Action ε Unit) := fun _ _ => rfl

theorem bind {x : Action ε α} {f : α → Action ε β} (hx : IsSilent x) (hf : ∀ a, IsSilent (f a)) :
    IsSilent (x >>= f) := by
  intro w said
  rw [Files.run_bind, Files.run_bind, hx w said]
  rcases x w with ⟨e | a, w'⟩
  · rfl
  · exact hf a w' said

theorem ofExcept (r : Except ε α) : IsSilent (MonadExcept.ofExcept r : Action ε α) := by
  cases r with
  | error e => exact IsSilent.throw e
  | ok a => exact IsSilent.pure a

theorem forM {f : α → Action ε Unit} (h : ∀ a, IsSilent (f a)) (as : List α) :
    IsSilent (as.forM f) := by
  induction as with
  | nil => exact IsSilent.pure ()
  | cons a as ih => exact (h a).bind fun _ => ih

end IsSilent

namespace Project

theorem isSilent_featuresBelow (root : Path) (extension : Text) :
    IsSilent (featuresBelow root extension) := by
  intro w said
  rw [featuresBelow, Files.run_bind, Files.run_bind]
  have hfiles : (w.saying said).files = w.files := rfl
  show (if (w.saying said).files.isDirectory root then _ else _ : Action Failure (List Path))
    (w.saying said) = _
  rw [hfiles]
  show _ = (((if w.files.isDirectory root then _ else _ : Action Failure (List Path)) w).1,
    ((if w.files.isDirectory root then _ else _ : Action Failure (List Path)) w).2.saying said)
  split <;> rfl

theorem isSilent_discover (p : Project) : IsSilent p.discover := by
  refine (isSilent_featuresBelow _ _).bind fun found => ?_
  split
  · exact IsSilent.throw _
  · exact (IsSilent.log _).bind fun _ => IsSilent.pure _

theorem isSilent_prepare (p : Project) : IsSilent p.prepare := IsSilent.onFiles _

theorem isSilent_logExtraction (e : Feature.Extraction) : IsSilent (logExtraction e) := by
  refine (IsSilent.forM (fun _ => IsSilent.log _) _).bind fun _ => ?_
  split
  · exact IsSilent.log _
  · exact IsSilent.pure ()

theorem isSilent_process (p : Project) (f : Path) : IsSilent (p.process f) := by
  refine (IsSilent.askFiles _).bind fun feature => ?_
  refine (isSilent_logExtraction _).bind fun _ => (IsSilent.log _).bind fun _ => ?_
  refine (IsSilent.ofExcept _).bind fun output => (IsSilent.onFiles _).bind fun _ => ?_
  exact (IsSilent.log _).bind fun _ => IsSilent.pure _

theorem isSilent_record (s : Summary) (r : Report) : IsSilent (record s r) := by
  rw [record]
  split
  · exact (IsSilent.log _).bind fun _ => IsSilent.pure _
  · exact IsSilent.pure _

end Project
end Run

namespace Command

open Run (Action IsSilent Project Summary Report Progress World say)

variable {α β : Type} {speaks : Bool}

/-! ## Following an action -/

/-- Does `x` do what `y` does, with its failures as errors of the command line, and say lines in
between?  If it speaks and succeeds the lines are as `tells` has them, and if it does not speak
there are none. -/
def Follows (speaks : Bool) (x : Action Error α) (y : Action Run.Failure α)
    (tells : α → List Progress → Prop) : Prop :=
  ∀ w said, ∃ lines,
    x (w.saying said) =
      ((y w).1.mapError .ofRun, (y w).2.saying (lines.reverse ++ said)) ∧
    (speaks = false → lines = []) ∧
    (speaks = true → ∀ a, (y w).1 = .ok a → tells a lines)

theorem part_run (y : Action Run.Failure α) (w : World) :
    part y w = ((y w).1.mapError .ofRun, (y w).2) := rfl

namespace Follows

theorem part (speaks : Bool) (holds : α → Prop) {y : Action Run.Failure α} (hy : IsSilent y)
    (h : ∀ w w' a, y w = (.ok a, w') → holds a) :
    Follows speaks (part y) y fun a lines => holds a ∧ lines = [] := by
  intro w said
  refine ⟨[], ?_, fun _ => rfl, fun _ a ha => ⟨?_, rfl⟩⟩
  · rw [part_run, hy w said]
    rfl
  · exact h w (y w).2 a (Prod.ext ha rfl)

theorem said {x : Action Error α} {y : Action Run.Failure α} {tells : α → List Progress → Prop}
    (h : Follows speaks x y tells) (line : Progress) :
    Follows speaks (say speaks line >>= fun _ => x) y fun a lines =>
      ∃ rest, lines = line :: rest ∧ tells a rest := by
  intro w said
  cases speaks with
  | false =>
    obtain ⟨lines, hrun, hsilent, -⟩ := h w said
    exact ⟨lines, hrun, hsilent, nofun⟩
  | true =>
    obtain ⟨lines, hrun, -, htells⟩ := h w (line :: said)
    refine ⟨line :: lines, ?_, nofun, fun _ a ha => ⟨lines, rfl, htells rfl a ha⟩⟩
    rw [List.reverse_cons, List.append_assoc, List.singleton_append]
    exact hrun

theorem bind {x : Action Error α} {y : Action Run.Failure α} {tells : α → List Progress → Prop}
    {f : α → Action Error β} {g : α → Action Run.Failure β}
    {tells' : α → β → List Progress → Prop} (hx : Follows speaks x y tells)
    (hf : ∀ a, Follows speaks (f a) (g a) (tells' a)) :
    Follows speaks (x >>= f) (y >>= g) fun b lines =>
      ∃ a before after, lines = before ++ after ∧ tells a before ∧ tells' a b after := by
  intro w said
  obtain ⟨before, hrun, hsilent, htells⟩ := hx w said
  rw [Files.run_bind, Files.run_bind, hrun]
  rcases hy : y w with ⟨e | a, w'⟩
  · rw [hy] at hrun
    exact ⟨before, rfl, hsilent, fun _ _ hb => nomatch hb⟩
  · obtain ⟨after, hrun', hsilent', htells'⟩ := hf a w' (before.reverse ++ said)
    refine ⟨before ++ after, ?_, fun hs => ?_, fun hs b hb => ?_⟩
    · rw [List.reverse_append, List.append_assoc]
      exact hrun'
    · rw [hsilent hs, hsilent' hs, List.append_nil]
    · have ha : (y w).1 = .ok a := by rw [hy]
      exact ⟨a, before, after, rfl, htells hs a ha, htells' hs b hb⟩

theorem mono {x : Action Error α} {y : Action Run.Failure α}
    {tells tells' : α → List Progress → Prop} (h : Follows speaks x y tells)
    (himp : ∀ a lines, tells a lines → tells' a lines) : Follows speaks x y tells' := by
  intro w said
  obtain ⟨lines, hrun, hsilent, htells⟩ := h w said
  exact ⟨lines, hrun, hsilent, fun hs a ha => himp a lines (htells hs a ha)⟩

/-- A part that says nothing leaves what is told to what comes after it. -/
theorem part_bind (speaks : Bool) (holds : α → Prop) {y : Action Run.Failure α}
    {f : α → Action Error β} {g : α → Action Run.Failure β}
    {tells : α → β → List Progress → Prop} (hy : IsSilent y)
    (h : ∀ w w' a, y w = (.ok a, w') → holds a)
    (hf : ∀ a, Follows speaks (f a) (g a) (tells a)) :
    Follows speaks (Command.part y >>= f) (y >>= g) fun b lines =>
      ∃ a, holds a ∧ tells a b lines := by
  refine ((part speaks holds hy h).bind hf).mono ?_
  intro b lines htold
  obtain ⟨a, before, after, rfl, ⟨ha, rfl⟩, hafter⟩ := htold
  exact ⟨a, ha, hafter⟩

end Follows

/-! ## The loop over the feature files -/

/-- What is said about a feature file. -/
def toldOf (r : Report) : List Progress := [.reading r.source, .generated r]

/-- What is said in the course of a run with the summary. -/
def told (p : Project) (s : Summary) : List Progress :=
  .searching p.featuresDir p.config.featureExtension :: .found (s.files.map Report.source) ::
    s.files.flatMap toldOf

theorem record_ok {s s' : Summary} {r : Report} {w w' : World}
    (h : Project.record s r w = (.ok s', w')) : s' = s.record r := by
  have hruns := Project.record_actsAs s r w
  rw [h] at hruns
  exact Except.ok.inj (Prod.mk.inj hruns).1

theorem follows_generateOne (p : Project) (s : Summary) (path : Path) :
    Follows speaks (generateOne speaks p s path) (p.step s path) fun s' lines =>
      ∃ r, r.source = p.relative path ∧ s' = s.record r ∧ lines = toldOf r := by
  have hrecord : ∀ r, Follows speaks
      (say speaks (.generated r) >>= fun _ => part (Project.record s r)) (Project.record s r) _ :=
    fun r => (Follows.part speaks (· = s.record r) (Project.isSilent_record s r)
      fun _ _ _ h => record_ok h).said (.generated r)
  have hprocess := Follows.part_bind speaks (fun r => r.source = p.relative path)
    (p.isSilent_process path) (fun _ _ _ h => (Project.shown_of_process_ok h).1) hrecord
  refine (hprocess.said (.reading (p.relative path))).mono ?_
  intro s' lines htold
  obtain ⟨rest, rfl, r, hsource, last, rfl, hs, rfl⟩ := htold
  refine ⟨r, hsource, hs, ?_⟩
  rw [toldOf, hsource]

theorem follows_foldlM_generateOne (p : Project) (features : List Path) (s : Summary) :
    Follows speaks (features.foldlM (generateOne speaks p) s) (features.foldlM p.step s)
      fun s' lines => ∃ rs : List Report, rs.map Report.source = features.map p.relative ∧
        s' = rs.foldl Summary.record s ∧ lines = rs.flatMap toldOf := by
  induction features generalizing s with
  | nil =>
    intro w said
    refine ⟨[], rfl, fun _ => rfl, fun _ s' hs => ⟨[], rfl, ?_, rfl⟩⟩
    exact (Except.ok.inj hs).symm
  | cons path features ih =>
    rw [List.foldlM_cons, List.foldlM_cons]
    refine ((follows_generateOne p s path).bind ih).mono ?_
    intro s' lines htold
    obtain ⟨s₁, before, after, rfl, ⟨r, hr, rfl, rfl⟩, rs, hrs, hs, rfl⟩ := htold
    refine ⟨r :: rs, ?_, hs, rfl⟩
    rw [List.map_cons, List.map_cons, hr, hrs]

theorem follows_generate (speaks : Bool) (p : Project) :
    Follows speaks (generate speaks p) p.run fun s lines => lines = told p s := by
  have hloop : ∀ features, Follows speaks _ (p.runOver features) _ := fun features =>
    (Follows.part_bind speaks (fun _ => True) p.isSilent_prepare (fun _ _ _ _ => trivial)
      fun _ => follows_foldlM_generateOne p features .empty).said
        (.found (features.map p.relative))
  have hdiscover := Follows.part_bind speaks (fun _ => True) p.isSilent_discover
    (fun _ _ _ _ => trivial) hloop
  refine (hdiscover.said (.searching p.featuresDir p.config.featureExtension)).mono ?_
  intro s lines htold
  obtain ⟨rest, rfl, features, -, told, rfl, -, -, rs, hrs, hs, rfl⟩ := htold
  have hfiles : s.files = rs := by
    rw [hs, Project.files_foldl_record]
    rfl
  rw [told, hfiles, hrs]

/-! ## The transcript -/

/-- The lines about a feature file, the first of them empty.  Skipped lines are told only if there
are any. -/
def reportLines (r : Report) : List Text :=
  [[],
   "Reading: ".toList ++ r.source,
   "  Found ".toList ++ (toString r.totalSteps).toList ++ " step definitions".toList,
   "  After deduplication: ".toList ++ (toString r.uniqueSteps).toList ++
     " unique step definitions".toList,
   "✓ Generated: ".toList ++ r.output,
   "  - Given: ".toList ++ (toString r.context).toList,
   "  - When: ".toList ++ (toString r.action).toList,
   "  - Then: ".toList ++ (toString r.outcome).toList] ++
  if r.skippedLines = 0 then []
  else ["  - Skipped lines: ".toList ++ (toString r.skippedLines).toList]

/-- The lines of a run with the summary: where feature files are looked for, which are found, and
then what is reported about each. -/
def transcriptLines (p : Project) (s : Summary) : List Text :=
  ["Searching for .".toList ++ p.config.featureExtension ++ " files in: ".toList ++
     p.featuresDir.text,
   "Found ".toList ++ (toString s.files.length).toList ++ " feature file(s):".toList] ++
  s.files.map (fun r => "  - ".toList ++ r.source) ++ s.files.flatMap reportLines

/-- What a run with the summary prints.  Each line is ended by a line feed. -/
def transcript (p : Project) (s : Summary) : Text :=
  (transcriptLines p s).flatMap fun line => line ++ ['\n']

theorem ofNat_eq_toString (n : Nat) : Text.ofNat n = (toString n).toList := by
  rw [Text.ofNat, Nat.toString_eq_repr, Nat.repr, String.toList_ofList]

theorem flatMap_text_toldOf (r : Report) :
    (toldOf r).flatMap Progress.text = (reportLines r).flatMap fun line => line ++ ['\n'] := by
  have hreading : Progress.text (.reading r.source) = "\nReading: ".toList ++ r.source ++ ['\n'] :=
    rfl
  have hgenerated : Progress.text (.generated r) = r.text ++ ['\n'] := rfl
  rw [toldOf, reportLines, List.flatMap_cons, List.flatMap_cons, List.flatMap_nil, hreading,
    hgenerated, List.flatMap_append]
  unfold Report.text
  -- The program writes some line feeds in front of a line and some behind it.
  by_cases h : r.skippedLines = 0
  · rw [if_pos h, if_neg (by omega)]
    simp only [ofNat_eq_toString, String.reduceToList, List.flatMap_cons, List.flatMap_nil,
      List.append_assoc, List.cons_append, List.nil_append, List.append_nil]
  · rw [if_neg h, if_pos (by omega)]
    simp only [ofNat_eq_toString, String.reduceToList, List.flatMap_cons, List.flatMap_nil,
      List.append_assoc, List.cons_append, List.nil_append, List.append_nil]

theorem flatMap_text_told (p : Project) (s : Summary) :
    (told p s).flatMap Progress.text = transcript p s := by
  have hsearching : Progress.text (.searching p.featuresDir p.config.featureExtension) =
      "Searching for .".toList ++ p.config.featureExtension ++ " files in: ".toList ++
        p.featuresDir.text ++ ['\n'] := rfl
  have hfound : Progress.text (.found (s.files.map Report.source)) =
      "Found ".toList ++ Text.ofNat (s.files.map Report.source).length ++
        " feature file(s):\n".toList ++
        (s.files.map Report.source).flatMap fun source => "  - ".toList ++ source ++ ['\n'] := rfl
  rw [told, transcript, transcriptLines, List.flatMap_cons, List.flatMap_cons, hsearching, hfound,
    List.flatMap_assoc, List.flatMap_append, List.flatMap_append, List.flatMap_assoc,
    List.flatMap_map, List.flatMap_map, List.length_map]
  simp only [flatMap_text_toldOf, ofNat_eq_toString, String.reduceToList, List.flatMap_cons,
    List.flatMap_nil, List.append_assoc, List.cons_append, List.nil_append, List.append_nil]

/-! ## A run and its transcript -/

/-- What is printed while the program goes on. -/
def printed (w : World) : Text := w.said.reverse.flatMap Progress.text

/-- Telling how far a run has come changes neither its result nor what it does to the files and
logs.  When nothing is to be told nothing is printed, and otherwise a run that succeeds prints its
transcript. -/
theorem generate_agrees_with_run (p : Project) (speaks : Bool) (w : World) :
    (generate speaks p w).1 = (p.run w).1.mapError .ofRun ∧
      (generate speaks p w).2.files = (p.run w).2.files ∧
      (generate speaks p w).2.events = (p.run w).2.events ∧
      (speaks = false → printed (generate speaks p w).2 = printed w) ∧
      (speaks = true → ∀ s, (p.run w).1 = .ok s →
        printed (generate speaks p w).2 = printed w ++ transcript p s) := by
  obtain ⟨lines, hrun, hsilent, htells⟩ := follows_generate speaks p w w.said
  rw [World.saying_said] at hrun
  have hprinted : printed (generate speaks p w).2 = printed w ++ lines.flatMap Progress.text := by
    rw [hrun]
    show (lines.reverse ++ w.said).reverse.flatMap Progress.text = _
    rw [List.reverse_append, List.reverse_reverse, List.flatMap_append]
    rfl
  refine ⟨by rw [hrun], by rw [hrun]; rfl, by rw [hrun]; rfl, fun hs => ?_, fun hs s hok => ?_⟩
  · rw [hprinted, hsilent hs, List.flatMap_nil, List.append_nil]
  · rw [hprinted, htells hs s hok, flatMap_text_told]

/-- A run over one feature file, told and untold. -/
theorem generate_agrees_with_run_loginTree :
    ∃ s : Summary, s.files.map Report.source = ["tests/features/login.feature".toList] ∧
      ((Project.mk ⟨['/']⟩ .default).run (.start Project.loginTree)).1 = .ok s ∧
      (generate true ⟨⟨['/']⟩, .default⟩ (.start Project.loginTree)).1 = .ok s ∧
      printed (generate true ⟨⟨['/']⟩, .default⟩ (.start Project.loginTree)).2 =
        transcript ⟨⟨['/']⟩, .default⟩ s ∧
      printed (generate false ⟨⟨['/']⟩, .default⟩ (.start Project.loginTree)).2 = [] := by
  have hsources : ((Project.mk ⟨['/']⟩ .default).run (.start Project.loginTree)).1.toOption.map
      (fun s => s.files.map Report.source) = some ["tests/features/login.feature".toList] := by
    decide +kernel
  obtain ⟨s, hrun, hfiles⟩ := Run.exists_of_map_toOption hsources
  obtain ⟨hresult, -, -, -, htells⟩ :=
    generate_agrees_with_run ⟨⟨['/']⟩, .default⟩ true (.start Project.loginTree)
  obtain ⟨-, -, -, hsilent, -⟩ :=
    generate_agrees_with_run ⟨⟨['/']⟩, .default⟩ false (.start Project.loginTree)
  refine ⟨s, hfiles, hrun, ?_, htells rfl s hrun, hsilent rfl⟩
  rw [hresult, hrun]
  rfl

end Command
end StepStubs
