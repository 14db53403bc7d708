/-
Reading two contents one after the other.

Where the first content ends with its last line and leaves no doc string open, the second is read
as if it stood alone, but for three things: its lines are counted on, and the steps with which it
starts, as long as they are led by `And` or `But`, take the phase of the last step before them.
`Reader.resumedBy` is the reader that has read on in this way; it is kept by every line
(`resumedBy_read`), so it is kept by all lines of the second content, and `extract_append` says what
that means for the two extractions.
-/
import StepStubs.Proofs.Feature.Extraction
import StepStubs.Proofs.Text.Lines

namespace StepStubs
namespace Feature

/-! ## Steps that are read later -/

def Step.shift (n : Nat) (s : Step) : Step := { s with line := n + s.line }

def SkippedLine.shift (n : Nat) (s : SkippedLine) : SkippedLine := { s with line := n + s.line }

/-- The steps as they are after a step of the phase `p`: those before the first whose leading word
names a phase take that phase. -/
def continued (p : Phase) : List Step → List Step
  | [] => []
  | s :: ss => if s.lead.phase?.isSome then s :: ss else { s with phase := p } :: continued p ss

/-- The phase that the last of the steps leaves behind. -/
def lastPhase (ss : List Step) : Phase := (ss.getLast?.map Step.phase).getD .context

/-- Does the leading word of one of the steps name a phase? -/
def anyNamed (ss : List Step) : Bool := ss.any fun s => s.lead.phase?.isSome

theorem continued_append (p : Phase) (ss ts : List Step) :
    continued p (ss ++ ts) = continued p ss ++ if anyNamed ss then ts else continued p ts := by
  induction ss with
  | nil => rfl
  | cons s ss ih =>
    rw [List.cons_append, continued, continued, anyNamed, List.any_cons, ← anyNamed]
    by_cases hs : s.lead.phase?.isSome = true
    · simp [hs]
    · simp [hs, ih]

theorem continued_of_head? {p : Phase} {ss : List Step}
    (h : ∀ s ∈ ss.head?, s.lead.phase?.isSome = true) : continued p ss = ss := by
  cases ss with
  | nil => rfl
  | cons s ss => rw [continued, if_pos (h s rfl)]

theorem lead_ofLine (p : Phase) (lead : LeadWord) (rest : Text) (n : Nat) :
    (Step.ofLine p lead rest n).lead = lead := by
  unfold Step.ofLine
  dsimp only
  split <;> rfl

theorem shift_ofLine (p : Phase) (lead : LeadWord) (rest : Text) (n m : Nat) :
    (Step.ofLine p lead rest m).shift n = Step.ofLine p lead rest (n + m) := by
  unfold Step.ofLine
  dsimp only
  split <;> rfl

/-- A step depends on the step before it in its phase only. -/
theorem ofLine_with_phase (p q : Phase) (lead : LeadWord) (rest : Text) (n : Nat) :
    { Step.ofLine q lead rest n with phase := lead.resolve p } = Step.ofLine p lead rest n := by
  unfold Step.ofLine
  dsimp only
  split <;> rfl

theorem resolve_of_isSome {lead : LeadWord} (h : lead.phase?.isSome = true) (p q : Phase) :
    lead.resolve p = lead.resolve q := by
  obtain ⟨r, hr⟩ := Option.isSome_iff_exists.mp h
  rw [LeadWord.resolve, LeadWord.resolve, hr]
  rfl

theorem resolve_of_not_isSome {lead : LeadWord} (h : ¬ lead.phase?.isSome = true) (p : Phase) :
    lead.resolve p = p := by
  rw [LeadWord.resolve, Option.not_isSome_iff_eq_none.mp h]
  rfl

/-- A first step as it is after another step. -/
theorem continued_ofLine (p q : Phase) (lead : LeadWord) (rest : Text) (n : Nat) :
    continued p [Step.ofLine q lead rest n] = [Step.ofLine p lead rest n] := by
  have hphase := ofLine_with_phase p q lead rest n
  rw [continued]
  by_cases hlead : (Step.ofLine q lead rest n).lead.phase?.isSome = true
  · have hsame := ofLine_with_phase q q lead rest n
    rw [if_pos hlead]
    rw [lead_ofLine] at hlead
    rw [← hsame, ← hphase, resolve_of_isSome hlead p q]
  · rw [if_neg hlead]
    rw [lead_ofLine] at hlead
    rw [resolve_of_not_isSome hlead] at hphase
    rw [hphase, continued]

/-! ## What a line does -/

/-- What a line does to the reader of its file. -/
inductive Effect where
  /-- The line is passed over, and `fence` is the mark of the doc string that is open after it. -/
  | pass (fence : Option Fence)
  | step (lead : LeadWord) (rest : Text)
  | skip (text : Text)

def Effect.of (fence : Option Fence) (line : Text) : Effect :=
  match fence with
  | some f => .pass (if f.starts line then none else some f)
  | none =>
    match LineKind.of line with
    | .fence f => .pass (some f)
    | .step lead rest => .step lead rest
    | .unrecognized => .skip line
    | .blank | .comment | .tag | .tableRow | .header => .pass none

namespace Reader

def apply (r : Reader) : Effect → Reader
  | .pass fence => { r with linesRead := r.linesRead + 1, openFence := fence }
  | .step lead rest =>
    { r with
      linesRead := r.linesRead + 1
      previous := lead.resolve r.previous
      steps := Step.ofLine r.previous lead rest (r.linesRead + 1) :: r.steps }
  | .skip text =>
    { r with linesRead := r.linesRead + 1, skipped := ⟨r.linesRead + 1, text⟩ :: r.skipped }

/-- What a line does depends on the open doc string and on the trimmed line only. -/
theorem read_eq (r : Reader) (l : Text) : r.read l = r.apply (.of r.openFence (Text.trim l)) := by
  obtain ⟨n, p, fence, ss, ts⟩ := r
  cases fence with
  | some f =>
    simp only [read, readInside, Effect.of, apply]
    split <;> rfl
  | none =>
    simp only [read, readOutside, Effect.of]
    cases LineKind.of (Text.trim l) with
    | step lead rest => simp only [apply, phase_ofLine]
    | _ => rfl

/-- The previous phase is that of the last step. -/
theorem previous_foldl_read (ls : List Text) {r : Reader}
    (h : r.previous = lastPhase r.steps.reverse) :
    (ls.foldl read r).previous = lastPhase (ls.foldl read r).steps.reverse := by
  induction ls generalizing r with
  | nil => exact h
  | cons l ls ih =>
    rw [List.foldl_cons]
    refine ih ?_
    rw [read_eq]
    cases Effect.of r.openFence (Text.trim l) with
    | pass fence => exact h
    | skip text => exact h
    | step lead rest => simp [apply, lastPhase, phase_ofLine]

/-! ## Reading on -/

/-- The reader `r` after it has read what `r₀` has read from the start. -/
def resumedBy (r r₀ : Reader) : Reader where
  linesRead := r.linesRead + r₀.linesRead
  previous := if anyNamed r₀.steps.reverse then r₀.previous else r.previous
  openFence := r₀.openFence
  steps := ((continued r.previous r₀.steps.reverse).map (Step.shift r.linesRead)).reverse ++ r.steps
  skipped := r₀.skipped.map (SkippedLine.shift r.linesRead) ++ r.skipped

theorem resumedBy_start {r : Reader} (h : r.openFence = none) : r.resumedBy start = r := by
  obtain ⟨n, p, fence, ss, ts⟩ := r
  subst h
  rfl

theorem resumedBy_apply (r r₀ : Reader) (effect : Effect) :
    (r.resumedBy r₀).apply effect = r.resumedBy (r₀.apply effect) := by
  cases effect with
  | pass fence => rfl
  | skip text => rfl
  | step lead rest =>
    have hsteps := continued_append r.previous r₀.steps.reverse
      [Step.ofLine r₀.previous lead rest (r₀.linesRead + 1)]
    have hnamed : anyNamed (r₀.steps.reverse ++
        [Step.ofLine r₀.previous lead rest (r₀.linesRead + 1)]) =
          (anyNamed r₀.steps.reverse || lead.phase?.isSome) := by
      simp [anyNamed, lead_ofLine]
    rw [continued_ofLine] at hsteps
    simp only [resumedBy, apply, List.reverse_cons, hsteps, hnamed]
    cases hbefore : anyNamed r₀.steps.reverse with
    | true => simp [shift_ofLine, Nat.add_assoc]
    | false =>
      by_cases hlead : lead.phase?.isSome = true
      · simp [hlead, shift_ofLine, Nat.add_assoc, resolve_of_isSome hlead r.previous r₀.previous]
      · simp [hlead, shift_ofLine, Nat.add_assoc, resolve_of_not_isSome hlead]

theorem resumedBy_read (r r₀ : Reader) (l : Text) :
    (r.resumedBy r₀).read l = r.resumedBy (r₀.read l) := by
  rw [read_eq, read_eq, ← resumedBy_apply]
  rfl

theorem foldl_read_resumedBy (r r₀ : Reader) (ls : List Text) :
    ls.foldl read (r.resumedBy r₀) = r.resumedBy (ls.foldl read r₀) := by
  induction ls generalizing r₀ with
  | nil => rfl
  | cons l ls ih => rw [List.foldl_cons, List.foldl_cons, resumedBy_read, ih]

end Reader

/-! ## Two contents -/

theorem openFence_of_not_inDocString {content : Text}
    (h : ¬ InDocString (Text.lines content) (Text.lines content).length) :
    ((Text.lines content).foldl Reader.read Reader.start).openFence = none := by
  rwa [(hasRead_foldl (Text.lines content)).inDocString_iff, Option.not_isSome_iff_eq_none] at h

/-- The reader of two contents is that of the first, resumed by that of the second. -/
theorem foldl_read_lines_append {a : Text} (ha : a = [] ∨ a.getLast? = some '\n')
    (hclosed : ¬ InDocString (Text.lines a) (Text.lines a).length) (b : Text) :
    (Text.lines (a ++ b)).foldl Reader.read Reader.start =
      ((Text.lines a).foldl Reader.read Reader.start).resumedBy
        ((Text.lines b).foldl Reader.read Reader.start) := by
  rw [Text.lines_append ha, List.foldl_append, ← Reader.foldl_read_resumedBy,
    Reader.resumedBy_start (openFence_of_not_inDocString hclosed)]

/-- If the first content ends with its last line, outside doc strings, reading both is reading each:
the numbers of lines add up, and the steps and skipped lines of the second follow those of the
first, counted on.  The steps with which the second starts take the phase of the last step of the
first until one names its own, so they stay as they are if the first of them does. -/
theorem extract_append {a : Text} (ha : a = [] ∨ a.getLast? = some '\n')
    (hclosed : ¬ InDocString (Text.lines a) (Text.lines a).length) (b : Text) :
    (extract (a ++ b)).totalLines = (extract a).totalLines + (extract b).totalLines ∧
    (extract (a ++ b)).skipped.length =
      (extract a).skipped.length + (extract b).skipped.length ∧
    (extract (a ++ b)).skipped = (extract a).skipped ++
      (extract b).skipped.map (SkippedLine.shift (extract a).totalLines) ∧
    (extract (a ++ b)).steps = (extract a).steps ++
      (continued (lastPhase (extract a).steps) (extract b).steps).map
        (Step.shift (extract a).totalLines) ∧
    ((∀ s ∈ (extract b).steps.head?, s.lead.phase?.isSome = true) →
      (extract (a ++ b)).steps = (extract a).steps ++
        (extract b).steps.map (Step.shift (extract a).totalLines)) ∧
    (extract (a ++ b)).endsInDocString = (extract b).endsInDocString := by
  have hread := foldl_read_lines_append ha hclosed b
  have hskipped : (extract (a ++ b)).skipped = (extract a).skipped ++
      (extract b).skipped.map (SkippedLine.shift (extract a).totalLines) := by
    simp [extract, Reader.extraction, hread, Reader.resumedBy]
  have hsteps : (extract (a ++ b)).steps = (extract a).steps ++
      (continued (lastPhase (extract a).steps) (extract b).steps).map
        (Step.shift (extract a).totalLines) := by
    have hprevious := Reader.previous_foldl_read (Text.lines a) (r := Reader.start) rfl
    simp [extract, Reader.extraction, hread, Reader.resumedBy, hprevious]
  refine ⟨?_, ?_, hskipped, hsteps, fun hhead => ?_, ?_⟩
  · simp [extract, Reader.extraction, hread, Reader.resumedBy]
  · rw [hskipped, List.length_append, List.length_map]
  · rw [hsteps, continued_of_head? hhead]
  · simp [extract, Reader.extraction, hread, Reader.resumedBy]

/-- An `And` at the start of the second content continues the action of the first. -/
theorem extract_append_sent :
    "When sent\n".toList.getLast? = some '\n' ∧
      ¬ InDocString (Text.lines "When sent\n".toList) 1 ∧
      (extract "And held\nThen seen\n".toList).steps.map (fun s => (s.phase, s.line)) =
        [(.context, 1), (.outcome, 2)] ∧
      (extract ("When sent\n".toList ++ "And held\nThen seen\n".toList)).steps.map
        (fun s => (s.phase, s.line)) = [(.action, 1), (.action, 2), (.outcome, 3)] := by
  have hlast : "When sent\n".toList.getLast? = some '\n' := by decide
  have hclosed : ¬ InDocString (Text.lines "When sent\n".toList) 1 := by
    have hends := (isExtractionOf_extract "When sent\n".toList).endsInDocString
    exact fun hin => absurd (hends.mpr hin) (by decide)
  refine ⟨hlast, hclosed, by decide, ?_⟩
  obtain ⟨-, -, -, hsteps, -⟩ :=
    extract_append (Or.inr hlast) hclosed "And held\nThen seen\n".toList
  rw [hsteps]
  decide

end Feature
end StepStubs
