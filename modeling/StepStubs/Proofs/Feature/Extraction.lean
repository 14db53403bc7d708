/-
What is read from a feature file, told line by line.

The reader goes through the file once and carries an open doc string and the phase of the last
step along.  Here each line is described by the lines before it, with nothing carried: whether it
stands in a doc string (`InDocString`), which form it has otherwise (`HasForm`), and which phase
holds there (`PhaseAt`).  `isExtractionOf_extract` says that the reader finds exactly the step
lines and exactly the unrecognized lines of that description.
-/
import Mathlib.Data.List.Forall2
import StepStubs.Feature.Extraction
import StepStubs.Proofs.Feature.Line

namespace StepStubs
namespace Feature

/-! ## Doc strings -/

/-- Does the line with the index `i` start with the mark, once it is trimmed? -/
def HasFence (ls : List Text) (i : Nat) (f : Fence) : Prop :=
  ∃ l, ls[i]? = some l ∧ f.spelling.toList <+: Text.trim l

/-- Does the line stand in a doc string, as its last line or before it?  Then a line before it
opens the doc string, itself in none, and the mark does not come again in between. -/
def InDocString (ls : List Text) (i : Nat) : Prop :=
  ∃ j, ∃ _ : j < i, ¬ InDocString ls j ∧
    ∃ f, HasFence ls j f ∧ ∀ k, j < k → k < i → ¬ HasFence ls k f
termination_by i

/-- Does a line before `i` open a doc string with the mark `f` that is open at `i`? -/
def IsOpenAt (ls : List Text) (i : Nat) (f : Fence) : Prop :=
  ∃ j, j < i ∧ ¬ InDocString ls j ∧ HasFence ls j f ∧ ∀ k, j < k → k < i → ¬ HasFence ls k f

variable {ls : List Text} {n : Nat} {l : Text} {f g : Fence}

theorem inDocString_iff : InDocString ls n ↔ ∃ f, IsOpenAt ls n f := by
  rw [InDocString]
  constructor
  · rintro ⟨j, hj, hout, f, hf, hbetween⟩
    exact ⟨f, j, hj, hout, hf, hbetween⟩
  · rintro ⟨f, j, hj, hout, hf, hbetween⟩
    exact ⟨j, hj, hout, f, hf, hbetween⟩

theorem hasFence_iff (hl : ls[n]? = some l) :
    HasFence ls n f ↔ LineKind.of (Text.trim l) = .fence f := by
  constructor
  · rintro ⟨l', hl', hmark⟩
    rw [hl] at hl'
    rw [Option.some.inj hl']
    exact LineKind.of_eq_of_matches (k := .fence f) hmark
  · intro hof
    refine ⟨l, hl, ?_⟩
    have hfits := LineKind.fits_iff.mpr hof
    rcases hfits with hmark | ⟨hk, -⟩
    · exact hmark
    · exact nomatch hk

theorem HasFence.unique (hf : HasFence ls n f) (hg : HasFence ls n g) : f = g := by
  obtain ⟨l, hl, -⟩ := id hf
  have hof := (hasFence_iff hl).mp hf
  rw [(hasFence_iff hl).mp hg] at hof
  exact (LineKind.fence.inj hof).symm

/-- At most one doc string is open: the later of two opening lines would stand in the doc string
of the other. -/
theorem IsOpenAt.unique (hf : IsOpenAt ls n f) (hg : IsOpenAt ls n g) : f = g := by
  obtain ⟨j, hj, hjout, hjf, hjbetween⟩ := hf
  obtain ⟨k, hk, hkout, hkg, hkbetween⟩ := hg
  rcases Nat.lt_trichotomy j k with hjk | rfl | hkj
  · refine absurd ?_ hkout
    exact inDocString_iff.mpr ⟨f, j, hjk, hjout, hjf, fun i hi hik =>
      hjbetween i hi (Nat.lt_trans hik hk)⟩
  · exact hjf.unique hkg
  · refine absurd ?_ hjout
    exact inDocString_iff.mpr ⟨g, k, hkj, hkout, hkg, fun i hi hij =>
      hkbetween i hi (Nat.lt_trans hij hj)⟩

/-- A doc string is open after a line if it was open before and the line does not close it, or if
the line opens it. -/
theorem isOpenAt_succ_iff :
    IsOpenAt ls (n + 1) f ↔
      (IsOpenAt ls n f ∧ ¬ HasFence ls n f) ∨ (¬ InDocString ls n ∧ HasFence ls n f) := by
  constructor
  · rintro ⟨j, hj, hout, hf, hbetween⟩
    rcases Nat.lt_succ_iff_lt_or_eq.mp hj with hjn | rfl
    · refine Or.inl ⟨⟨j, hjn, hout, hf, fun k hk hkn => hbetween k hk (by omega)⟩, ?_⟩
      exact hbetween n hjn (Nat.lt_succ_self n)
    · exact Or.inr ⟨hout, hf⟩
  · rintro (⟨⟨j, hj, hout, hf, hbetween⟩, hn⟩ | ⟨hout, hf⟩)
    · refine ⟨j, by omega, hout, hf, fun k hk hkn => ?_⟩
      rcases Nat.lt_succ_iff_lt_or_eq.mp hkn with hkn | rfl
      · exact hbetween k hk hkn
      · exact hn
    · exact ⟨n, Nat.lt_succ_self n, hout, hf, fun k hk hkn => by omega⟩

/-! ## The form of a line -/

/-- Does the line belong to no doc string, not even as its first line? -/
def IsOutside (ls : List Text) (i : Nat) : Prop := ¬ InDocString ls i ∧ ∀ f, ¬ HasFence ls i f

/-- Is the line outside doc strings, and does it have the form once it is trimmed? -/
def HasForm (ls : List Text) (i : Nat) (k : LineKind) : Prop :=
  IsOutside ls i ∧ ∃ l, ls[i]? = some l ∧ k.Fits (Text.trim l)

def IsStepAt (ls : List Text) (i : Nat) : Prop := ∃ lead rest, HasForm ls i (.step lead rest)

theorem not_hasForm_of_inDocString (h : InDocString ls n) (k : LineKind) : ¬ HasForm ls n k :=
  fun hform => hform.1.1 h

theorem HasForm.of_eq {k : LineKind} (hl : ls[n]? = some l) (h : HasForm ls n k) :
    LineKind.of (Text.trim l) = k := by
  obtain ⟨-, l', hl', hfits⟩ := h
  rw [hl] at hl'
  rw [Option.some.inj hl']
  exact LineKind.fits_iff.mp hfits

theorem isOutside_of_of_eq (hl : ls[n]? = some l) (hout : ¬ InDocString ls n)
    (hfence : ∀ f, LineKind.of (Text.trim l) ≠ .fence f) : IsOutside ls n :=
  ⟨hout, fun f hf => hfence f ((hasFence_iff hl).mp hf)⟩

theorem hasForm_of {k : LineKind} (hl : ls[n]? = some l) (hout : ¬ InDocString ls n)
    (hof : LineKind.of (Text.trim l) = k) (hfence : ∀ f, k ≠ .fence f) : HasForm ls n k :=
  ⟨isOutside_of_of_eq hl hout fun f => hof ▸ hfence f, l, hl, LineKind.fits_iff.mpr hof⟩

theorem HasForm.unique {k k' : LineKind} (h : HasForm ls n k) (h' : HasForm ls n k') : k = k' := by
  obtain ⟨-, l, hl, -⟩ := id h
  exact (h.of_eq hl).symm.trans (h'.of_eq hl)

/-- A line outside doc strings has exactly one form, and it is no fence. -/
theorem IsOutside.existsUnique_hasForm (hout : IsOutside ls n) (hn : n < ls.length) :
    (∃! k, HasForm ls n k) ∧ ∀ f, ¬ HasForm ls n (.fence f) := by
  have hl : ls[n]? = some ls[n] := List.getElem?_eq_getElem hn
  have hfence : ∀ f, LineKind.of (Text.trim ls[n]) ≠ .fence f := fun f hof =>
    hout.2 f ((hasFence_iff hl).mpr hof)
  refine ⟨⟨_, hasForm_of hl hout.1 rfl hfence, fun k hk => (hk.of_eq hl).symm⟩, fun f hf => ?_⟩
  exact hfence f (hf.of_eq hl)

/-! ## The phase at a line -/

/-- Is this the phase of the nearest step before the index `i` whose word names one, or the
context if there is no such step? -/
def PhaseAt (ls : List Text) (i : Nat) (p : Phase) : Prop :=
  (∃ j, j < i ∧ (∃ rest, HasForm ls j (.step (.primary p) rest)) ∧
    ∀ k, j < k → k < i → ∀ q rest, ¬ HasForm ls k (.step (.primary q) rest)) ∨
  (p = .context ∧ ∀ k, k < i → ∀ q rest, ¬ HasForm ls k (.step (.primary q) rest))

theorem phaseAt_zero (ls : List Text) : PhaseAt ls 0 .context :=
  Or.inr ⟨rfl, fun k hk => absurd hk (Nat.not_lt_zero k)⟩

theorem phaseAt_succ_of_primary {p : Phase} {rest : Text}
    (h : HasForm ls n (.step (.primary p) rest)) : PhaseAt ls (n + 1) p :=
  Or.inl ⟨n, Nat.lt_succ_self n, ⟨rest, h⟩, fun k hk hkn => by omega⟩

theorem PhaseAt.succ {p : Phase} (h : PhaseAt ls n p)
    (hn : ∀ q rest, ¬ HasForm ls n (.step (.primary q) rest)) : PhaseAt ls (n + 1) p := by
  rcases h with ⟨j, hj, hform, hbetween⟩ | ⟨rfl, hbefore⟩
  · refine Or.inl ⟨j, by omega, hform, fun k hk hkn => ?_⟩
    rcases Nat.lt_succ_iff_lt_or_eq.mp hkn with hkn | rfl
    · exact hbetween k hk hkn
    · exact hn
  · refine Or.inr ⟨rfl, fun k hkn => ?_⟩
    rcases Nat.lt_succ_iff_lt_or_eq.mp hkn with hkn | rfl
    · exact hbefore k hkn
    · exact hn

/-! ## The step of a line -/

/-- Is `text` what stands before the colon that ends `rest`, without the blanks there? -/
def IsBeforeColon (text rest : Text) : Prop :=
  (∃ gap, (∀ c ∈ gap, Text.isBlank c = true) ∧ rest = text ++ gap ++ [':']) ∧
    ∀ c ∈ text.getLast?, Text.isBlank c = false

/-- Is `s` the step of the line with the index `i`? -/
structure Describes (ls : List Text) (i : Nat) (s : Step) : Prop where
  line : s.line = i + 1
  hasTable : ∀ l, ls[i]? = some l → (s.hasTable = true ↔ (Text.trim l).getLast? = some ':')
  text : ∃ rest, HasForm ls i (.step s.lead rest) ∧
    if s.hasTable then IsBeforeColon s.text rest else s.text = rest
  phase : PhaseAt ls (i + 1) s.phase

/-- Does the record name the line with the index `i`, and its trimmed text? -/
def Names (ls : List Text) (i : Nat) (s : SkippedLine) : Prop :=
  s.line = i + 1 ∧ ∃ l, ls[i]? = some l ∧ s.text = Text.trim l

/-- The text of a step line is trimmed on both sides. -/
theorem IsStepLine.trim_eq {lead : LeadWord} {rest : Text}
    (h : IsStepLine (Text.trim l) lead rest) : Text.trim rest = rest := by
  have hstart : Text.trimStart ([] ++ rest) = rest :=
    Text.trimStart_append (fun c hc => nomatch hc) h.head
  rw [List.nil_append] at hstart
  rw [Text.trim, hstart]
  refine Text.trimEnd_of_getLast? ?_
  have hlast := Text.not_isBlank_getLast?_trimEnd (Text.trimStart l)
  obtain ⟨⟨gap, -, -, hline⟩, -, -⟩ := h
  rw [← Text.trim, hline] at hlast
  intro c hc
  refine hlast c ?_
  rw [List.getLast?_append, List.getLast?_append, Option.mem_def.mp hc]
  rfl

theorem IsStepLine.getLast?_eq {line : Text} {lead : LeadWord} {rest : Text}
    (h : IsStepLine line lead rest) : line.getLast? = rest.getLast? := by
  obtain ⟨⟨gap, -, -, rfl⟩, hne, -⟩ := h
  rw [List.getLast?_append, List.getLast?_append, List.getLast?_eq_some_getLast hne]
  rfl

/-- The text of a step is a part of its line. -/
theorem Describes.exists_line {s : Step} (h : Describes ls n s) :
    ∃ l, ls[n]? = some l ∧ s.text <:+: l := by
  obtain ⟨rest, ⟨-, l, hl, hfits⟩, htext⟩ := h.text
  have hline : rest <:+: Text.trim l := by
    rcases hfits with ⟨⟨gap, -, -, heq⟩, -, -⟩ | ⟨hne, -⟩
    · exact heq ▸ ((List.suffix_append _ _).trans (List.suffix_append _ _)).isInfix
    · exact nomatch hne
  have hrest : s.text <:+: rest := by
    split at htext
    · obtain ⟨⟨gap, -, rfl⟩, -⟩ := htext
      exact ((List.prefix_append _ _).trans (List.prefix_append _ _)).isInfix
    · exact htext ▸ List.infix_rfl
  exact ⟨l, hl, hrest.trans (hline.trans (Text.trim_infix l))⟩

theorem ofLine_of_getLast? {previous : Phase} {lead : LeadWord} {rest : Text} {number : Nat}
    (htrim : Text.trim rest = rest) (hcolon : rest.getLast? = some ':') :
    Step.ofLine previous lead rest number =
      ⟨lead.resolve previous, lead, Text.trimEnd rest.dropLast, true, number⟩ := by
  simp only [Step.ofLine, htrim, Text.beforeLast?, if_pos hcolon]

theorem ofLine_of_not_getLast? {previous : Phase} {lead : LeadWord} {rest : Text} {number : Nat}
    (htrim : Text.trim rest = rest) (hcolon : rest.getLast? ≠ some ':') :
    Step.ofLine previous lead rest number =
      ⟨lead.resolve previous, lead, rest, false, number⟩ := by
  simp only [Step.ofLine, htrim, Text.beforeLast?, if_neg hcolon]

theorem isBeforeColon_trimEnd {rest : Text} (hcolon : rest.getLast? = some ':') :
    IsBeforeColon (Text.trimEnd rest.dropLast) rest := by
  obtain ⟨gap, hgap, heq⟩ := Text.exists_trimEnd_append rest.dropLast
  refine ⟨⟨gap, hgap, ?_⟩, Text.not_isBlank_getLast?_trimEnd _⟩
  rw [heq, List.dropLast_append_getLast? ':' hcolon]

theorem phase_ofLine (previous : Phase) (lead : LeadWord) (rest : Text) (number : Nat) :
    (Step.ofLine previous lead rest number).phase = lead.resolve previous := by
  unfold Step.ofLine
  dsimp only
  split <;> rfl

theorem describes_ofLine {previous : Phase} {lead : LeadWord} {rest : Text}
    (hl : ls[n]? = some l) (hform : HasForm ls n (.step lead rest))
    (hphase : PhaseAt ls (n + 1) (lead.resolve previous)) :
    Describes ls n (Step.ofLine previous lead rest (n + 1)) := by
  have hstep : IsStepLine (Text.trim l) lead rest := by
    rcases LineKind.fits_iff.mpr (hform.of_eq hl) with hstep | ⟨hk, -⟩
    · exact hstep
    · exact nomatch hk
  by_cases hcolon : rest.getLast? = some ':'
  · rw [ofLine_of_getLast? hstep.trim_eq hcolon]
    refine ⟨rfl, fun l' hl' => ?_, ⟨rest, hform, isBeforeColon_trimEnd hcolon⟩, hphase⟩
    rw [← Option.some.inj (hl.symm.trans hl'), hstep.getLast?_eq]
    exact iff_of_true rfl hcolon
  · rw [ofLine_of_not_getLast? hstep.trim_eq hcolon]
    refine ⟨rfl, fun l' hl' => ?_, ⟨rest, hform, rfl⟩, hphase⟩
    rw [← Option.some.inj (hl.symm.trans hl'), hstep.getLast?_eq]
    exact iff_of_false Bool.false_ne_true hcolon

/-! ## The indices with a property -/

open Classical in
/-- The indices below `n` with the property, in order. -/
noncomputable def indicesBelow (n : Nat) (P : Nat → Prop) : List Nat := (List.range n).filter P

theorem indicesBelow_succ_of {P : Nat → Prop} (h : P n) :
    indicesBelow (n + 1) P = indicesBelow n P ++ [n] := by
  rw [indicesBelow, List.range_succ, List.filter_append, List.filter_cons_of_pos (by simpa using h)]
  rfl

theorem indicesBelow_succ_of_not {P : Nat → Prop} (h : ¬ P n) :
    indicesBelow (n + 1) P = indicesBelow n P := by
  rw [indicesBelow, List.range_succ, List.filter_append,
    List.filter_cons_of_neg (by simpa using h), List.filter_nil, List.append_nil]
  rfl

theorem pairwise_indicesBelow (n : Nat) (P : Nat → Prop) :
    (indicesBelow n P).Pairwise (· < ·) :=
  List.Pairwise.filter _ List.pairwise_lt_range

theorem lt_of_mem_indicesBelow {P : Nat → Prop} {i : Nat} (h : i ∈ indicesBelow n P) : i < n :=
  List.mem_range.mp (List.mem_filter.mp h).1

/-! ## One line after the other -/

/-- Where the reader stands after the first `n` lines. -/
structure Reader.HasRead (r : Reader) (ls : List Text) (n : Nat) : Prop where
  linesRead : r.linesRead = n
  openFence : ∀ f, r.openFence = some f ↔ IsOpenAt ls n f
  previous : PhaseAt ls n r.previous
  steps : List.Forall₂ (Describes ls) (indicesBelow n (IsStepAt ls)) r.steps.reverse
  skipped : List.Forall₂ (Names ls) (indicesBelow n (HasForm ls · .unrecognized))
    r.skipped.reverse

theorem hasRead_start (ls : List Text) : Reader.start.HasRead ls 0 where
  linesRead := rfl
  openFence := fun _ => iff_of_false (fun h => nomatch h) fun ⟨j, hj, _⟩ => Nat.not_lt_zero j hj
  previous := phaseAt_zero ls
  steps := List.Forall₂.nil
  skipped := List.Forall₂.nil

variable {r : Reader}

/-- A line that is neither a step nor unrecognized changes nothing but the number of lines and
perhaps the open doc string. -/
theorem Reader.HasRead.pass (h : r.HasRead ls n) (fence : Option Fence)
    (hfence : ∀ f, fence = some f ↔ IsOpenAt ls (n + 1) f)
    (hstep : ¬ IsStepAt ls n) (hunrecognized : ¬ HasForm ls n .unrecognized) :
    Reader.HasRead { r with linesRead := r.linesRead + 1, openFence := fence } ls (n + 1) where
  linesRead := congrArg (· + 1) h.linesRead
  openFence := hfence
  previous := h.previous.succ fun q rest hform => hstep ⟨_, rest, hform⟩
  steps := by
    rw [indicesBelow_succ_of_not hstep]
    exact h.steps
  skipped := by
    rw [indicesBelow_succ_of_not hunrecognized]
    exact h.skipped

theorem Reader.HasRead.inDocString_iff (h : r.HasRead ls n) :
    InDocString ls n ↔ r.openFence.isSome = true := by
  rw [Feature.inDocString_iff, Option.isSome_iff_exists]
  exact exists_congr fun f => (h.openFence f).symm

/-- In a doc string the reader waits for the mark that closes it. -/
theorem Reader.HasRead.readInside (h : r.HasRead ls n) (hl : ls[n]? = some l)
    (hf : r.openFence = some f) :
    (Reader.readInside { r with linesRead := r.linesRead + 1 } f (Text.trim l)).HasRead ls
      (n + 1) := by
  have hopen : IsOpenAt ls n f := (h.openFence f).mp hf
  have hin : InDocString ls n := Feature.inDocString_iff.mpr ⟨f, hopen⟩
  have hstep : ¬ IsStepAt ls n := fun ⟨_, _, hform⟩ => not_hasForm_of_inDocString hin _ hform
  have hunrecognized := not_hasForm_of_inDocString hin .unrecognized
  unfold Reader.readInside
  by_cases hmark : f.starts (Text.trim l) = true
  · rw [if_pos hmark]
    -- The mark comes again, and no other doc string is open behind it.
    have hclose : HasFence ls n f := ⟨l, hl, Fence.starts_iff.mp hmark⟩
    refine h.pass none (fun g => iff_of_false (fun hg => nomatch hg) fun hg => ?_) hstep
      hunrecognized
    rcases isOpenAt_succ_iff.mp hg with ⟨hg, hnot⟩ | ⟨hout, -⟩
    · rw [hg.unique hopen] at hnot
      exact hnot hclose
    · exact hout hin
  · rw [if_neg hmark]
    -- Another mark than the open one closes nothing.
    have hstays : ¬ HasFence ls n f := by
      rintro ⟨l', hl', hstarts⟩
      rw [← Option.some.inj (hl.symm.trans hl')] at hstarts
      exact hmark (Fence.starts_iff.mpr hstarts)
    refine h.pass r.openFence (fun g => ?_) hstep hunrecognized
    rw [h.openFence, isOpenAt_succ_iff]
    constructor
    · intro hg
      rw [hg.unique hopen]
      exact Or.inl ⟨hopen, hstays⟩
    · rintro (⟨hg, -⟩ | ⟨hout, -⟩)
      · exact hg
      · exact absurd hin hout

/-- Outside doc strings a fence opens one, and no other line does. -/
theorem isOpenAt_succ_iff_of_not_inDocString (hl : ls[n]? = some l) (hout : ¬ InDocString ls n) :
    IsOpenAt ls (n + 1) f ↔ LineKind.of (Text.trim l) = .fence f := by
  rw [isOpenAt_succ_iff, ← hasFence_iff hl]
  constructor
  · rintro (⟨hopen, -⟩ | ⟨-, hf⟩)
    · exact absurd (inDocString_iff.mpr ⟨f, hopen⟩) hout
    · exact hf
  · intro hf
    exact Or.inr ⟨hout, hf⟩

theorem Reader.HasRead.readStep (h : r.HasRead ls n) (hl : ls[n]? = some l)
    (hout : ¬ InDocString ls n) {lead : LeadWord} {rest : Text}
    (hof : LineKind.of (Text.trim l) = .step lead rest) :
    Reader.HasRead
      ⟨n + 1, (Step.ofLine r.previous lead rest (n + 1)).phase, none,
        Step.ofLine r.previous lead rest (n + 1) :: r.steps, r.skipped⟩ ls (n + 1) := by
  have hform : HasForm ls n (.step lead rest) := hasForm_of hl hout hof nofun
  have hphase : PhaseAt ls (n + 1) (lead.resolve r.previous) := by
    cases lead with
    | primary p => exact phaseAt_succ_of_primary hform
    | and => exact h.previous.succ fun q rest' hq => nomatch (hq.of_eq hl).symm.trans hof
    | but => exact h.previous.succ fun q rest' hq => nomatch (hq.of_eq hl).symm.trans hof
  refine ⟨rfl, fun f => ?_, ?_, ?_, ?_⟩
  · rw [isOpenAt_succ_iff_of_not_inDocString hl hout, hof]
    exact iff_of_false (fun hf => nomatch hf) fun hf => nomatch hf
  · rw [phase_ofLine]
    exact hphase
  · rw [indicesBelow_succ_of ⟨lead, rest, hform⟩, List.reverse_cons]
    exact List.rel_append h.steps (List.Forall₂.cons (describes_ofLine hl hform hphase) .nil)
  · rw [indicesBelow_succ_of_not fun hu => nomatch (hu.of_eq hl).symm.trans hof]
    exact h.skipped

theorem Reader.HasRead.readUnrecognized (h : r.HasRead ls n) (hl : ls[n]? = some l)
    (hout : ¬ InDocString ls n) (hof : LineKind.of (Text.trim l) = .unrecognized) :
    Reader.HasRead ⟨n + 1, r.previous, none, r.steps, ⟨n + 1, Text.trim l⟩ :: r.skipped⟩ ls
      (n + 1) := by
  have hform : HasForm ls n .unrecognized := hasForm_of hl hout hof nofun
  have hstep : ¬ IsStepAt ls n := fun ⟨_, _, hs⟩ => nomatch (hs.of_eq hl).symm.trans hof
  refine ⟨rfl, fun f => ?_, ?_, ?_, ?_⟩
  · rw [isOpenAt_succ_iff_of_not_inDocString hl hout, hof]
    exact iff_of_false (fun hf => nomatch hf) fun hf => nomatch hf
  · exact h.previous.succ fun q rest hq => hstep ⟨_, rest, hq⟩
  · rw [indicesBelow_succ_of_not hstep]
    exact h.steps
  · rw [indicesBelow_succ_of hform, List.reverse_cons]
    exact List.rel_append h.skipped (List.Forall₂.cons ⟨rfl, l, hl, rfl⟩ .nil)

/-- Outside doc strings the form of the line decides. -/
theorem Reader.HasRead.readOutside (h : r.HasRead ls n) (hl : ls[n]? = some l)
    (hnone : r.openFence = none) :
    (Reader.readOutside { r with linesRead := r.linesRead + 1 } (Text.trim l)).HasRead ls
      (n + 1) := by
  have hout : ¬ InDocString ls n := by
    rw [h.inDocString_iff, hnone]
    exact Bool.false_ne_true
  -- A line of any other form than these leaves the reader where it is.
  have hpass : ∀ {k : LineKind} (fence : Option Fence), LineKind.of (Text.trim l) = k →
      (∀ f, fence = some f ↔ k = .fence f) → (∀ lead rest, k ≠ .step lead rest) →
      k ≠ .unrecognized →
      Reader.HasRead { r with linesRead := r.linesRead + 1, openFence := fence } ls (n + 1) := by
    intro k fence hof hfence hstep hunrecognized
    refine h.pass fence (fun f => ?_) ?_ ?_
    · rw [isOpenAt_succ_iff_of_not_inDocString hl hout, hof]
      exact hfence f
    · rintro ⟨lead, rest, hform⟩
      exact hstep lead rest (hof.symm.trans (hform.of_eq hl))
    · intro hform
      exact hunrecognized (hof.symm.trans (hform.of_eq hl))
  have hstay : ∀ {k : LineKind}, LineKind.of (Text.trim l) = k → (∀ f, k ≠ .fence f) →
      (∀ lead rest, k ≠ .step lead rest) → k ≠ .unrecognized →
      Reader.HasRead { r with linesRead := r.linesRead + 1 } ls (n + 1) := by
    intro k hof hfence hstep hunrecognized
    refine hpass r.openFence hof (fun f => ?_) hstep hunrecognized
    rw [hnone]
    exact iff_of_false (fun hf => nomatch hf) (hfence f)
  -- The numbers of a new step and of a new record count the lines read.
  obtain rfl := h.linesRead
  unfold Reader.readOutside
  cases hof : LineKind.of (Text.trim l) with
  | fence f => exact hpass (some f) hof (fun g => by simp) (by simp) (by simp)
  | step lead rest =>
    have hread := h.readStep hl hout hof
    rw [← hnone] at hread
    exact hread
  | unrecognized =>
    have hread := h.readUnrecognized hl hout hof
    rw [← hnone] at hread
    exact hread
  | blank => exact hstay hof (by simp) (by simp) (by simp)
  | comment => exact hstay hof (by simp) (by simp) (by simp)
  | tag => exact hstay hof (by simp) (by simp) (by simp)
  | tableRow => exact hstay hof (by simp) (by simp) (by simp)
  | header => exact hstay hof (by simp) (by simp) (by simp)

theorem Reader.HasRead.read (h : r.HasRead ls n) (hl : ls[n]? = some l) :
    (r.read l).HasRead ls (n + 1) := by
  cases hfence : r.openFence with
  | some f =>
    have hread : r.read l =
        Reader.readInside { r with linesRead := r.linesRead + 1 } f (Text.trim l) := by
      simp only [Reader.read, hfence]
    rw [hread]
    exact h.readInside hl hfence
  | none =>
    have hread : r.read l =
        Reader.readOutside { r with linesRead := r.linesRead + 1 } (Text.trim l) := by
      simp only [Reader.read, hfence]
    rw [hread]
    exact h.readOutside hl hfence

theorem hasRead_foldl_take (ls : List Text) (hn : n ≤ ls.length) :
    ((ls.take n).foldl Reader.read Reader.start).HasRead ls n := by
  induction n with
  | zero => exact hasRead_start ls
  | succ n ih =>
    have hl : ls[n]? = some ls[n] := List.getElem?_eq_getElem hn
    rw [List.take_add_one, hl, Option.toList_some, List.foldl_append]
    exact (ih (Nat.le_of_succ_le hn)).read hl

theorem hasRead_foldl (ls : List Text) :
    (ls.foldl Reader.read Reader.start).HasRead ls ls.length := by
  have h := hasRead_foldl_take ls (Nat.le_refl _)
  rwa [List.take_length] at h

/-! ## The whole file -/

/-- Is this what the lines hold?  There is one step for each step line and one record for each
unrecognized line, both in order. -/
structure IsExtractionOf (ls : List Text) (e : Extraction) : Prop where
  steps : List.Forall₂ (Describes ls) (indicesBelow ls.length (IsStepAt ls)) e.steps
  skipped : List.Forall₂ (Names ls) (indicesBelow ls.length (HasForm ls · .unrecognized)) e.skipped
  totalLines : e.totalLines = ls.length
  endsInDocString : e.endsInDocString = true ↔ InDocString ls ls.length

theorem isExtractionOf_extract (content : Text) :
    IsExtractionOf (Text.lines content) (extract content) := by
  have h := hasRead_foldl (Text.lines content)
  exact ⟨h.steps, h.skipped, h.linesRead, h.inDocString_iff.symm⟩

variable {e : Extraction}

theorem IsExtractionOf.exists_describes (h : IsExtractionOf ls e) {s : Step}
    (hs : s ∈ e.steps) : ∃ i, Describes ls i s := by
  obtain ⟨k, hk, rfl⟩ := List.getElem_of_mem hs
  exact ⟨_, h.steps.get (h.steps.length_eq ▸ hk) hk⟩

theorem IsExtractionOf.map_line_steps (h : IsExtractionOf ls e) :
    e.steps.map Step.line = (indicesBelow ls.length (IsStepAt ls)).map (· + 1) := by
  have hforall : List.Forall₂ (fun i s => i + 1 = s.line)
      (indicesBelow ls.length (IsStepAt ls)) e.steps := h.steps.imp fun _ _ hs => hs.line.symm
  rw [← List.forall₂_eq_eq_eq, List.forall₂_map_left_iff, List.forall₂_map_right_iff]
  exact hforall.flip.imp fun _ _ hs => hs.symm

/-- The numbers of the steps grow, and each is the number of a line. -/
theorem IsExtractionOf.pairwise_lt (h : IsExtractionOf ls e) :
    e.steps.Pairwise fun s t => s.line < t.line := by
  rw [← List.pairwise_map (f := Step.line), h.map_line_steps]
  exact (pairwise_indicesBelow _ _).map _ fun _ _ hlt => Nat.add_lt_add_right hlt 1

theorem IsExtractionOf.line_mem (h : IsExtractionOf ls e) {s : Step} (hs : s ∈ e.steps) :
    1 ≤ s.line ∧ s.line ≤ e.totalLines := by
  have hmem : s.line ∈ e.steps.map Step.line := List.mem_map_of_mem hs
  rw [h.map_line_steps] at hmem
  obtain ⟨i, hi, heq⟩ := List.mem_map.mp hmem
  have hlt := lt_of_mem_indicesBelow hi
  rw [h.totalLines, ← heq]
  omega

/-- Reading a feature file accepts exactly the line grammar: a line outside doc strings has one
form, the steps that are read are those of the step lines, with numbers that grow up to the number
of lines, and what is passed over is counted line by line. -/
theorem extract_accepts_grammar (content : Text) :
    (∀ i < (Text.lines content).length, IsOutside (Text.lines content) i →
      (∃! k, HasForm (Text.lines content) i k) ∧
        ∀ f, ¬ HasForm (Text.lines content) i (.fence f)) ∧
    IsExtractionOf (Text.lines content) (extract content) ∧
    (extract content).steps.Pairwise (fun s t => s.line < t.line) ∧
    (∀ s ∈ (extract content).steps, 1 ≤ s.line ∧ s.line ≤ (extract content).totalLines) ∧
    (extract content).skipped.length =
      (indicesBelow (Text.lines content).length
        (HasForm (Text.lines content) · .unrecognized)).length := by
  have h := isExtractionOf_extract content
  refine ⟨fun i hi hout => hout.existsUnique_hasForm hi, h, h.pairwise_lt, fun s => h.line_mem, ?_⟩
  exact h.skipped.length_eq.symm

/-- An `And` continues the phase before it also across a doc string, whose lines are no steps. -/
example :
    (extract "When sent
```
Then no step
```
And held :
oops".toList).steps.map
        (fun s => (s.phase, String.ofList s.text, s.hasTable, s.line)) =
      [(.action, "sent", false, 1), (.action, "held", true, 5)] := by
  decide

end Feature
end StepStubs
