/-
No numeral is left in a pattern.

The pass for numerals goes from run to run: a run of digits becomes a slot if it stands alone and
stays as it is otherwise (`numeralsFrom_run`).  So each run that is left has a word character beside
it.  The word character stays there: all that the later passes and the writing of the pattern put in
some place, they put in the place of pieces that are no word characters, and it has no digits.
`Respells` is this relation between a draft and what becomes of it, and `Respells.numeralFree` says
that it brings in no numeral.
-/
import StepStubs.Proofs.Expression.Instance
import StepStubs.Proofs.Text.Numeral

namespace StepStubs
namespace Expression

open Text (StandsAlone IsNumeral Segment segmentsFrom joinSegments replaceSpans)

/-! ## The pass, run by run -/

/-- What the pass for numerals makes of a draft behind a piece. -/
def numeralsFrom (before : Option Piece) (d : Draft) : Draft :=
  joinSegments (fun _ => [.slot .number]) (segmentsFrom numeralSpan before 0 d)

theorem apply_numerals (d : Draft) : Pass.numerals.apply d = numeralsFrom none d := rfl

theorem isWord_of_isDigit {p : Piece} (h : p.isDigit = true) : p.isWord = true := by
  cases p with
  | char c => exact Text.isWord_of_isDigit h
  | slot q => exact h

section Runs

variable {before : Option Piece} {p : Piece} {d run : Draft}

theorem numeralsFrom_of_kept (h : numeralSpan before (p :: d) = none) :
    numeralsFrom before (p :: d) = p :: numeralsFrom (some p) d := by
  rw [numeralsFrom, Text.segmentsFrom_kept h, joinSegments, numeralsFrom]

theorem numeralsFrom_cons (hp : p.isDigit = false) (before : Option Piece) (d : Draft) :
    numeralsFrom before (p :: d) = p :: numeralsFrom (some p) d := by
  refine numeralsFrom_of_kept ?_
  rw [numeralSpan, List.takeWhile_cons_of_neg (by rw [hp]; exact Bool.false_ne_true)]
  rfl

/-- Digits behind a word character are kept. -/
theorem numeralsFrom_kept_run (hbefore : before.any Piece.isWord = true)
    (hrun : ∀ p ∈ run, p.isDigit = true) (d : Draft) :
    numeralsFrom before (run ++ d) = run ++ numeralsFrom (run.getLast?.or before) d := by
  induction run generalizing before with
  | nil => rfl
  | cons p run ih =>
    have hp := hrun p List.mem_cons_self
    have hkept : numeralSpan before (p :: (run ++ d)) = none := by
      rw [numeralSpan, hbefore, Bool.or_true, Bool.true_or, if_pos rfl]
    have hword : (some p).any Piece.isWord = true := isWord_of_isDigit hp
    rw [List.cons_append, numeralsFrom_of_kept hkept,
      ih hword fun q hq => hrun q (List.mem_cons_of_mem p hq), Text.getLast?_cons_or,
      List.cons_append]

theorem numeralSpan_run (before : Option Piece) (hne : run ≠ []) (hrun : ∀ p ∈ run, p.isDigit = true)
    (hd : d.head?.any Piece.isDigit = false) :
    numeralSpan before (run ++ d) =
      if before.any Piece.isWord || d.head?.any Piece.isWord then none
      else some (run.length - 1) := by
  have hempty : run.isEmpty = false := by simpa using hne
  rw [numeralSpan, Text.takeWhile_run hrun hd, List.drop_left, hempty, Bool.false_or]

/-- A run of digits becomes a slot if it stands alone. -/
theorem numeralsFrom_run (hne : run ≠ []) (hrun : ∀ p ∈ run, p.isDigit = true)
    (hd : d.head?.any Piece.isDigit = false) (before : Option Piece) :
    numeralsFrom before (run ++ d) =
      (if before.any Piece.isWord || d.head?.any Piece.isWord then run else [.slot .number]) ++
        numeralsFrom run.getLast? d := by
  have hspan := numeralSpan_run before hne hrun hd
  obtain ⟨p, run, rfl⟩ := List.exists_cons_of_ne_nil hne
  rw [List.cons_append] at hspan ⊢
  by_cases hword : (before.any Piece.isWord || d.head?.any Piece.isWord) = true
  · have hlast := Text.getLast?_cons_or p run none
    rw [Option.or_none] at hlast
    have hp : (some p).any Piece.isWord = true := isWord_of_isDigit (hrun p List.mem_cons_self)
    rw [if_pos hword] at hspan ⊢
    rw [numeralsFrom_of_kept hspan,
      numeralsFrom_kept_run hp fun q hq => hrun q (List.mem_cons_of_mem p hq), hlast,
      List.cons_append]
  · rw [if_neg hword, List.length_cons, Nat.add_sub_cancel] at hspan
    rw [if_neg hword, numeralsFrom, Text.segmentsFrom_span hspan, joinSegments, numeralsFrom]

/-- A draft that starts with no digit is read in the same way behind any piece. -/
theorem numeralsFrom_of_head (hd : d.head?.any Piece.isDigit = false)
    (before before' : Option Piece) : numeralsFrom before d = numeralsFrom before' d := by
  cases d with
  | nil => rfl
  | cons p d => rw [numeralsFrom_cons hd, numeralsFrom_cons hd]

theorem head?_numeralsFrom (hd : d.head?.any Piece.isDigit = false) (before : Option Piece) :
    (numeralsFrom before d).head? = d.head? := by
  cases d with
  | nil => rfl
  | cons p d => rw [numeralsFrom_cons hd]; rfl

/-- Of the piece before a draft only matters whether it is a word character. -/
theorem numeralsFrom_congr {before' : Option Piece}
    (h : before.any Piece.isWord = before'.any Piece.isWord) (d : Draft) :
    numeralsFrom before d = numeralsFrom before' d := by
  cases d with
  | nil => rfl
  | cons p d =>
    have hspan : numeralSpan before (p :: d) = numeralSpan before' (p :: d) := by
      rw [numeralSpan, numeralSpan, h]
    rw [numeralsFrom, numeralsFrom, segmentsFrom, segmentsFrom, hspan]

/-- A draft is read in two parts if no run of digits that goes up to the cut has a word character
behind it. -/
theorem numeralsFrom_append {x y : Draft}
    (h : x.getLast?.any Piece.isDigit = false ∨ y.head?.any Piece.isWord = false)
    (before : Option Piece) :
    numeralsFrom before (x ++ y) =
      numeralsFrom before x ++ numeralsFrom (x.getLast?.or before) y := by
  induction x using Text.runInduction Piece.isDigit generalizing before with
  | nil => rfl
  | other p x hp ih =>
    have hx : x.getLast?.any Piece.isDigit = false ∨ y.head?.any Piece.isWord = false := by
      refine h.imp_left fun h => ?_
      cases hx : x.getLast? with
      | none => rfl
      | some q => simpa [List.getLast?_cons, hx] using h
    rw [List.cons_append, numeralsFrom_cons hp, ih hx, numeralsFrom_cons hp, Text.getLast?_cons_or,
      List.cons_append]
  | run digits x hne hdigits hx ih =>
    cases x with
    | nil =>
      have hlast : ∃ q, digits.getLast? = some q ∧ q.isDigit = true := by
        obtain ⟨q, hq⟩ := Option.isSome_iff_exists.mp (List.getLast?_isSome.mpr hne)
        exact ⟨q, hq, hdigits q (List.mem_of_getLast? hq)⟩
      obtain ⟨q, hq, hdigit⟩ := hlast
      have hy : y.head?.any Piece.isWord = false := by
        refine h.resolve_left fun h => ?_
        rw [List.append_nil, hq, Option.any_some, hdigit] at h
        exact Bool.noConfusion h
      have hy' : y.head?.any Piece.isDigit = false := by
        cases hhead : y.head? with
        | none => rfl
        | some r =>
          rw [hhead, Option.any_some] at hy
          exact Bool.eq_false_iff.mpr fun hr =>
            Bool.false_ne_true (hy.symm.trans (isWord_of_isDigit hr))
      have hnil : ([] : Draft).head?.any Piece.isDigit = false := rfl
      have hrun := numeralsFrom_run hne hdigits hnil before
      rw [List.append_nil] at hrun ⊢
      rw [numeralsFrom_run hne hdigits hy', hrun, hy, hq]
      simp [numeralsFrom, segmentsFrom, joinSegments]
    | cons r x =>
      obtain ⟨q, hq⟩ := Option.isSome_iff_exists.mp (List.getLast?_isSome.mpr (List.cons_ne_nil r x))
      have hxy : (r :: x ++ y).head?.any Piece.isDigit = false := hx
      have hlast : (digits ++ r :: x).getLast? = some q := by
        rw [List.getLast?_append, hq, Option.some_or]
      rw [hlast] at h ⊢
      rw [hq] at ih
      rw [List.append_assoc, numeralsFrom_run hne hdigits hxy, numeralsFrom_run hne hdigits hx,
        ih h, List.append_assoc]
      rfl

theorem numeralsFrom_of_no_digits (hd : ∀ p ∈ d, p.isDigit = false) (before : Option Piece) :
    numeralsFrom before d = d := by
  induction d generalizing before with
  | nil => rfl
  | cons p d ih =>
    rw [numeralsFrom_cons (hd p List.mem_cons_self),
      ih fun q hq => hd q (List.mem_cons_of_mem p hq)]

end Runs

/-! ## Drafts without numerals -/

/-- Does no run of digits of the draft stand alone? -/
def NumeralFree (d : Draft) : Prop :=
  ∀ before run after, d = before ++ run ++ after →
    ¬ StandsAlone Piece.isDigit Piece.isWord before run after

/-- A run of digits does not begin where the draft goes on with another piece. -/
theorem numeralsFrom_ne_run {before : Option Piece} {d run y : Draft}
    (hd : d.head?.any Piece.isDigit = false) (hne : run ≠ [])
    (hrun : ∀ p ∈ run, p.isDigit = true) : numeralsFrom before d ≠ run ++ y := by
  intro heq
  obtain ⟨p, run, rfl⟩ := List.exists_cons_of_ne_nil hne
  have hhead := head?_numeralsFrom hd before
  rw [heq, List.cons_append, List.head?_cons] at hhead
  rw [← hhead, Option.any_some, hrun p List.mem_cons_self] at hd
  exact Bool.noConfusion hd

/-- Where digits are followed by a word character, no run of them is followed by another piece. -/
theorem any_isWord_of_run_eq {before : Option Piece} {d digits run y : Draft}
    (h : run ++ y = digits ++ numeralsFrom before d) (hd : d.head?.any Piece.isDigit = false)
    (hdigits : ∀ p ∈ digits, p.isDigit = true) (hword : d.head?.any Piece.isWord = true)
    (hrun : ∀ p ∈ run, p.isDigit = true) : y.head?.any Piece.isWord = true := by
  rcases List.append_eq_append_iff.mp h with ⟨rest, rfl, rfl⟩ | ⟨rest, rfl, hrest⟩
  · cases rest with
    | nil => rwa [List.nil_append, head?_numeralsFrom hd]
    | cons p rest => exact isWord_of_isDigit (hdigits p (by simp))
  · cases rest with
    | nil => rwa [← List.nil_append y, ← hrest, head?_numeralsFrom hd]
    | cons p rest =>
      exact absurd hrest (numeralsFrom_ne_run hd (List.cons_ne_nil p rest)
        fun q hq => hrun q (List.mem_append_right _ hq))

/-- In what the pass leaves of a draft behind a piece, a run of digits that has no word character
before it has one after it. -/
theorem any_isWord_of_numeralsFrom_eq {before : Option Piece} {d x run y : Draft}
    (h : numeralsFrom before d = x ++ (run ++ y)) (hne : run ≠ [])
    (hrun : ∀ p ∈ run, p.isDigit = true) (hx : (x.getLast?.or before).any Piece.isWord = false) :
    y.head?.any Piece.isWord = true := by
  induction d using Text.runInduction Piece.isDigit generalizing before x with
  | nil =>
    have hnil := (List.append_eq_nil_iff.mp h.symm).2
    exact absurd (List.append_eq_nil_iff.mp hnil).1 hne
  | other p d hp ih =>
    cases x with
    | nil =>
      rw [List.nil_append] at h
      exact absurd h (numeralsFrom_ne_run hp hne hrun)
    | cons q x =>
      rw [numeralsFrom_cons hp, List.cons_append] at h
      obtain ⟨rfl, htail⟩ := List.cons.inj h
      refine ih htail ?_
      rw [List.getLast?_cons] at hx
      cases hlast : x.getLast? <;> simpa [hlast] using hx
  | run digits d hdigitsne hdigits hd ih =>
    rw [numeralsFrom_run hdigitsne hdigits hd] at h
    rcases List.append_eq_append_iff.mp h with ⟨rest, rfl, hrest⟩ | ⟨rest, hpre, hrest⟩
    · -- The run stands in what the rest of the draft became.
      cases hlast : rest.getLast? with
      | none =>
        rw [List.getLast?_eq_none_iff.mp hlast, List.nil_append] at hrest
        exact absurd hrest (numeralsFrom_ne_run hd hne hrun)
      | some p =>
        rw [List.getLast?_append, hlast] at hx
        refine ih hrest ?_
        rw [hlast]
        exact hx
    · cases rest with
      | nil =>
        rw [List.nil_append] at hrest
        exact absurd hrest.symm (numeralsFrom_ne_run hd hne hrun)
      | cons p rest =>
        by_cases hword : (before.any Piece.isWord || d.head?.any Piece.isWord) = true
        · -- The digits were kept, and none of them stands before the run.
          rw [if_pos hword] at hpre
          have hxnil : x = [] := by
            cases hlast : x.getLast? with
            | none => exact List.getLast?_eq_none_iff.mp hlast
            | some q =>
              have hq : q ∈ digits := hpre ▸ List.mem_append_left _ (List.mem_of_getLast? hlast)
              rw [hlast, Option.some_or, Option.any_some, isWord_of_isDigit (hdigits q hq)] at hx
              exact Bool.noConfusion hx
          rw [hxnil, List.nil_append] at hpre
          rw [hxnil, List.getLast?_nil, Option.none_or] at hx
          rw [hx, Bool.false_or] at hword
          rw [← hpre] at hrest
          exact any_isWord_of_run_eq hrest hd hdigits hword hrun
        · -- The digits became a slot, and no run begins there.
          rw [if_neg hword] at hpre
          obtain ⟨-, hslot⟩ := List.append_eq_singleton_iff.mp hpre.symm |>.resolve_right (by simp)
          obtain ⟨q, run, rfl⟩ := List.exists_cons_of_ne_nil hne
          have hq := hrun q List.mem_cons_self
          rw [hslot] at hrest
          rw [(List.cons.inj hrest).1] at hq
          exact Bool.noConfusion hq

/-- The pass leaves no numeral. -/
theorem numeralFree_numerals (d : Draft) : NumeralFree (Pass.numerals.apply d) := by
  intro before run after h hrun
  rw [apply_numerals, List.append_assoc] at h
  have hleft : (before.getLast?.or none).any Piece.isWord = false := by
    rw [Option.or_none]
    exact hrun.left
  have hright := any_isWord_of_numeralsFrom_eq h hrun.nonempty hrun.digits hleft
  rw [hrun.right] at hright
  exact Bool.noConfusion hright

/-! ## Other spellings -/

/-- Is the second draft the first one with other pieces, none of them a digit, for some that are no
word characters? -/
inductive Respells : Draft → Draft → Prop where
  | nil : Respells [] []
  | word {p : Piece} {d e : Draft} (hp : p.isWord = true) (h : Respells d e) :
    Respells (p :: d) (p :: e)
  | gap {p : Piece} {g d e : Draft} (hp : p.isWord = false) (hne : g ≠ [])
    (hg : ∀ q ∈ g, q.isDigit = false) (h : Respells d e) : Respells (p :: d) (g ++ e)

namespace Respells

variable {d e d' e' : Draft}

theorem cons (p : Piece) (h : Respells d e) : Respells (p :: d) (p :: e) := by
  cases hp : p.isWord with
  | true => exact .word hp h
  | false =>
    refine .gap (g := [p]) hp (List.cons_ne_nil _ _) (fun q hq => ?_) h
    rw [List.mem_singleton.mp hq]
    exact Bool.eq_false_iff.mpr fun hdigit =>
      Bool.false_ne_true (hp.symm.trans (isWord_of_isDigit hdigit))

theorem refl (d : Draft) : Respells d d := by
  induction d with
  | nil => exact .nil
  | cons p d ih => exact .cons p ih

theorem append (h : Respells d e) (h' : Respells d' e') : Respells (d ++ d') (e ++ e') := by
  induction h with
  | nil => exact h'
  | word hp _ ih => exact .word hp ih
  | gap hp hne hg _ ih =>
    rw [List.append_assoc]
    exact .gap hp hne hg ih

/-- The same digits are in both drafts. -/
theorem countP_isDigit (h : Respells d e) : d.countP Piece.isDigit = e.countP Piece.isDigit := by
  induction h with
  | nil => rfl
  | word _ _ ih => rw [List.countP_cons, List.countP_cons, ih]
  | @gap p g d e hp hne hg _ ih =>
    have hp' : ¬ p.isDigit = true := fun hdigit =>
      Bool.false_ne_true (hp.symm.trans (isWord_of_isDigit hdigit))
    have hg' : g.countP Piece.isDigit = 0 := List.countP_eq_zero.mpr fun q hq => by simp [hg q hq]
    rw [List.countP_cons_of_neg hp', List.countP_append, hg', Nat.zero_add, ih]

theorem getLast? (h : Respells d e) {p : Piece} (hp : d.getLast? = some p)
    (hword : p.isWord = true) : e.getLast? = some p := by
  induction h with
  | nil => exact nomatch hp
  | @word q d e hq h ih =>
    rw [List.getLast?_cons] at hp ⊢
    cases hd : d.getLast? with
    | none =>
      rw [List.getLast?_eq_none_iff.mp hd] at h
      cases h
      simpa [hd] using hp
    | some r => rw [ih (by simpa [hd] using hp)]; rfl
  | @gap q g d e hq hne hg h ih =>
    rw [List.getLast?_cons] at hp
    cases hd : d.getLast? with
    | none =>
      rw [hd, Option.getD_none] at hp
      rw [Option.some.inj hp, hword] at hq
      exact Bool.noConfusion hq
    | some r =>
      rw [List.getLast?_append, ih (by simpa [hd] using hp)]
      rfl

theorem head? (h : Respells d e) {p : Piece} (hp : d.head? = some p) (hword : p.isWord = true) :
    e.head? = some p := by
  cases h with
  | nil => exact nomatch hp
  | word _ _ => exact hp
  | gap hq _ _ _ =>
    rw [Option.some.inj hp, hword] at hq
    exact Bool.noConfusion hq

/-- A digit of the second draft stands in the first at the same place. -/
theorem exists_of_append_cons {p : Piece} {x y : Draft} (h : Respells d (x ++ p :: y))
    (hp : p.isDigit = true) : ∃ x' y', d = x' ++ p :: y' ∧ Respells x' x ∧ Respells y' y := by
  generalize he : x ++ p :: y = e at h
  induction h generalizing x with
  | nil => simp at he
  | @word q d e hq h ih =>
    cases x with
    | nil =>
      obtain ⟨rfl, rfl⟩ := List.cons.inj he
      exact ⟨[], d, rfl, .nil, h⟩
    | cons r x =>
      obtain ⟨rfl, rfl⟩ := List.cons.inj he
      obtain ⟨x', y', rfl, hx, hy⟩ := ih rfl
      exact ⟨r :: x', y', rfl, .word hq hx, hy⟩
  | @gap q g d e hq hne hg h ih =>
    rcases List.append_eq_append_iff.mp he with ⟨rest, rfl, hrest⟩ | ⟨rest, rfl, hrest⟩
    · cases rest with
      | nil =>
        rw [List.nil_append] at hrest
        obtain ⟨x', y', rfl, hx, hy⟩ := ih (x := []) hrest
        rw [List.append_nil] at hne hg
        exact ⟨q :: x', y', rfl, by simpa using Respells.gap hq hne hg hx, hy⟩
      | cons r rest =>
        have hr := hg r (by simp)
        rw [← (List.cons.inj hrest).1, hp] at hr
        exact Bool.noConfusion hr
    · obtain ⟨x', y', rfl, hx, hy⟩ := ih hrest.symm
      exact ⟨q :: x', y', rfl, .gap hq hne hg hx, hy⟩

theorem eq_nil (h : Respells d []) : d = [] := by
  generalize he : ([] : Draft) = e at h
  cases h with
  | nil => rfl
  | word _ _ => exact nomatch he
  | gap _ hne _ _ => exact absurd (List.append_eq_nil_iff.mp he.symm).1 hne

/-- A run of digits at the start of the second draft stands at the start of the first. -/
theorem exists_of_append_run {run y : Draft} (h : Respells d (run ++ y))
    (hrun : ∀ p ∈ run, p.isDigit = true) : ∃ y', d = run ++ y' ∧ Respells y' y := by
  induction run generalizing d with
  | nil => exact ⟨d, rfl, h⟩
  | cons p run ih =>
    obtain ⟨x', y', rfl, hx, hy⟩ := exists_of_append_cons (x := []) h (hrun p List.mem_cons_self)
    obtain ⟨y'', rfl, hy''⟩ := ih hy fun q hq => hrun q (List.mem_cons_of_mem p hq)
    rw [hx.eq_nil]
    exact ⟨y'', rfl, hy''⟩

/-- Another spelling brings in no numeral. -/
theorem numeralFree (h : Respells d e) (hd : NumeralFree d) : NumeralFree e := by
  intro before run after heq hrun
  obtain ⟨p, run, rfl⟩ := List.exists_cons_of_ne_nil hrun.nonempty
  rw [heq, List.append_assoc, List.cons_append] at h
  obtain ⟨before', rest, rfl, hbefore, hrest⟩ :=
    h.exists_of_append_cons (hrun.digits p List.mem_cons_self)
  obtain ⟨after', rfl, hafter⟩ :=
    hrest.exists_of_append_run fun q hq => hrun.digits q (List.mem_cons_of_mem p hq)
  refine hd before' (p :: run) after' (by simp) ⟨hrun.nonempty, hrun.digits, ?_, ?_⟩
  · cases hp : before'.getLast? with
    | none => rfl
    | some q =>
      cases hq : q.isWord with
      | false => exact hq
      | true => rw [← hrun.left, hbefore.getLast? hp hq]
  · cases hp : after'.head? with
    | none => rfl
    | some q =>
      cases hq : q.isWord with
      | false => exact hq
      | true => rw [← hrun.right, hafter.head? hp hq]

end Respells

/-! ## After the pass for numerals -/

theorem isDigit_eq_false_of_isWord {p : Piece} (h : p.isWord = false) : p.isDigit = false :=
  Bool.eq_false_iff.mpr fun hdigit =>
    Bool.false_ne_true (h.symm.trans (isWord_of_isDigit hdigit))

theorem respells_readSlashes (d : Draft) : Respells d (readSlashes d) := by
  induction d with
  | nil => exact .nil
  | cons p d ih =>
    rw [readSlashes, List.flatMap_cons]
    by_cases hp : p = .char '/'
    · rw [if_pos hp, hp]
      exact .gap (by decide) (by decide) (by decide) ih
    · rw [if_neg hp]
      exact .cons p ih

theorem respells_sweepAlternatives (d : Draft) : Respells d (sweepAlternatives d) := by
  have hjoin : ∀ ss : List (Segment Piece),
      Respells (ss.flatMap Segment.elements) (joinSegments readSlashes ss) := by
    intro ss
    induction ss with
    | nil => exact .nil
    | cons s ss ih =>
      cases s with
      | kept p => exact .cons p ih
      | span span => exact (respells_readSlashes span).append ih
  have hd := hjoin (Text.segments alternativeSpan d)
  rwa [Text.flatten_segments] at hd

theorem respells_escape {special : Piece → Bool}
    (hspecial : ∀ p, special p = true → p.isWord = false) (d : Draft) :
    Respells d (Text.escape (.char '\\') special d) := by
  have hfrom : ∀ (escaped : Bool) (d : Draft),
      Respells d (Text.escapeFrom (.char '\\') special escaped d) := by
    intro escaped d
    induction d generalizing escaped with
    | nil => cases escaped <;> exact .nil
    | cons p d ih =>
      cases escaped with
      | true => exact .cons p (ih false)
      | false =>
        rw [Text.escapeFrom]
        by_cases hp : p = .char '\\'
        · rw [if_pos hp]
          exact .cons p (ih true)
        · rw [if_neg hp]
          by_cases hs : special p = true
          · rw [if_pos hs]
            refine .gap (g := [.char '\\', p]) (hspecial p hs) (List.cons_ne_nil _ _) ?_ (ih false)
            intro q hq
            rcases List.mem_cons.mp hq with rfl | hq
            · decide
            · rw [List.mem_singleton.mp hq]
              exact isDigit_eq_false_of_isWord (hspecial p hs)
          · rw [if_neg hs]
            exact .cons p (ih false)
  exact hfrom false d

theorem respells_patternFrom (escaped : Bool) (d : Draft) :
    Respells d (Draft.ofChars (Draft.patternFrom escaped d)) := by
  induction d generalizing escaped with
  | nil => cases escaped <;> exact .nil
  | cons p d ih =>
    cases p with
    | slot q =>
      have hpattern : Draft.patternFrom escaped (.slot q :: d) =
          q.placeholder ++ Draft.patternFrom false d := by cases escaped <;> rfl
      rw [hpattern, Draft.ofChars, List.map_append]
      refine .gap rfl ?_ ?_ (ih false) <;> cases q <;> decide
    | char c =>
      cases escaped with
      | true => exact .cons _ (ih false)
      | false =>
        by_cases hb : c = '\\'
        · rw [hb, patternFrom_backslash]
          split
          · exact .cons _ (ih true)
          · exact .gap (g := [.char '\\', .char '\\']) (by decide) (by decide) (by decide) (ih false)
        · by_cases hbrace : c = '\x7b' ∨ c = '\x7d'
          · rw [patternFrom_brace hbrace]
            refine .gap (g := [.char '\\', .char c]) ?_ (by simp) ?_ (ih false) <;>
              rcases hbrace with rfl | rfl <;> decide
          · rw [Draft.patternFrom, if_neg hb, if_neg hbrace]
            exact .cons _ (ih false)

/-- The draft of a text whose groups were opened. -/
def opened (t : Text) : Draft := Pass.slashGroups.apply (Pass.numericGroups.apply (quoted t))

theorem draft_eq_opened (t : Text) :
    draft t = Pass.brackets.apply (Pass.slashes.apply (Pass.numerals.apply (opened t))) := by
  simp only [draft, Pass.all, List.foldl_cons, List.foldl_nil, opened, quoted]

/-- What holds of a draft after the pass for numerals, and of any other spelling of a draft that it
holds of, holds of the pattern. -/
theorem ofChars_compile_of_respells {P : Draft → Prop} (hP : ∀ {d e}, Respells d e → P d → P e)
    {t : Text} (ht : P (Pass.numerals.apply (opened t))) : P (Draft.ofChars (compile t).text) := by
  have hsettle : P (settleAlternatives (Pass.numerals.apply (opened t))) :=
    settle_of_step (fun d => hP (respells_sweepAlternatives d)) _ ht
  have hslashes : P (Pass.slashes.apply (Pass.numerals.apply (opened t))) := by
    refine hP (respells_escape (fun p hp => ?_) _) hsettle
    rw [eq_of_beq hp]
    decide
  have hbrackets : P (draft t) := by
    rw [draft_eq_opened]
    refine hP (respells_escape (fun p hp => ?_) _) hslashes
    rcases (Bool.or_eq_true _ _).mp hp with hp | hp <;> rw [eq_of_beq hp] <;> decide
  simp only [compile, Draft.finish, Draft.patternText]
  exact hP (respells_patternFrom false _) hbrackets

theorem numeralFree_compile (t : Text) : NumeralFree (Draft.ofChars (compile t).text) :=
  ofChars_compile_of_respells (P := NumeralFree) (fun h => h.numeralFree) (numeralFree_numerals _)

/-- No numeral is left in a pattern. -/
theorem not_isNumeral_compile {t before digits after : Text}
    (h : (compile t).text = before ++ digits ++ after) : ¬ IsNumeral before digits after := by
  intro hnumeral
  refine numeralFree_compile t (Draft.ofChars before) (Draft.ofChars digits) (Draft.ofChars after)
    (by rw [h, Draft.ofChars, List.map_append, List.map_append]; rfl) ⟨?_, ?_, ?_, ?_⟩
  · simpa [Draft.ofChars] using hnumeral.nonempty
  · intro p hp
    obtain ⟨c, hc, rfl⟩ := List.mem_map.mp hp
    exact hnumeral.digits c hc
  · rw [Draft.ofChars, List.getLast?_map, Option.any_map]
    exact hnumeral.left
  · rw [Draft.ofChars, List.head?_map, Option.any_map]
    exact hnumeral.right

/-- The digits of a pattern are those that the pass for numerals leaves. -/
theorem countP_isDigit_compile (t : Text) :
    (Draft.ofChars (compile t).text).countP Piece.isDigit =
      (Pass.numerals.apply (opened t)).countP Piece.isDigit :=
  ofChars_compile_of_respells
    (P := fun e => e.countP Piece.isDigit = (Pass.numerals.apply (opened t)).countP Piece.isDigit)
    (fun h hd => h.countP_isDigit.symm.trans hd) rfl

end Expression
end StepStubs
