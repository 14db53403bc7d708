/-
The characters that a writer of YAML leaves, and the positions after them.

Every character that is written may stand in a YAML text and is no line end that would be
unified, so a written text is read as it is.  A position is followed by its column: that is all
that indentation depends on.
-/
import StepStubs.Yaml.Cursor
import StepStubs.Yaml.Scalar

namespace StepStubs
namespace Yaml

/-- A condition on every character of a text is computed. -/
theorem forall_mem_of_all {P : Char → Prop} [DecidablePred P] {t : Text}
    (h : t.all (fun c => decide (P c)) = true) : ∀ c ∈ t, P c :=
  fun c hc => of_decide_eq_true (List.all_eq_true.mp h c hc)

/-! ## Characters that are read as they are -/

/-- May the character stand in a YAML text, and is it left as it is when line ends are
unified? -/
def IsKept (c : Char) : Prop := isAllowed c = true ∧ c ≠ '\r' ∧ c ≠ '\x85'

instance (c : Char) : Decidable (IsKept c) := inferInstanceAs (Decidable (_ ∧ _))

theorem unifyBreaks_of_isKept {t : Text} (h : ∀ c ∈ t, IsKept c) : unifyBreaks t = t := by
  induction t with
  | nil => rfl
  | cons c t ih =>
    have hc := (h c List.mem_cons_self).2
    have ht := ih fun d hd => h d (List.mem_cons_of_mem c hd)
    unfold unifyBreaks
    split
    · next heq => exact absurd (List.cons.inj heq).1 hc.1
    · next heq => exact absurd (List.cons.inj heq).1 hc.1
    · next heq => exact absurd (List.cons.inj heq).1 hc.2
    · next heq =>
      obtain ⟨rfl, rfl⟩ := List.cons.inj heq
      rw [ht]
    · next heq => exact nomatch heq

theorem isKept_of_isPrintable {c : Char} (h : isPrintable c = true) : IsKept c := by
  refine ⟨?_, ?_, ?_⟩
  · simp only [isPrintable, isAllowed, Text.inRanges, List.any_cons, List.any_nil, Bool.or_false,
      Bool.or_eq_true, Bool.and_eq_true, decide_eq_true_eq] at h ⊢
    omega
  · rintro rfl
    exact absurd h (by decide)
  · rintro rfl
    exact absurd h (by decide)

/-- Of the characters that can be written as they are only the space is a gap. -/
theorem isGap_of_isPrintable {c : Char} (h : isPrintable c = true) (hspace : c ≠ ' ') :
    isGap c = false := by
  refine Bool.or_eq_false_iff.mpr ⟨decide_eq_false hspace, decide_eq_false ?_⟩
  rintro rfl
  exact absurd h (by decide)

theorem isGap_of_isBreak {c : Char} (h : isBreak c = true) : isGap c = false := by
  rw [Bool.eq_false_iff]
  intro hgap
  rcases Bool.or_eq_true_iff.mp hgap with hc | hc
  · rw [of_decide_eq_true hc] at h
    exact absurd h (by decide)
  · rw [of_decide_eq_true hc] at h
    exact absurd h (by decide)

theorem ne_of_isGap {c : Char} (h : isGap c = false) : c ≠ ' ' ∧ c ≠ '\t' := by
  obtain ⟨hspace, htab⟩ := Bool.or_eq_false_iff.mp h
  exact ⟨of_decide_eq_false hspace, of_decide_eq_false htab⟩

/-! ## Indented lines -/

def writeIndented (depth : Nat) (write : Char → Text) (atStart : Bool) (c : Char) : Text :=
  if isBreak c then [c] else (if atStart then indentation depth else []) ++ write c

theorem indentLines_cons (depth : Nat) (write : Char → Text) (atStart : Bool) (c : Char)
    (t : Text) :
    indentLines depth write atStart (c :: t) =
      writeIndented depth write atStart c ++ indentLines depth write (isBreak c) t := by
  rw [indentLines, writeIndented]
  cases isBreak c <;> rfl

/-! ## Neighbours -/

theorem hasPair_tail {p q : Char → Bool} {c : Char} {t : Text}
    (h : hasPair p q (c :: t) = false) : hasPair p q t = false := by
  cases t with
  | nil => rfl
  | cons d t => exact (Bool.or_eq_false_iff.mp h).2

theorem hasPair_head {p q : Char → Bool} {c : Char} {t : Text}
    (h : hasPair p q (c :: t) = false) (hp : p c = true) :
    (t.head?.map q).getD false = false := by
  cases t with
  | nil => rfl
  | cons d t =>
    have hpair := (Bool.or_eq_false_iff.mp h).1
    rwa [hp, Bool.true_and] at hpair

/-- What holds of the last character, or of the one before if there is none. -/
theorem map_getLast?_cons (p : Char → Bool) (c : Char) (t : Text) (before : Bool) :
    ((c :: t).getLast?.map p).getD before = (t.getLast?.map p).getD (p c) := by
  rw [List.getLast?_cons]
  cases t.getLast? <;> rfl

/-! ## Columns -/

theorem column_after (m : Mark) {c : Char} (h : isBreak c = false) :
    (m.after c).column = m.column + 1 := by
  rw [Mark.after, if_neg (by simp [h])]

theorem column_after_of_isBreak (m : Mark) {c : Char} (h : isBreak c = true) :
    (m.after c).column = 0 := by
  rw [Mark.after, if_pos h]

/-- Characters that end no line stay on the line. -/
theorem foldl_after {t : Text} (h : ∀ c ∈ t, isBreak c = false) (m : Mark) :
    t.foldl Mark.after m = ⟨m.line, m.column + t.length, m.index + t.length⟩ := by
  induction t generalizing m with
  | nil => rfl
  | cons c t ih =>
    rw [List.foldl_cons, ih (fun d hd => h d (List.mem_cons_of_mem c hd)), Mark.after,
      if_neg (by simp [h c List.mem_cons_self]), List.length_cons]
    simp only [Mark.mk.injEq, true_and]
    omega

theorem column_indentation (m : Mark) (k : Nat) :
    ((indentation k).foldl Mark.after m).column = m.column + k := by
  have hbreak : ∀ c ∈ indentation k, isBreak c = false := by
    intro c hc
    rw [List.eq_of_mem_replicate hc]
    decide
  rw [foldl_after hbreak, indentation, List.length_replicate]

/-- The text is at its end, or starts with a character that a token may start with: no gap, no
line end, no comment and no mark of the byte order. -/
def StartsToken (t : Text) : Prop :=
  ∀ c ∈ t.head?, isGap c = false ∧ isBreak c = false ∧ c ≠ '#' ∧ c ≠ '\ufeff'

namespace Cursor

theorem advance_append (m : Mark) (t u : Text) :
    (⟨m, t ++ u⟩ : Cursor).advance t.length = ⟨t.foldl Mark.after m, u⟩ := by
  rw [advance, List.take_left, List.drop_left]

theorem moveTo_append (m : Mark) (t u : Text) :
    (⟨m, t ++ u⟩ : Cursor).moveTo u = ⟨t.foldl Mark.after m, u⟩ := by
  rw [moveTo, ← advance_append]
  simp only [List.length_append, Nat.add_sub_cancel]

end Cursor
end Yaml
end StepStubs
