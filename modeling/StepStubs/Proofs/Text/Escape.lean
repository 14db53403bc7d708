/-
Escaping leaves nothing special unescaped.

`escapeFrom` and `isEscapedFrom` pair backslashes in the same way, from the left.  What
`escape` inserts is a backslash that escapes the element after it, so the pairing of all
that follows stays as it was; this is why escaping one class of elements after another is
escaping both at once (`escape_escape_eq`).

`unescape` reads an escaped special element as the element.  It cannot tell a list from the
escaped list, and of the lists that it reads alike one only is escaped
(`isEscaped_and_unescape_eq_iff`).
-/
import StepStubs.Text.Escape

namespace StepStubs
namespace Text

variable {α : Type} [DecidableEq α] {backslash : α} {special special' : α → Bool}

theorem isEscapedFrom_true_cons (a : α) (as : List α) :
    isEscapedFrom backslash special true (a :: as) = isEscapedFrom backslash special false as := by
  rw [isEscapedFrom]

theorem isEscapedFrom_escapeFrom (escaped : Bool) (as : List α) :
    isEscapedFrom backslash special escaped (escapeFrom backslash special escaped as) = true := by
  induction as generalizing escaped with
  | nil => cases escaped <;> rfl
  | cons a as ih =>
    cases escaped with
    | true => rw [escapeFrom, isEscapedFrom]; exact ih false
    | false =>
      rw [escapeFrom]
      by_cases hb : a = backslash
      · rw [if_pos hb, isEscapedFrom, if_pos hb]
        exact ih true
      · rw [if_neg hb]
        by_cases hs : special a = true
        · -- The backslash that is put in front escapes `a`.
          rw [if_pos hs, isEscapedFrom, if_pos rfl, isEscapedFrom]
          exact ih false
        · rw [if_neg hs, isEscapedFrom, if_neg hb, ih false, Bool.eq_false_iff.mpr hs]
          rfl

theorem isEscaped_escape (as : List α) :
    isEscaped backslash special (escape backslash special as) = true :=
  isEscapedFrom_escapeFrom false as

/-- Fewer elements have to be escaped. -/
theorem isEscapedFrom_of_imp (himp : ∀ a, special' a = true → special a = true) :
    ∀ {escaped : Bool} {as : List α}, isEscapedFrom backslash special escaped as = true →
      isEscapedFrom backslash special' escaped as = true := by
  intro escaped as
  induction as generalizing escaped with
  | nil => intro _; cases escaped <;> rfl
  | cons a as ih =>
    intro h
    cases escaped with
    | true => exact ih h
    | false =>
      rw [isEscapedFrom] at h ⊢
      split at h
      · next hb => rw [if_pos hb]; exact ih h
      · next hb =>
        rw [Bool.and_eq_true, Bool.not_eq_true'] at h
        have hspecial : special' a = false := Bool.eq_false_iff.mpr fun hs =>
          Bool.false_ne_true (h.1.symm.trans (himp a hs))
        rw [if_neg hb, hspecial, ih h.2]
        rfl

/-- Where nothing special is unescaped, escaping changes nothing. -/
theorem escapeFrom_of_isEscapedFrom :
    ∀ {escaped : Bool} {as : List α}, isEscapedFrom backslash special escaped as = true →
      escapeFrom backslash special escaped as = as := by
  intro escaped as
  induction as generalizing escaped with
  | nil => intro _; cases escaped <;> rfl
  | cons a as ih =>
    intro h
    cases escaped with
    | true => rw [escapeFrom, ih h]
    | false =>
      rw [isEscapedFrom] at h
      rw [escapeFrom]
      split at h
      · next hb => rw [if_pos hb, ih h]
      · next hb =>
        rw [Bool.and_eq_true, Bool.not_eq_true'] at h
        rw [if_neg hb, h.1, if_neg Bool.false_ne_true, ih h.2]

/-- A list is left as it is exactly if nothing special in it is unescaped. -/
theorem escape_eq_self_iff {as : List α} :
    escape backslash special as = as ↔ isEscaped backslash special as = true := by
  refine ⟨fun h => ?_, escapeFrom_of_isEscapedFrom⟩
  rw [← h]
  exact isEscaped_escape as

/-! ## Escaping twice -/

/-- The backslashes that are put in are pairs with the element after them, so the second escaping
goes over the list as it was before the first. -/
theorem escapeFrom_escapeFrom (escaped : Bool) (as : List α) :
    escapeFrom backslash special' escaped (escapeFrom backslash special escaped as) =
      escapeFrom backslash (fun a => special a || special' a) escaped as := by
  induction as generalizing escaped with
  | nil => cases escaped <;> rfl
  | cons a as ih =>
    cases escaped with
    | true => rw [escapeFrom, escapeFrom, escapeFrom, ih]
    | false =>
      rw [escapeFrom, escapeFrom]
      by_cases hb : a = backslash
      · rw [if_pos hb, if_pos hb, escapeFrom, if_pos hb, ih]
      · rw [if_neg hb, if_neg hb]
        by_cases hs : special a = true
        · rw [if_pos hs, escapeFrom, if_pos rfl, escapeFrom, hs, Bool.true_or, if_pos rfl, ih]
        · rw [if_neg hs, escapeFrom, if_neg hb, Bool.eq_false_iff.mpr hs, Bool.false_or, ih]

theorem escape_escape_eq (as : List α) :
    escape backslash special' (escape backslash special as) =
      escape backslash (fun a => special a || special' a) as := escapeFrom_escapeFrom false as

/-- Escaping one class of elements after another, in a list without backslashes, puts a backslash
before each element of either class. -/
theorem escape_escape {as : List α} (h : backslash ∉ as) :
    escape backslash special' (escape backslash special as) =
      as.flatMap fun a => if special a || special' a then [backslash, a] else [a] := by
  rw [escape_escape_eq, escape]
  induction as with
  | nil => rfl
  | cons a as ih =>
    have ha : a ≠ backslash := fun heq => h (heq ▸ List.mem_cons_self)
    rw [List.flatMap_cons, ← ih fun hmem => h (List.mem_cons_of_mem a hmem), escapeFrom, if_neg ha]
    split <;> rfl

/-- Escaping adds backslashes only. -/
theorem filter_escape {keep : α → Bool} (h : keep backslash = false) (as : List α) :
    (escape backslash special as).filter keep = as.filter keep := by
  have hfrom : ∀ (escaped : Bool) (as : List α),
      (escapeFrom backslash special escaped as).filter keep = as.filter keep := by
    intro escaped as
    induction as generalizing escaped with
    | nil => cases escaped <;> rfl
    | cons a as ih =>
      cases escaped with
      | true => rw [escapeFrom, List.filter_cons, List.filter_cons, ih]
      | false =>
        rw [escapeFrom]
        split
        · rw [List.filter_cons, List.filter_cons, ih]
        · split
          · rw [List.filter_cons_of_neg (by simp [h]), List.filter_cons, List.filter_cons, ih]
          · rw [List.filter_cons, List.filter_cons, ih]
  exact hfrom false as

theorem mem_escapeFrom {a : α} :
    ∀ {escaped : Bool} {as : List α}, a ∈ escapeFrom backslash special escaped as →
      a = backslash ∨ a ∈ as := by
  intro escaped as
  induction as generalizing escaped with
  | nil => intro h; cases escaped <;> exact absurd h List.not_mem_nil
  | cons b as ih =>
    intro h
    have tail : ∀ {e : Bool}, a ∈ b :: escapeFrom backslash special e as →
        a = backslash ∨ a ∈ b :: as := by
      intro e h
      rcases List.mem_cons.mp h with rfl | h
      · exact Or.inr List.mem_cons_self
      · exact (ih h).imp_right (List.mem_cons_of_mem b)
    cases escaped with
    | true => rw [escapeFrom] at h; exact tail h
    | false =>
      rw [escapeFrom] at h
      split at h
      · exact tail h
      · split at h
        · rcases List.mem_cons.mp h with rfl | h
          · exact Or.inl rfl
          · exact tail h
        · exact tail h

/-! ## Reading what is escaped -/

/-- The list with each escaped special element read as the element, from a position on.  `escaped`
says that an escaping backslash stands before the position. -/
def unescapeFrom (backslash : α) (special : α → Bool) : (escaped : Bool) → List α → List α
  | false, [] => []
  | true, [] => [backslash]
  | true, a :: as =>
    if special a then a :: unescapeFrom backslash special false as
    else backslash :: a :: unescapeFrom backslash special false as
  | false, a :: as =>
    if a = backslash then unescapeFrom backslash special true as
    else a :: unescapeFrom backslash special false as

/-- The list with each escaped special element read as the element.  A backslash before any other
element stays, and so does the last one of an odd number at the end. -/
def unescape (backslash : α) (special : α → Bool) (as : List α) : List α :=
  unescapeFrom backslash special false as

theorem unescapeFrom_escapeFrom (escaped : Bool) (as : List α) :
    unescapeFrom backslash special escaped (escapeFrom backslash special escaped as) =
      unescapeFrom backslash special escaped as := by
  induction as generalizing escaped with
  | nil => cases escaped <;> rfl
  | cons a as ih =>
    cases escaped with
    | true => rw [escapeFrom, unescapeFrom, unescapeFrom, ih]
    | false =>
      rw [escapeFrom, unescapeFrom]
      by_cases hb : a = backslash
      · rw [if_pos hb, if_pos hb, unescapeFrom, if_pos hb, ih]
      · rw [if_neg hb, if_neg hb]
        by_cases hs : special a = true
        · rw [if_pos hs, unescapeFrom, if_pos rfl, unescapeFrom, if_pos hs, ih]
        · rw [if_neg hs, unescapeFrom, if_neg hb, ih]

theorem unescape_escape (as : List α) :
    unescape backslash special (escape backslash special as) = unescape backslash special as :=
  unescapeFrom_escapeFrom false as

/-- What was read has its special elements unescaped, so escaping it puts back each backslash that
was read away.  A backslash that is waiting for the element after it has not been read yet. -/
theorem escapeFrom_unescapeFrom (h : special backslash = false) (escaped : Bool) (as : List α) :
    escapeFrom backslash special false (unescapeFrom backslash special escaped as) =
      (if escaped then [backslash] else []) ++ escapeFrom backslash special escaped as := by
  induction as generalizing escaped with
  | nil =>
    cases escaped with
    | true =>
      show escapeFrom backslash special false [backslash] = [backslash]
      rw [escapeFrom, if_pos rfl, escapeFrom]
    | false => rfl
  | cons a as ih =>
    have hrest := ih false
    rw [if_neg Bool.false_ne_true, List.nil_append] at hrest
    cases escaped with
    | true =>
      rw [unescapeFrom, if_pos rfl, escapeFrom, List.singleton_append]
      by_cases hs : special a = true
      · have hb : a ≠ backslash := fun heq =>
          Bool.false_ne_true (h.symm.trans (heq ▸ hs))
        rw [if_pos hs, escapeFrom, if_neg hb, if_pos hs, hrest]
      · rw [if_neg hs, escapeFrom, if_pos rfl, escapeFrom, hrest]
    | false =>
      rw [unescapeFrom, escapeFrom, if_neg Bool.false_ne_true, List.nil_append]
      by_cases hb : a = backslash
      · rw [if_pos hb, if_pos hb, ih true, hb]
        rfl
      · rw [if_neg hb, if_neg hb, escapeFrom, if_neg hb, hrest]

theorem escape_unescape (h : special backslash = false) (as : List α) :
    escape backslash special (unescape backslash special as) = escape backslash special as :=
  escapeFrom_unescapeFrom h false as

/-- Of all lists that are read like a list, the one that is escaped is the escaped list. -/
theorem isEscaped_and_unescape_eq_iff (h : special backslash = false) {as bs : List α} :
    isEscaped backslash special bs = true ∧
        unescape backslash special bs = unescape backslash special as ↔
      bs = escape backslash special as := by
  constructor
  · rintro ⟨hescaped, hread⟩
    calc bs = escape backslash special bs := (escape_eq_self_iff.mpr hescaped).symm
      _ = escape backslash special (unescape backslash special bs) := (escape_unescape h bs).symm
      _ = escape backslash special (unescape backslash special as) := by rw [hread]
      _ = escape backslash special as := escape_unescape h as
  · rintro rfl
    exact ⟨isEscaped_escape as, unescape_escape as⟩

end Text
end StepStubs
