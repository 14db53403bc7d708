/-
Numerals of a text.

A numeral is a run of digits that stands alone: there is no word character before it or after it.
Which elements are digits and word characters is an argument, since a numeral of a draft is a run of
pieces.

A list is told by the elements that are no digits and by its runs of digits, each taken as a whole.
`runInduction` is the induction on these.
-/
import StepStubs.Text.Word
import Mathlib.Data.List.TakeDrop
import Mathlib.Data.List.TakeWhile

namespace StepStubs
namespace Text

variable {α : Type} {digit word : α → Bool}

/-- Does the run of digits between the two lists stand alone? -/
structure StandsAlone (digit word : α → Bool) (before run after : List α) : Prop where
  nonempty : run ≠ []
  digits : ∀ a ∈ run, digit a = true
  left : before.getLast?.any word = false
  right : after.head?.any word = false

instance (before run after : List α) : Decidable (StandsAlone digit word before run after) :=
  decidable_of_iff (run ≠ [] ∧ (∀ a ∈ run, digit a = true) ∧ before.getLast?.any word = false ∧
    after.head?.any word = false)
    ⟨fun h => ⟨h.1, h.2.1, h.2.2.1, h.2.2.2⟩, fun h => ⟨h.nonempty, h.digits, h.left, h.right⟩⟩

/-- Is the text between the two others a numeral of the whole? -/
abbrev IsNumeral (before digits after : Text) : Prop :=
  StandsAlone isDigit isWord before digits after

/-- Is the text a row of digits? -/
def IsDigits (t : Text) : Prop := t ≠ [] ∧ ∀ c ∈ t, isDigit c = true

instance (t : Text) : Decidable (IsDigits t) :=
  decidable_of_iff (t ≠ [] ∧ t.all isDigit = true) (and_congr_right fun _ => List.all_eq_true)

/-- A blank is no word character. -/
theorem isWord_eq_false_of_isBlank {c : Char} (h : isBlank c = true) : isWord c = false := by
  have hmem : c.toNat ∈ List.range' 0x09 5 ++ [0x20, 0x85, 0xA0, 0x1680] ++ List.range' 0x2000 11 ++
      [0x2028, 0x2029, 0x202F, 0x205F, 0x3000] := by
    simp [isBlank, isBetween] at h
    simp [List.mem_range'_1]
    omega
  have hword : ∀ n ∈ List.range' 0x09 5 ++ [0x20, 0x85, 0xA0, 0x1680] ++ List.range' 0x2000 11 ++
      [0x2028, 0x2029, 0x202F, 0x205F, 0x3000], isWord (Char.ofNat n) = false := by
    decide +kernel
  rw [← Char.ofNat_toNat c]
  exact hword _ hmem

theorem isBlank_eq_false_of_isDigit {c : Char} (h : isDigit c = true) : isBlank c = false :=
  Bool.eq_false_iff.mpr fun hblank =>
    Bool.false_ne_true ((isWord_eq_false_of_isBlank hblank).symm.trans (isWord_of_isDigit h))

/-- What comes behind a run of digits does not go on with one. -/
theorem any_head?_dropWhile (digit : α → Bool) (as : List α) :
    (as.dropWhile digit).head?.any digit = false := by
  have hnot := List.head?_dropWhile_not digit as
  cases h : (as.dropWhile digit).head? with
  | none => rfl
  | some a =>
    rw [h] at hnot
    simpa using hnot

theorem takeWhile_run {run as : List α} (hrun : ∀ a ∈ run, digit a = true)
    (has : as.head?.any digit = false) : (run ++ as).takeWhile digit = run := by
  rw [List.takeWhile_append_of_pos hrun]
  cases as with
  | nil => rw [List.takeWhile_nil, List.append_nil]
  | cons a as =>
    rw [List.head?_cons, Option.any_some] at has
    rw [List.takeWhile_cons_of_neg (by rw [has]; exact Bool.false_ne_true), List.append_nil]

/-- Cutting a list at the end of the run that it starts with. -/
theorem span_eq_iff {as run rest : List α} :
    as.span digit = (run, rest) ↔
      as = run ++ rest ∧ (∀ a ∈ run, digit a = true) ∧ rest.head?.any digit = false := by
  rw [List.span_eq_takeWhile_dropWhile, Prod.mk.injEq]
  constructor
  · rintro ⟨rfl, rfl⟩
    exact ⟨List.takeWhile_append_dropWhile.symm, fun a => List.mem_takeWhile_imp,
      any_head?_dropWhile digit as⟩
  · rintro ⟨rfl, hrun, hrest⟩
    have htake := takeWhile_run hrun hrest
    have hall := List.takeWhile_append_dropWhile (p := digit) (l := run ++ rest)
    rw [htake] at hall
    exact ⟨htake, List.append_cancel_left hall⟩

/-- A list that starts with a digit starts with a run of digits. -/
theorem exists_run_append_of_head {a : α} (ha : digit a = true) (as : List α) :
    ∃ run rest, a :: as = run ++ rest ∧ run ≠ [] ∧ (∀ b ∈ run, digit b = true) ∧
      rest.head?.any digit = false ∧ rest.length ≤ as.length := by
  have htake : (a :: as).takeWhile digit = a :: as.takeWhile digit := List.takeWhile_cons_of_pos ha
  have hdrop : (a :: as).dropWhile digit = as.dropWhile digit := List.dropWhile_cons_of_pos ha
  refine ⟨(a :: as).takeWhile digit, (a :: as).dropWhile digit,
    List.takeWhile_append_dropWhile.symm, ?_, fun b => List.mem_takeWhile_imp,
    any_head?_dropWhile digit _, ?_⟩
  · rw [htake]
    exact List.cons_ne_nil _ _
  · rw [hdrop]
    exact (List.dropWhile_sublist digit).length_le

/-- Induction on a list, run by run. -/
theorem runInduction (digit : α → Bool) {motive : List α → Prop} (nil : motive [])
    (other : ∀ a as, digit a = false → motive as → motive (a :: as))
    (run : ∀ run as, run ≠ [] → (∀ a ∈ run, digit a = true) → as.head?.any digit = false →
      motive as → motive (run ++ as)) : ∀ as, motive as := by
  intro as
  generalize hn : as.length = n
  induction n using Nat.strongRecOn generalizing as with
  | _ n ih =>
    cases as with
    | nil => exact nil
    | cons a as =>
      rw [List.length_cons] at hn
      cases ha : digit a with
      | false => exact other a as ha (ih as.length (by omega) as rfl)
      | true =>
        obtain ⟨digits, rest, heq, hne, hdigits, hrest, hle⟩ := exists_run_append_of_head ha as
        rw [heq]
        exact run digits rest hne hdigits hrest (ih rest.length (by omega) rest rfl)

end Text
end StepStubs
