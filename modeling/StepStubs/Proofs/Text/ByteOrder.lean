/-
The order of texts by their bytes.

Texts are stored in a code that keeps their order: where two texts differ first, the lower character
is the one whose code parts from the other's at a lower byte (`partsBelow_utf8EncodeChar`).  The two
codes differ before either of them ends, so what follows in the texts does not matter
(`PartsBelow.append_lt`).
-/
import StepStubs.Text.Utf8

namespace StepStubs
namespace Text

/-! ## Bytes -/

/-- The bytes of a text, in order. -/
def bytes (t : Text) : List UInt8 := (utf8 t).data.toList

theorem bytes_cons (c : Char) (t : Text) : bytes (c :: t) = String.utf8EncodeChar c ++ bytes t := by
  have hbytes : ∀ u : Text, bytes u = u.flatMap String.utf8EncodeChar := fun _ =>
    List.toList_data_toByteArray
  rw [hbytes, hbytes, List.flatMap_cons]

/-! ## Codes that part -/

/-- Is there a place where the lists differ, and is the first list lower there? -/
def PartsBelow : List UInt8 → List UInt8 → Prop
  | x :: xs, y :: ys => x < y ∨ x = y ∧ PartsBelow xs ys
  | _, _ => False

theorem PartsBelow.append_lt {xs ys : List UInt8} (h : PartsBelow xs ys) (s t : List UInt8) :
    xs ++ s < ys ++ t := by
  induction xs generalizing ys with
  | nil => exact h.elim
  | cons x xs ih =>
    cases ys with
    | nil => exact h.elim
    | cons y ys =>
      rcases h with hlt | ⟨rfl, h⟩
      · exact .rel hlt
      · exact .cons (ih h)

theorem partsBelow_cons {m n : Nat} {xs ys : List UInt8} (hle : m ≤ n) (hn : n < 256)
    (h : m = n → PartsBelow xs ys) :
    PartsBelow (UInt8.ofNat m :: xs) (UInt8.ofNat n :: ys) := by
  rcases Nat.lt_or_eq_of_le hle with hlt | rfl
  · refine Or.inl (UInt8.lt_iff_toNat_lt.mpr ?_)
    rwa [UInt8.toNat_ofNat', UInt8.toNat_ofNat', Nat.mod_eq_of_lt hn, Nat.mod_eq_of_lt (by omega)]
  · exact Or.inr ⟨rfl, h rfl⟩

/-- The code of a lower character parts below that of a higher one. -/
theorem partsBelow_utf8EncodeChar {c d : Char} (h : c.toNat < d.toNat) :
    PartsBelow (String.utf8EncodeChar c) (String.utf8EncodeChar d) := by
  have hd : d.val.toNat < 0x110000 := by
    have hvalid := d.valid
    simp only [UInt32.isValidChar, Nat.isValidChar] at hvalid
    omega
  have hlt : c.val.toNat < d.val.toNat := h
  rw [String.utf8EncodeChar, String.utf8EncodeChar]
  generalize c.val.toNat = m at hlt
  generalize d.val.toNat = n at hd hlt
  -- Codes of different lengths part at their first byte; others have a digit of the numbers in each
  -- byte, highest first, and the numbers differ.
  repeat' split
  all_goals repeat refine partsBelow_cons (by omega) (by omega) fun _ => ?_
  all_goals omega

/-! ## Texts -/

theorem bytes_cons_lt_of_lt {c d : Char} (h : c.toNat < d.toNat) (t u : Text) :
    bytes (c :: t) < bytes (d :: u) := by
  rw [bytes_cons, bytes_cons]
  exact (partsBelow_utf8EncodeChar h).append_lt _ _

theorem bytes_cons_lt {t u : Text} (h : bytes t < bytes u) (c : Char) :
    bytes (c :: t) < bytes (c :: u) := by
  rw [bytes_cons, bytes_cons]
  exact List.append_left_lt h

theorem bytes_nil_lt (c : Char) (t : Text) : bytes [] < bytes (c :: t) := by
  obtain ⟨x, xs, hx⟩ := List.exists_cons_of_ne_nil (String.utf8EncodeChar_ne_nil (c := c))
  rw [bytes_cons, hx]
  exact List.nil_lt_cons _ _

end Text
end StepStubs
