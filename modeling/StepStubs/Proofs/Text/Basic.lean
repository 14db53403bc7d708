/-
Facts about the basic operations on texts: taking a start off, trimming, writing numbers, and
storing.
-/
import Mathlib.Data.List.TakeWhile
import StepStubs.Text.Utf8

namespace StepStubs
namespace Text

/-! ## Taking a start off -/

theorem afterStart?_cons_cons (c d : Char) (start t : Text) :
    afterStart? (c :: start) (d :: t) = if c == d then afterStart? start t else none := rfl

theorem afterStart?_cons_nil (c : Char) (start : Text) : afterStart? (c :: start) [] = none := rfl

theorem afterStart?_append (start t : Text) : afterStart? start (start ++ t) = some t := by
  induction start with
  | nil => rfl
  | cons c start ih =>
    rw [List.cons_append, afterStart?_cons_cons, if_pos (beq_self_eq_true c)]
    exact ih

theorem eq_append_of_afterStart? {start t rest : Text} (h : afterStart? start t = some rest) :
    t = start ++ rest := by
  induction start generalizing t with
  | nil => exact Option.some.inj h
  | cons c start ih =>
    cases t with
    | nil =>
      rw [afterStart?_cons_nil] at h
      contradiction
    | cons d t =>
      rw [afterStart?_cons_cons] at h
      by_cases hc : (c == d) = true
      · rw [if_pos hc] at h
        rw [eq_of_beq hc, ih h, List.cons_append]
      · rw [if_neg hc] at h
        contradiction

/-! ## Trimming -/

theorem trimStart_append {gap t : Text} (hgap : ∀ c ∈ gap, isBlank c = true)
    (hhead : ∀ c ∈ t.head?, isBlank c = false) : trimStart (gap ++ t) = t := by
  rw [trimStart, List.dropWhile_append_of_pos hgap]
  cases t with
  | nil => rfl
  | cons c t => exact List.dropWhile_cons_of_neg (by simp [hhead c rfl])

theorem trimEnd_of_getLast? {t : Text} (h : ∀ c ∈ t.getLast?, isBlank c = false) :
    trimEnd t = t := by
  rw [trimEnd, if_neg]
  cases hlast : t.getLast? with
  | none => exact Bool.false_ne_true
  | some c =>
    rw [Option.any_some, h c hlast]
    exact Bool.false_ne_true

theorem trimEnd_append {t gap : Text} (hgap : ∀ c ∈ gap, isBlank c = true)
    (hlast : ∀ c ∈ t.getLast?, isBlank c = false) : trimEnd (t ++ gap) = t := by
  have hhead : t.reverse.dropWhile isBlank = t.reverse := by
    cases hr : t.reverse with
    | nil => rfl
    | cons c r =>
      have hc : isBlank c = false := hlast c (by rw [← List.head?_reverse, hr]; rfl)
      exact List.dropWhile_cons_of_neg (by simp [hc])
  rw [trimEnd_eq, List.reverse_append, List.dropWhile_append_of_pos fun c hc =>
    hgap c (List.mem_reverse.mp hc), hhead, List.reverse_reverse]

/-- What is left after trimming ends in no blank. -/
theorem not_isBlank_getLast?_trimEnd (t : Text) :
    ∀ c ∈ (trimEnd t).getLast?, isBlank c = false := by
  intro c hc
  rw [trimEnd_eq, List.getLast?_reverse] at hc
  have hnot := List.head?_dropWhile_not isBlank t.reverse
  rw [Option.mem_def.mp hc] at hnot
  simpa using hnot

/-- What is trimmed off the end is blank. -/
theorem exists_trimEnd_append (t : Text) :
    ∃ gap, (∀ c ∈ gap, isBlank c = true) ∧ trimEnd t ++ gap = t := by
  refine ⟨(t.reverse.takeWhile isBlank).reverse, fun c hc => ?_, ?_⟩
  · exact List.mem_takeWhile_imp (List.mem_reverse.mp hc)
  · rw [trimEnd_eq, ← List.reverse_append, List.takeWhile_append_dropWhile, List.reverse_reverse]

/-- Trimming takes blanks off both ends. -/
theorem exists_append_trim_append (t : Text) :
    ∃ lead gap, (∀ c ∈ lead, isBlank c = true) ∧ (∀ c ∈ gap, isBlank c = true) ∧
      t = lead ++ (trim t ++ gap) := by
  obtain ⟨gap, hgap, hend⟩ := exists_trimEnd_append (trimStart t)
  refine ⟨t.takeWhile isBlank, gap, fun c => List.mem_takeWhile_imp, hgap, ?_⟩
  rw [trim, hend, trimStart, List.takeWhile_append_dropWhile]

theorem trim_infix (t : Text) : trim t <:+: t := by
  obtain ⟨lead, gap, -, -, heq⟩ := exists_append_trim_append t
  exact ⟨lead, gap, by rw [List.append_assoc, ← heq]⟩

/-- What stands around a text without blanks is trimmed on the outside only. -/
theorem trim_around {m : Text} (hne : m ≠ []) (hm : ∀ c ∈ m, isBlank c = false) (u v : Text) :
    trim (u ++ (m ++ v)) = trimStart u ++ (m ++ trimEnd v) := by
  obtain ⟨gap, hgap, hend⟩ := exists_trimEnd_append v
  have hlead : ∀ c ∈ u.takeWhile isBlank, isBlank c = true := fun c => List.mem_takeWhile_imp
  have hhead : ∀ c ∈ (trimStart u ++ (m ++ v)).head?, isBlank c = false := by
    intro c hc
    cases hu : trimStart u with
    | nil =>
      obtain ⟨d, m', rfl⟩ := List.exists_cons_of_ne_nil hne
      rw [hu, List.nil_append, List.cons_append] at hc
      rw [← Option.some.inj hc]
      exact hm d List.mem_cons_self
    | cons d t =>
      have hnot := List.head?_dropWhile_not isBlank u
      rw [← trimStart, hu] at hnot
      rw [hu] at hc
      rw [← Option.some.inj hc]
      simpa using hnot
  have hlast : ∀ c ∈ (trimStart u ++ (m ++ trimEnd v)).getLast?, isBlank c = false := by
    intro c hc
    rw [← List.append_assoc, List.getLast?_append] at hc
    cases hv : (trimEnd v).getLast? with
    | some d =>
      rw [hv, Option.some_or] at hc
      exact not_isBlank_getLast?_trimEnd v c (hv.trans hc)
    | none =>
      rw [hv, Option.none_or, List.getLast?_append, List.getLast?_eq_some_getLast hne,
        Option.some_or] at hc
      rw [← Option.some.inj hc]
      exact hm _ (List.getLast_mem hne)
  calc trim (u ++ (m ++ v))
      = trim (u.takeWhile isBlank ++ (trimStart u ++ (m ++ v))) := by
        rw [← List.append_assoc (u.takeWhile isBlank), trimStart,
          List.takeWhile_append_dropWhile]
    _ = trimEnd (trimStart u ++ (m ++ v)) := by rw [trim, trimStart_append hlead hhead]
    _ = trimEnd (trimStart u ++ (m ++ trimEnd v) ++ gap) := by
        rw [List.append_assoc, List.append_assoc, hend]
    _ = trimStart u ++ (m ++ trimEnd v) := trimEnd_append hgap hlast

/-! ## Numbers -/

theorem isDigit_of_mem_ofNat {n : Nat} {c : Char} (h : c ∈ ofNat n) : c.isDigit = true :=
  Nat.isDigit_of_mem_toDigits (by decide) (by decide) h

theorem not_mem_ofNat {c : Char} (hc : c.isDigit = false) (n : Nat) : c ∉ ofNat n := fun h =>
  Bool.false_ne_true (hc.symm.trans (isDigit_of_mem_ofNat h))

theorem ofNat_injective {n m : Nat} (h : ofNat n = ofNat m) : n = m := by
  rw [← @Nat.ofDigitChars_ten_toDigits n, ← @Nat.ofDigitChars_ten_toDigits m]
  exact congrArg (Nat.ofDigitChars 10 · 0) h

/-- A number can be told from the text that it starts, if no digit follows it. -/
theorem ofNat_append_inj {n m : Nat} {c : Char} {t u : Text} (hc : c.isDigit = false)
    (h : ofNat n ++ c :: t = ofNat m ++ c :: u) : n = m ∧ t = u := by
  have key : ∀ (k : Nat) (v : Text), (ofNat k ++ c :: v).takeWhile Char.isDigit = ofNat k := by
    intro k v
    rw [List.takeWhile_append_of_pos fun d => isDigit_of_mem_ofNat,
      List.takeWhile_cons_of_neg (by rw [hc]; exact Bool.false_ne_true), List.append_nil]
  have hnm : ofNat n = ofNat m := by rw [← key n t, h, key m u]
  rw [hnm] at h
  exact ⟨ofNat_injective hnm, (List.cons.inj (List.append_cancel_left h)).2⟩

/-! ## Bytes -/

theorem byteLength_append (t u : Text) : byteLength (t ++ u) = byteLength t + byteLength u := by
  have hutf8 : utf8 (t ++ u) = utf8 t ++ utf8 u := by
    rw [utf8, utf8, utf8, String.ofList_append]
    exact String.toByteArray_append
  rw [byteLength, hutf8, ByteArray.size_append, byteLength, byteLength]

end Text
end StepStubs
