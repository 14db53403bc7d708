/-
Reading a text between single quotes.

A string literal of a script ends at its first single quote that no backslash escapes, may not go
over the end of a line, and stands for a row of 16-bit code units.  `read` reads one from behind
its opening quote.  As `segmentsFrom` does, it recurses on the text with a count of the characters
that the last escape still covers, so it is structural and the kernel reduces it.

Not every text can be put between single quotes as it is.  An escape has a backslash more than it
stands for, so what is read has no more units than its source, and as many only if the source has no
escapes (`Covers`).  So a text is read as itself exactly if it has no quote, no
backslash and no line end (`read_append_iff`).
-/
import StepStubs.Text.Word

namespace StepStubs
namespace Stub

/-- The characters that end a line of a script, and with it a comment. -/
def isLineTerminator (c : Char) : Bool :=
  c == '\n' || c == '\r' || c == '\u2028' || c == '\u2029'

namespace StringLiteral

/-! ## Code units -/

/-- The code units of a code point: two of them from `0x10000` on. -/
def pointUnits (n : Nat) : List Nat :=
  if n < 0x10000 then [n]
  else [0xD800 + (n - 0x10000) / 0x400, 0xDC00 + (n - 0x10000) % 0x400]

def units (t : Text) : List Nat := t.flatMap fun c => pointUnits c.toNat

theorem length_pointUnits (n : Nat) :
    0 < (pointUnits n).length ∧ (pointUnits n).length ≤ 2 := by
  rw [pointUnits]
  split <;> simp

theorem units_cons (c : Char) (t : Text) : units (c :: t) = pointUnits c.toNat ++ units t := rfl

theorem units_append (t u : Text) : units (t ++ u) = units t ++ units u := List.flatMap_append

theorem length_le_length_units (t : Text) : t.length ≤ (units t).length := by
  induction t with
  | nil => exact Nat.le_refl 0
  | cons c t ih =>
    have hc := (length_pointUnits c.toNat).1
    rw [units_cons, List.length_append, List.length_cons]
    omega

/-! ## Escapes -/

/-- The number that hexadecimal digits stand for. -/
def number? (digits : Text) : Option Nat :=
  digits.foldlM (fun n d => (Text.hexDigit? d).map (16 * n + ·)) 0

/-- The number that the first `width` characters stand for. -/
def fixedNumber? (width : Nat) (t : Text) : Option Nat :=
  if width ≤ t.length then number? (t.take width) else none

/-- The control character that a letter stands for behind a backslash. -/
def control? : Char → Option Nat
  | 'b' => some 0x08
  | 't' => some 0x09
  | 'n' => some 0x0A
  | 'v' => some 0x0B
  | 'f' => some 0x0C
  | 'r' => some 0x0D
  | _ => none

/-- The code units that an escape stands for, and how many characters it has behind its backslash.
An escaped line end stands for nothing. -/
def escape? : Text → Option (List Nat × Nat)
  | [] => none
  | 'x' :: t => (fixedNumber? 2 t).map fun n => ([n], 3)
  | 'u' :: '\x7b' :: t =>
    let digits := t.takeWhile (· ≠ '\x7d')
    if digits = [] ∨ digits = t then none
    else (number? digits).bind fun n =>
      if n ≤ 0x10FFFF then some (pointUnits n, digits.length + 3) else none
  | 'u' :: t => (fixedNumber? 4 t).map fun n => ([n], 5)
  | '\r' :: '\n' :: _ => some ([], 2)
  | '0' :: t => if t.head?.any Text.isDigit then none else some ([0], 1)
  | c :: _ =>
    if isLineTerminator c then some ([], 1)
    else if Text.isDigit c then none
    else some (((control? c).map ([·])).getD (pointUnits c.toNat), 1)

/-- An escape stands for no more than its characters behind the backslash would. -/
theorem length_of_escape? {t : Text} {us : List Nat} {k : Nat} (h : escape? t = some (us, k)) :
    us.length ≤ (units (t.take k)).length := by
  -- Most escapes stand for one unit and have at least one character.
  have one : ∀ {n : Nat} {c : Char} {t : Text} {k : Nat},
      ([n] : List Nat).length ≤ (units ((c :: t).take (k + 1))).length := by
    intro n c t k
    refine Nat.le_trans ?_ (length_le_length_units _)
    simp
  unfold escape? at h
  split at h
  · exact nomatch h
  · obtain ⟨n, -, heq⟩ := Option.map_eq_some_iff.mp h
    obtain ⟨rfl, rfl⟩ := Prod.mk.inj heq
    exact one
  · dsimp only at h
    split at h
    · exact nomatch h
    · obtain ⟨n, -, hn⟩ := Option.bind_eq_some_iff.mp h
      split at hn
      · obtain ⟨rfl, rfl⟩ := Prod.mk.inj (Option.some.inj hn)
        refine Nat.le_trans (length_pointUnits n).2
          (Nat.le_trans ?_ (length_le_length_units _))
        simp
      · exact nomatch hn
  · obtain ⟨n, -, heq⟩ := Option.map_eq_some_iff.mp h
    obtain ⟨rfl, rfl⟩ := Prod.mk.inj heq
    exact one
  · obtain ⟨rfl, rfl⟩ := Prod.mk.inj (Option.some.inj h)
    exact Nat.zero_le _
  · split at h
    · exact nomatch h
    · obtain ⟨rfl, rfl⟩ := Prod.mk.inj (Option.some.inj h)
      exact one
  · next c t _ _ _ _ _ =>
    split at h
    · obtain ⟨rfl, rfl⟩ := Prod.mk.inj (Option.some.inj h)
      exact Nat.zero_le _
    · split at h
      · exact nomatch h
      · obtain ⟨rfl, rfl⟩ := Prod.mk.inj (Option.some.inj h)
        cases control? c with
        | none => simp [units]
        | some n => exact one

/-! ## Literals -/

/-- The code units of a literal from a position on, and what follows its closing quote.  `covered`
is how many characters from the position on belong to the last escape. -/
def readFrom : (covered : Nat) → Text → Option (List Nat × Text)
  | _, [] => none
  | covered + 1, _ :: t => readFrom covered t
  | 0, c :: t =>
    if c = '\x27' then some ([], t)
    else if c = '\\' then
      (escape? t).bind fun e => (readFrom e.2 t).map fun r => (e.1 ++ r.1, r.2)
    else if c = '\n' ∨ c = '\r' then none
    else (readFrom 0 t).map fun r => (pointUnits c.toNat ++ r.1, r.2)

/-- The code units of a literal from behind its opening quote on, and what follows it. -/
def read (t : Text) : Option (List Nat × Text) := readFrom 0 t

/-- Does the character stand for itself in a literal? -/
def isPlain (c : Char) : Bool := c ≠ '\x27' && c ≠ '\\' && c ≠ '\n' && c ≠ '\r'

theorem isPlain_iff {c : Char} :
    isPlain c = true ↔ c ≠ '\x27' ∧ c ≠ '\\' ∧ c ≠ '\n' ∧ c ≠ '\r' := by
  simp [isPlain, and_assoc]

theorem read_append {t : Text} (h : ∀ c ∈ t, isPlain c = true) (rest : Text) :
    read (t ++ '\x27' :: rest) = some (units t, rest) := by
  induction t with
  | nil => rfl
  | cons c t ih =>
    obtain ⟨hquote, hback, hline⟩ := isPlain_iff.mp (h c List.mem_cons_self)
    have hrest := ih fun d hd => h d (List.mem_cons_of_mem c hd)
    rw [read] at hrest ⊢
    rw [List.cons_append, readFrom, if_neg hquote, if_neg hback, if_neg (not_or.mpr hline), hrest]
    rfl

/-- Has the source no fewer units than were read from it, and more if any of its characters does not
stand for itself? -/
def Covers (us : List Nat) (source : Text) : Prop :=
  us.length ≤ (units source).length ∧
    (us.length = (units source).length → ∀ c ∈ source, isPlain c = true)

theorem Covers.plain {us : List Nat} {source : Text} (h : Covers us source) {c : Char}
    (hc : isPlain c = true) : Covers (pointUnits c.toNat ++ us) (c :: source) := by
  obtain ⟨hle, hplain⟩ := h
  rw [Covers, units_cons, List.length_append, List.length_append]
  refine ⟨by omega, fun hlength d hd => ?_⟩
  rcases List.mem_cons.mp hd with rfl | hd
  · exact hc
  · exact hplain (by omega) d hd

/-- The backslash of an escape is one unit too many. -/
theorem Covers.escape {us vs : List Nat} {source e : Text} (h : Covers us source)
    (he : vs.length ≤ (units e).length) (c : Char) : Covers (vs ++ us) (c :: (e ++ source)) := by
  have hc := (length_pointUnits c.toNat).1
  obtain ⟨hle, -⟩ := h
  rw [Covers, units_cons, units_append, List.length_append, List.length_append, List.length_append]
  exact ⟨by omega, fun hlength => by omega⟩

/-- What is read of a literal is covered by the source of the literal. -/
theorem exists_source_of_readFrom {covered : Nat} {t rest : Text} {us : List Nat}
    (h : readFrom covered t = some (us, rest)) :
    ∃ source, t.drop covered = source ++ '\x27' :: rest ∧ Covers us source := by
  induction t generalizing covered us with
  | nil => cases covered <;> exact nomatch h
  | cons c t ih =>
    cases covered with
    | succ covered =>
      rw [readFrom] at h
      exact ih h
    | zero =>
      rw [readFrom] at h
      by_cases hquote : c = '\x27'
      · rw [if_pos hquote] at h
        obtain ⟨rfl, rfl⟩ := Prod.mk.inj (Option.some.inj h)
        exact ⟨[], congrArg (· :: t) hquote, Nat.le_refl 0, fun _ => nofun⟩
      rw [if_neg hquote] at h
      by_cases hback : c = '\\'
      · rw [if_pos hback] at h
        obtain ⟨⟨vs, k⟩, hescape, h⟩ := Option.bind_eq_some_iff.mp h
        obtain ⟨⟨ws, rest'⟩, hread, heq⟩ := Option.map_eq_some_iff.mp h
        obtain ⟨rfl, rfl⟩ := Prod.mk.inj heq
        obtain ⟨source, hsource, hcovers⟩ := ih hread
        refine ⟨c :: (t.take k ++ source), ?_, hcovers.escape (length_of_escape? hescape) c⟩
        rw [List.drop_zero, List.cons_append, List.append_assoc, ← hsource, List.take_append_drop]
      rw [if_neg hback] at h
      by_cases hline : c = '\n' ∨ c = '\r'
      · rw [if_pos hline] at h
        exact nomatch h
      rw [if_neg hline] at h
      obtain ⟨⟨ws, rest'⟩, hread, heq⟩ := Option.map_eq_some_iff.mp h
      obtain ⟨rfl, rfl⟩ := Prod.mk.inj heq
      obtain ⟨source, hsource, hcovers⟩ := ih hread
      exact ⟨c :: source, congrArg (c :: ·) hsource,
        hcovers.plain (isPlain_iff.mpr ⟨hquote, hback, not_or.mp hline⟩)⟩

/-- Between single quotes a text stands for itself exactly if all its characters do. -/
theorem read_append_iff {t rest : Text} :
    read (t ++ '\x27' :: rest) = some (units t, rest) ↔ ∀ c ∈ t, isPlain c = true := by
  refine ⟨fun h => ?_, fun h => read_append h rest⟩
  obtain ⟨source, hsource, -, hplain⟩ := exists_source_of_readFrom h
  have heq : t = source := List.append_cancel_right hsource
  rw [← heq] at hplain
  exact hplain rfl

end StringLiteral
end Stub
end StepStubs
