/-
Quoted literals of a text.

Double quotes pair from left to right, and a last one without a partner is no literal.  So a text is
told by three steps: a character that is no quote, a last quote, and a whole literal.
`literalInduction` is the induction on these steps, and a definition about literals gets one
equation for each of them.

`emptyLiterals` takes out what is inside the literals.  Trimming does not see it
(`trim_emptyLiterals`): a literal at an end of the text ends in a quote, which is no blank.
-/
import StepStubs.Proofs.Text.Basic

namespace StepStubs
namespace Text

/-- The text from a position on, with nothing inside its literals.  `inside` says whether the
position is inside a literal. -/
def emptyLiteralsFrom : (inside : Bool) → Text → Text
  | _, [] => []
  | true, c :: t => if c = '"' then c :: emptyLiteralsFrom false t else emptyLiteralsFrom true t
  | false, c :: t => c :: emptyLiteralsFrom (c = '"' && t.contains '"') t

/-- The text with nothing inside its literals. -/
def emptyLiterals (t : Text) : Text := emptyLiteralsFrom false t

/-- Is the place between the two texts inside a literal?  A quote before it has no partner before it,
but one after it. -/
def InsideLiteral (before after : Text) : Prop := before.count '"' % 2 = 1 ∧ '"' ∈ after

instance (before after : Text) : Decidable (InsideLiteral before after) :=
  inferInstanceAs (Decidable (_ ∧ _))

section Inside

variable {before m after : Text}

theorem not_insideLiteral_of_not_mem (h : '"' ∉ before) (after : Text) :
    ¬ InsideLiteral before after := by
  rw [InsideLiteral, List.count_eq_zero_of_not_mem h]
  exact fun hinside => absurd hinside.1 (by decide)

/-- A text without quotes changes nothing, before the place or after it. -/
theorem insideLiteral_append_left_iff (h : '"' ∉ m) :
    InsideLiteral (before ++ m) after ↔ InsideLiteral before after := by
  rw [InsideLiteral, InsideLiteral, List.count_append, List.count_eq_zero_of_not_mem h, Nat.add_zero]

theorem insideLiteral_append_right_iff (h : '"' ∉ m) :
    InsideLiteral before (m ++ after) ↔ InsideLiteral before after := by
  rw [InsideLiteral, InsideLiteral, List.mem_append, or_iff_right h]

end Inside

/-- Induction on a text, literal by literal. -/
theorem literalInduction {motive : Text → Prop} (nil : motive [])
    (char : ∀ c t, c ≠ '"' → motive t → motive (c :: t))
    (unpaired : ∀ t, '"' ∉ t → motive t → motive ('"' :: t))
    (literal : ∀ body t, '"' ∉ body → motive t → motive ('"' :: body ++ '"' :: t)) :
    ∀ t, motive t := by
  intro t
  generalize hn : t.length = n
  induction n using Nat.strongRecOn generalizing t with
  | _ n ih =>
    cases t with
    | nil => exact nil
    | cons c t =>
      rw [List.length_cons] at hn
      have hrest := ih t.length (by omega) t rfl
      by_cases hc : c = '"'
      · subst hc
        by_cases hquote : '"' ∈ t
        · obtain ⟨body, rest, rfl, hbody⟩ := List.eq_append_cons_of_mem hquote
          rw [List.length_append, List.length_cons] at hn
          exact literal body rest hbody (ih rest.length (by omega) rest rfl)
        · exact unpaired t hquote hrest
      · exact char c t hc hrest

theorem emptyLiterals_char {c : Char} (hc : c ≠ '"') (t : Text) :
    emptyLiterals (c :: t) = c :: emptyLiterals t := by
  rw [emptyLiterals, emptyLiteralsFrom, decide_eq_false hc, Bool.false_and, emptyLiterals]

theorem emptyLiterals_of_not_mem {t : Text} (h : '"' ∉ t) : emptyLiterals t = t := by
  induction t with
  | nil => rfl
  | cons c t ih =>
    rw [emptyLiterals_char (List.ne_of_not_mem_cons h).symm, ih (List.not_mem_of_not_mem_cons h)]

theorem emptyLiterals_unpaired {t : Text} (h : '"' ∉ t) : emptyLiterals ('"' :: t) = '"' :: t := by
  have hcontains : t.contains '"' = false := by simpa using h
  rw [emptyLiterals, emptyLiteralsFrom, hcontains, Bool.and_false, ← emptyLiterals,
    emptyLiterals_of_not_mem h]

theorem emptyLiterals_literal {body : Text} (h : '"' ∉ body) (t : Text) :
    emptyLiterals ('"' :: body ++ '"' :: t) = '"' :: '"' :: emptyLiterals t := by
  have hinside : ∀ {b : Text}, '"' ∉ b →
      emptyLiteralsFrom true (b ++ '"' :: t) = '"' :: emptyLiterals t := by
    intro b hb
    induction b with
    | nil => rw [List.nil_append, emptyLiteralsFrom, if_pos rfl, emptyLiterals]
    | cons c b ih =>
      rw [List.cons_append, emptyLiteralsFrom, if_neg (List.ne_of_not_mem_cons hb).symm,
        ih (List.not_mem_of_not_mem_cons hb)]
  have hcontains : (body ++ '"' :: t).contains '"' = true := by simp
  rw [List.cons_append, emptyLiterals, emptyLiteralsFrom, hcontains, decide_eq_true rfl,
    Bool.true_and, hinside h]

/-! ## Trimming -/

theorem head?_emptyLiterals (t : Text) : (emptyLiterals t).head? = t.head? := by
  cases t <;> rfl

theorem getLast?_emptyLiterals (t : Text) : (emptyLiterals t).getLast? = t.getLast? := by
  induction t using literalInduction with
  | nil => rfl
  | char c t hc ih => rw [emptyLiterals_char hc, List.getLast?_cons, List.getLast?_cons, ih]
  | unpaired t ht _ => rw [emptyLiterals_unpaired ht]
  | literal body t hbody ih =>
    rw [emptyLiterals_literal hbody, List.getLast?_append, List.getLast?_cons, List.getLast?_cons,
      List.getLast?_cons, ih]
    rfl

theorem emptyLiterals_append_left {gap : Text} (h : '"' ∉ gap) (t : Text) :
    emptyLiterals (gap ++ t) = gap ++ emptyLiterals t := by
  induction gap with
  | nil => rfl
  | cons c gap ih =>
    rw [List.cons_append, emptyLiterals_char (List.ne_of_not_mem_cons h).symm,
      ih (List.not_mem_of_not_mem_cons h), List.cons_append]

/-- What follows the last quote is outside of every literal. -/
theorem emptyLiterals_append_right (t : Text) {gap : Text} (h : '"' ∉ gap) :
    emptyLiterals (t ++ gap) = emptyLiterals t ++ gap := by
  induction t using literalInduction with
  | nil => exact emptyLiterals_of_not_mem h
  | char c t hc ih =>
    rw [List.cons_append, emptyLiterals_char hc, ih, emptyLiterals_char hc, List.cons_append]
  | unpaired t ht _ =>
    have hnot : '"' ∉ t ++ gap := fun hmem => (List.mem_append.mp hmem).elim ht h
    rw [List.cons_append, emptyLiterals_unpaired hnot, emptyLiterals_unpaired ht, List.cons_append]
  | literal body t hbody ih =>
    have hassoc : '"' :: body ++ '"' :: t ++ gap = '"' :: body ++ '"' :: (t ++ gap) := by simp
    rw [hassoc, emptyLiterals_literal hbody, ih, emptyLiterals_literal hbody, List.cons_append,
      List.cons_append]

theorem not_mem_quote_of_blank {gap : Text} (h : ∀ c ∈ gap, isBlank c = true) : '"' ∉ gap :=
  fun hmem => absurd (h '"' hmem) (by decide)

theorem count_quote_trimStart (t : Text) : (trimStart t).count '"' = t.count '"' := by
  have hlead : '"' ∉ t.takeWhile isBlank := not_mem_quote_of_blank fun c => List.mem_takeWhile_imp
  have hcount := congrArg (List.count '"') (List.takeWhile_append_dropWhile (p := isBlank) (l := t))
  rwa [List.count_append, List.count_eq_zero_of_not_mem hlead, Nat.zero_add] at hcount

theorem mem_quote_trimEnd (t : Text) : '"' ∈ trimEnd t ↔ '"' ∈ t := by
  obtain ⟨gap, hgap, hend⟩ := exists_trimEnd_append t
  have happend := List.mem_append (a := '"') (s := trimEnd t) (t := gap)
  rwa [hend, or_iff_left (not_mem_quote_of_blank hgap), Iff.comm] at happend

/-- Blanks before a place and after it do not matter. -/
theorem insideLiteral_trim_iff {before after : Text} :
    InsideLiteral (trimStart before) (trimEnd after) ↔ InsideLiteral before after := by
  rw [InsideLiteral, InsideLiteral, count_quote_trimStart, mem_quote_trimEnd]

theorem trim_emptyLiterals (t : Text) : trim (emptyLiterals t) = emptyLiterals (trim t) := by
  have hfront : t = t.takeWhile isBlank ++ trimStart t := List.takeWhile_append_dropWhile.symm
  have hblank : ∀ c ∈ t.takeWhile isBlank, isBlank c = true := fun c => List.mem_takeWhile_imp
  have hhead : ∀ c ∈ (emptyLiterals (trimStart t)).head?, isBlank c = false := by
    intro c hc
    rw [head?_emptyLiterals] at hc
    have hnot := List.head?_dropWhile_not isBlank t
    rw [← trimStart, Option.mem_def.mp hc] at hnot
    simpa using hnot
  obtain ⟨gap, hgap, hend⟩ := exists_trimEnd_append (trimStart t)
  have hlast : ∀ c ∈ (emptyLiterals (trimEnd (trimStart t))).getLast?, isBlank c = false := by
    rw [getLast?_emptyLiterals]
    exact not_isBlank_getLast?_trimEnd _
  calc trim (emptyLiterals t)
      = trim (t.takeWhile isBlank ++ emptyLiterals (trimStart t)) := by
        rw [← emptyLiterals_append_left (not_mem_quote_of_blank hblank), ← hfront]
    _ = trimEnd (emptyLiterals (trimStart t)) := by rw [trim, trimStart_append hblank hhead]
    _ = trimEnd (emptyLiterals (trimEnd (trimStart t)) ++ gap) := by
        rw [← emptyLiterals_append_right _ (not_mem_quote_of_blank hgap), hend]
    _ = emptyLiterals (trim t) := by rw [trimEnd_append hgap hlast, trim]

end Text
end StepStubs
