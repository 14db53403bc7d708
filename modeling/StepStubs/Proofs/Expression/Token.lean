/-
The grammar of patterns.

A pattern is a row of tokens: a placeholder, a character behind a backslash, or a character
that stands for itself.  A token carries the proof that its character may stand where it
stands, so a row of tokens has no unescaped bracket, slash or brace, no backslash at its end
and no private-use character.

No token's text begins another's, so a text is the writing of at most one row of tokens:
this is `write_injective`.
-/
import StepStubs.Expression.Draft

namespace StepStubs
namespace Expression

/-- The characters that stand in a pattern only behind a backslash. -/
def reserved : List Char := ['(', ')', '/', '\x7b', '\x7d', '\\']

inductive Token where
  | placeholder (p : Parameter)
  | escaped (c : Char) (legal : c ∈ reserved ∨ Text.isBlank c = true)
  | plain (c : Char) (legal : c ∉ reserved ∧ c ≠ '\ue000' ∧ c ≠ '\ue001')
  deriving DecidableEq

namespace Token

def text : Token → Text
  | placeholder p => p.placeholder
  | escaped c _ => ['\\', c]
  | plain c _ => [c]

def parameter? : Token → Option Parameter
  | placeholder p => some p
  | escaped _ _ => none
  | plain _ _ => none

def write (ts : List Token) : Text := ts.flatMap text

def parameters (ts : List Token) : List Parameter := ts.filterMap parameter?

theorem write_cons (t : Token) (ts : List Token) : write (t :: ts) = t.text ++ write ts := rfl

/-! ## Reading a pattern -/

theorem text_ne_nil (t : Token) : t.text ≠ [] := by
  cases t with
  | placeholder p => cases p <;> decide
  | escaped c _ => exact List.cons_ne_nil _ _
  | plain c _ => exact List.cons_ne_nil _ _

theorem placeholder_head (p : Parameter) : ∃ rest, p.placeholder = '\x7b' :: rest := by
  cases p <;> exact ⟨_, rfl⟩

/-- The two placeholders differ in the character after their brace. -/
theorem placeholder_append_inj {p q : Parameter} {t u : Text}
    (h : p.placeholder ++ t = q.placeholder ++ u) : p = q ∧ t = u := by
  have hs : Parameter.string.placeholder = '\x7b' :: 's' :: "tring\x7d".toList := by decide
  have hn : Parameter.number.placeholder = '\x7b' :: 'i' :: "nt\x7d".toList := by decide
  cases p <;> cases q
  · exact ⟨rfl, List.append_cancel_left h⟩
  · rw [hs, hn] at h
    exact absurd (List.cons.inj (List.cons.inj h).2).1 (by decide)
  · rw [hs, hn] at h
    exact absurd (List.cons.inj (List.cons.inj h).2).1 (by decide)
  · exact ⟨rfl, List.append_cancel_left h⟩

/-- The first token can be told from the text, whatever follows it. -/
theorem text_append_inj {a b : Token} {t u : Text} (h : a.text ++ t = b.text ++ u) :
    a = b ∧ t = u := by
  have brace : ∀ (p : Parameter) {c : Char} {rest : Text},
      c ≠ '\x7b' → p.placeholder ++ t ≠ c :: rest ∧ p.placeholder ++ u ≠ c :: rest := by
    intro p c rest hc
    obtain ⟨r, hr⟩ := placeholder_head p
    rw [hr]
    exact ⟨fun e => hc (List.cons.inj e).1.symm, fun e => hc (List.cons.inj e).1.symm⟩
  have hplain : ∀ {c : Char}, c ∉ reserved → c ≠ '\x7b' ∧ c ≠ '\\' := by
    intro c hc
    exact ⟨fun e => hc (e ▸ by decide), fun e => hc (e ▸ by decide)⟩
  -- The first character tells the three kinds apart: a brace, a backslash, and any other.
  cases a with
  | placeholder p =>
    cases b with
    | placeholder q =>
      obtain ⟨rfl, htu⟩ := placeholder_append_inj h
      exact ⟨rfl, htu⟩
    | escaped c _ => exact absurd h (brace p (by decide)).1
    | plain c hc => exact absurd h (brace p (hplain hc.1).1).1
  | escaped c _ =>
    cases b with
    | placeholder q => exact absurd h.symm (brace q (by decide)).2
    | escaped d _ =>
      simp only [text, List.cons_append, List.nil_append, List.cons.injEq, true_and] at h
      obtain ⟨rfl, htu⟩ := h
      exact ⟨rfl, htu⟩
    | plain d hd => exact absurd (List.cons.inj h).1.symm (hplain hd.1).2
  | plain c hc =>
    cases b with
    | placeholder q => exact absurd h.symm (brace q (hplain hc.1).1).2
    | escaped d _ => exact absurd (List.cons.inj h).1 (hplain hc.1).2
    | plain d _ =>
      obtain ⟨rfl, htu⟩ := List.cons.inj h
      exact ⟨rfl, htu⟩

theorem write_injective {ts us : List Token} (h : write ts = write us) : ts = us := by
  induction ts generalizing us with
  | nil =>
    cases us with
    | nil => rfl
    | cons u us => exact absurd (List.append_eq_nil_iff.mp h.symm).1 u.text_ne_nil
  | cons t ts ih =>
    cases us with
    | nil => exact absurd (List.append_eq_nil_iff.mp h).1 t.text_ne_nil
    | cons u us =>
      obtain ⟨rfl, hrest⟩ := text_append_inj h
      rw [ih hrest]

end Token
end Expression
end StepStubs
