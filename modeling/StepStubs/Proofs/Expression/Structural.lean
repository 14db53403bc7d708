/-
Escaping brackets and slashes.

`escapeStructural` closes a text under one rule, that no bracket and no slash stands without a
backslash: it gives a text that is fully escaped, and leaves those texts as they are
(`escapeStructural_closes`).  A reader who takes an escaped bracket or slash for the character reads
the same before and after, and nothing else that is fully escaped is read that way.  It does not
matter whether slashes or brackets are escaped first, or both at once.  The compiler escapes slashes
first, in a pass of their own, and what it gives is a row of tokens, which escaping leaves alone.
-/
import StepStubs.Proofs.Expression.Instance

namespace StepStubs
namespace Expression

/-- The text with each escaped bracket and slash read as the character. -/
def readStructural (t : Text) : Text := Text.unescape '\\' isStructural t

theorem isStructural_char (c : Char) : Piece.isStructural (.char c) = isStructural c := by
  rw [Bool.eq_iff_iff]
  simp [Piece.isStructural, isStructural, or_comm]

/-! ## Patterns -/

/-- What a token writes is escaped, and the text behind it is read as if it began there. -/
theorem isEscapedFrom_text_append (token : Token) (t : Text) :
    Text.isEscapedFrom '\\' isStructural false (token.text ++ t) =
      Text.isEscapedFrom '\\' isStructural false t := by
  cases token with
  | placeholder p => cases p <;> rfl
  | escaped c _ => rfl
  | plain c hc =>
    have hback : c ≠ '\\' := fun heq => hc.1 (heq ▸ by decide)
    have hplain : isStructural c = false :=
      Bool.eq_false_iff.mpr fun h => hc.1 (mem_reserved_of_isStructural (isStructural_char c ▸ h))
    rw [Token.text, List.singleton_append, Text.isEscapedFrom, if_neg hback, hplain]
    rfl

theorem isFullyEscaped_write (ts : List Token) : isFullyEscaped (Token.write ts) = true := by
  induction ts with
  | nil => rfl
  | cons token ts ih =>
    rw [isFullyEscaped, Text.isEscaped, Token.write_cons, isEscapedFrom_text_append]
    exact ih

theorem isFullyEscaped_compile (t : Text) : isFullyEscaped (compile t).text = true := by
  obtain ⟨ts, -, hwrite⟩ := exists_write_eq_compile t
  rw [← hwrite]
  exact isFullyEscaped_write ts

/-! ## Both classes at once -/

/-- Escaping the slashes and then the brackets is one escaping. -/
theorem escape_brackets_slashes (t : Text) :
    Text.escape '\\' (fun c => c == '(' || c == ')') (Text.escape '\\' (· == '/') t) =
      escapeStructural t := by
  have hor : (fun c => (c == '/') || (c == '(' || c == ')')) = isStructural :=
    funext fun c => Bool.or_comm _ _
  rw [Text.escape_escape_eq, hor, escapeStructural]

theorem escape_slashes_brackets (t : Text) :
    Text.escape '\\' (· == '/') (Text.escape '\\' (fun c => c == '(' || c == ')') t) =
      escapeStructural t := Text.escape_escape_eq t

/-- Escaping gives the one text that is fully escaped and reads alike, so it changes just the texts
that are not fully escaped, and patterns never.  Slashes and brackets may be escaped in either order
or at once. -/
theorem escapeStructural_closes (t : Text) :
    isFullyEscaped (escapeStructural t) = true ∧
    (escapeStructural t = t ↔ isFullyEscaped t = true) ∧
    escapeStructural (escapeStructural t) = escapeStructural t ∧
    escapeStructural (compile t).text = (compile t).text ∧
    Text.escape '\\' (fun c => c == '(' || c == ')') (Text.escape '\\' (· == '/') t) =
      escapeStructural t ∧
    Text.escape '\\' (· == '/') (Text.escape '\\' (fun c => c == '(' || c == ')') t) =
      escapeStructural t ∧
    readStructural (escapeStructural t) = readStructural t ∧
    ∀ u, isFullyEscaped u = true ∧ readStructural u = readStructural t ↔ u = escapeStructural t := by
  have hfixed : ∀ u, escapeStructural u = u ↔ isFullyEscaped u = true := fun _ =>
    Text.escape_eq_self_iff
  have hescaped : isFullyEscaped (escapeStructural t) = true := Text.isEscaped_escape t
  refine ⟨hescaped, hfixed t, (hfixed _).mpr hescaped, (hfixed _).mpr (isFullyEscaped_compile t),
    escape_brackets_slashes t, escape_slashes_brackets t, Text.unescape_escape t, fun u => ?_⟩
  exact Text.isEscaped_and_unescape_eq_iff (by decide)

end Expression
end StepStubs
