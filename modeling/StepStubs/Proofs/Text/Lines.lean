/-
The lines of a text.

A line feed ends a line, so what follows one is cut into lines on its own (`lines_append`).  A
carriage return before the line feed, or any other blank at the end of a line, is gone once the
line is trimmed.
-/
import StepStubs.Proofs.Text.Basic

namespace StepStubs
namespace Text

theorem linesFrom_cons (line : Text) (c : Char) (t : Text) :
    linesFrom line (c :: t) =
      if c = '\n' then endedLine line :: linesFrom [] t else linesFrom (c :: line) t := by
  cases line <;> rfl

/-! ## Texts one after the other -/

theorem linesFrom_append {line a : Text} (h : (a = [] ∧ line = []) ∨ a.getLast? = some '\n')
    (b : Text) : linesFrom line (a ++ b) = linesFrom line a ++ linesFrom [] b := by
  induction a generalizing line with
  | nil =>
    obtain ⟨-, rfl⟩ := h.resolve_right nofun
    rfl
  | cons c a ih =>
    have hlast : (c :: a).getLast? = some '\n' := h.resolve_left fun hnil => nomatch hnil.1
    rw [List.cons_append, linesFrom_cons, linesFrom_cons]
    by_cases hc : c = '\n'
    · rw [if_pos hc, if_pos hc, List.cons_append]
      refine congrArg _ (ih ?_)
      cases a with
      | nil => exact Or.inl ⟨rfl, rfl⟩
      | cons d a => exact Or.inr hlast
    · rw [if_neg hc, if_neg hc]
      refine ih (Or.inr ?_)
      cases a with
      | nil => exact absurd (Option.some.inj hlast) hc
      | cons d a => exact hlast

/-- What follows a line feed starts a line. -/
theorem lines_append {a : Text} (h : a = [] ∨ a.getLast? = some '\n') (b : Text) :
    lines (a ++ b) = lines a ++ lines b :=
  linesFrom_append (h.imp_left fun hnil => ⟨hnil, rfl⟩) b

/-! ## Blanks at the end of a line -/

theorem trim_append {gap : Text} (hgap : ∀ c ∈ gap, isBlank c = true) (t : Text) :
    trim (t ++ gap) = trim t := by
  rw [trim, trim, trimStart, trimStart]
  by_cases ht : ∀ c ∈ t, isBlank c = true
  · rw [List.dropWhile_append_of_pos ht, List.dropWhile_eq_nil_iff.mpr hgap,
      List.dropWhile_eq_nil_iff.mpr ht]
  · -- The first character that is no blank stays at the front, and the blanks are at the end.
    have hne : t.dropWhile isBlank ≠ [] := fun hnil => ht (List.dropWhile_eq_nil_iff.mp hnil)
    have hdrop : (t ++ gap).dropWhile isBlank = t.dropWhile isBlank ++ gap := by
      rw [List.dropWhile_append, if_neg (by simpa using hne)]
    rw [hdrop, trimEnd_eq, trimEnd_eq, List.reverse_append, List.dropWhile_append_of_pos fun c hc =>
      hgap c (List.mem_reverse.mp hc)]

theorem trim_reverse_cons {c : Char} (hc : isBlank c = true) (line : Text) :
    trim (c :: line).reverse = trim line.reverse := by
  rw [List.reverse_cons, trim_append (by simpa using hc)]

theorem trim_endedLine (line : Text) : trim (endedLine line) = trim line.reverse := by
  unfold endedLine
  split
  · exact (trim_reverse_cons (by decide) _).symm
  · rfl

/-- The text with a carriage return put before each line feed. -/
def withReturns (t : Text) : Text := t.flatMap fun c => if c = '\n' then ['\r', '\n'] else [c]

theorem map_trim_linesFrom_withReturns (line t : Text) :
    (linesFrom line (withReturns t)).map trim = (linesFrom line t).map trim := by
  induction t generalizing line with
  | nil => rfl
  | cons c t ih =>
    rw [withReturns, List.flatMap_cons, ← withReturns, linesFrom_cons]
    by_cases hc : c = '\n'
    · rw [if_pos hc, if_pos hc, List.cons_append, List.singleton_append, linesFrom_cons,
        if_neg (by decide), linesFrom_cons, if_pos rfl, List.map_cons, List.map_cons, ih,
        trim_endedLine, trim_endedLine, trim_reverse_cons (by decide)]
    · rw [if_neg hc, if_neg hc, List.singleton_append, linesFrom_cons, if_neg hc, ih]

theorem map_trim_lines_withReturns (t : Text) :
    (lines (withReturns t)).map trim = (lines t).map trim :=
  map_trim_linesFrom_withReturns [] t

end Text
end StepStubs
