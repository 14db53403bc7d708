/-
What the style of a scalar says about its text, and how the text is written in it.

A style is chosen by what the text holds, so each one comes with the conditions under which its
reader gives the text back.  Whatever the style, nothing is written that may not stand in a YAML
text, or that would be taken for another line end.
-/
import StepStubs.Proofs.Yaml.Block
import StepStubs.Proofs.Yaml.Plain
import StepStubs.Proofs.Yaml.Quoted

namespace StepStubs
namespace Yaml

/-! ## Styles -/

variable {v : Text}

theorem of_style_plain (h : Style.of v = .plain) : v ≠ [] ∧ allowsPlain v = true := by
  unfold Style.of at h
  split at h
  · split at h <;> exact nomatch h
  · split at h
    · next hplain =>
      obtain ⟨hambiguous, hplain⟩ := Bool.and_eq_true_iff.mp hplain
      refine ⟨?_, hplain⟩
      rintro rfl
      exact nomatch hambiguous
    · split at h <;> exact nomatch h

theorem of_style_singleQuoted (h : Style.of v = .singleQuoted) :
    v.contains '\n' = false ∧ allowsSingleQuotes v = true := by
  unfold Style.of at h
  split at h
  · split at h <;> exact nomatch h
  · next hline =>
    split at h
    · exact nomatch h
    · split at h
      · next hquotes => exact ⟨Bool.eq_false_iff.mpr hline, hquotes⟩
      · exact nomatch h

theorem of_style_literal (h : Style.of v = .literal) :
    v ≠ [] ∧ ∀ c ∈ v, isPrintable c = true := by
  unfold Style.of at h
  split at h
  · next hline =>
    split at h
    · next hliteral =>
      refine ⟨?_, ?_⟩
      · rintro rfl
        exact nomatch hline
      · simp only [allowsLiteral, Bool.and_eq_true] at hliteral
        exact List.all_eq_true.mp hliteral.1.1
    · exact nomatch h
  · split at h
    · exact nomatch h
    · split at h <;> exact nomatch h

/-! ## Writing -/

theorem writeScalar_plain (h : Style.of v = .plain) (depth : Nat) (after : Text) :
    writeScalar depth v ++ after = v ++ '\n' :: after := by
  rw [writeScalar, h]
  exact List.append_assoc ..

theorem writeScalar_singleQuoted (h : Style.of v = .singleQuoted) (depth : Nat) (after : Text) :
    writeScalar depth v ++ after =
      '\'' :: (indentLines depth doubleSingleQuote false v ++
        ((if (v.getLast?.map isBreak).getD false then indentation depth else []) ++
          '\'' :: '\n' :: after)) := by
  rw [writeScalar, h]
  simp only [singleQuote, List.append_assoc, List.cons_append, List.nil_append]

theorem writeScalar_doubleQuoted (h : Style.of v = .doubleQuoted) (depth : Nat) (after : Text) :
    writeScalar depth v ++ after = '"' :: (v.flatMap escapeChar ++ '"' :: '\n' :: after) := by
  rw [writeScalar, h]
  simp only [doubleQuote, List.append_assoc, List.cons_append, List.nil_append]

theorem writeScalar_literal (h : Style.of v = .literal) (depth : Nat) (after : Text) :
    writeScalar depth v ++ after =
      '|' :: (indentationMark v ++ chompingMark v ++
        '\n' :: (indentLines depth List.singleton true v ++ (closingBreak v ++ after))) := by
  rw [writeScalar, h, closingBreak]
  cases (v.getLast?.map isBreak).getD false <;>
    simp [literalBlock]

/-! ## Characters -/

theorem isKept_newline : IsKept '\n' := by decide

theorem isKept_indentation {depth : Nat} : ∀ c ∈ indentation depth, IsKept c := by
  intro c hc
  rw [List.eq_of_mem_replicate hc]
  decide

theorem isKept_hexDigits {width n : Nat} : ∀ c ∈ hexDigits width n, IsKept c := by
  have hdigits : ∀ c ∈ "0123456789ABCDEF".toList, IsKept c :=
    forall_mem_of_all (by decide)
  exact fun c hc => hdigits c (mem_hexDigits hc)

theorem mem_marks (t : Text) :
    ∀ c ∈ indentationMark t ++ chompingMark t, c ∈ ['2', '-', '+'] := by
  refine List.forall_mem_append.mpr ⟨?_, ?_⟩
  · unfold indentationMark
    split
    · split <;> exact forall_mem_of_all (by decide)
    · exact forall_mem_of_all (by decide)
  · unfold chompingMark
    split
    · exact forall_mem_of_all (by decide)
    · split <;> exact forall_mem_of_all (by decide)

theorem isKept_closingBreak (t : Text) : ∀ c ∈ closingBreak t, IsKept c := by
  unfold closingBreak
  split <;> exact forall_mem_of_all (by decide)

theorem isKept_escapeChar (c : Char) : ∀ d ∈ escapeChar c, IsKept d := by
  have hbackslash : IsKept '\\' := by decide
  have hletters : ∀ d ∈ escapeLetters, IsKept d := forall_mem_of_all (by decide)
  rcases escapeChar_cases c with ⟨heq, hprintable, -⟩ | ⟨letter, hmem, heq, -⟩ |
    ⟨letter, hmem, width, heq, -⟩
  · rw [heq]
    exact List.forall_mem_singleton.mpr (isKept_of_isPrintable hprintable)
  · rw [heq]
    exact List.forall_mem_cons.mpr ⟨hbackslash,
      List.forall_mem_singleton.mpr (hletters letter hmem)⟩
  · rw [heq]
    exact List.forall_mem_cons.mpr ⟨hbackslash,
      List.forall_mem_cons.mpr ⟨hletters letter hmem, isKept_hexDigits⟩⟩

theorem isKept_indentLines {depth : Nat} {write : Char → Text} {t : Text}
    (h : ∀ c ∈ t, IsKept c ∧ ∀ d ∈ write c, IsKept d) (atStart : Bool) :
    ∀ d ∈ indentLines depth write atStart t, IsKept d := by
  induction t generalizing atStart with
  | nil => exact fun d hd => nomatch hd
  | cons c t ih =>
    obtain ⟨hc, hwrite⟩ := h c List.mem_cons_self
    have hline : ∀ d ∈ writeIndented depth write atStart c, IsKept d := by
      rw [writeIndented]
      split
      · exact List.forall_mem_singleton.mpr hc
      · split
        · exact List.forall_mem_append.mpr ⟨isKept_indentation, hwrite⟩
        · exact hwrite
    rw [indentLines_cons]
    exact List.forall_mem_append.mpr ⟨hline, ih (fun d hd => h d (List.mem_cons_of_mem c hd)) _⟩

/-- Whatever a text holds, it is written in characters that may stand in a YAML text. -/
theorem isKept_writeScalar (depth : Nat) (v : Text) : ∀ c ∈ writeScalar depth v, IsKept c := by
  rw [← List.append_nil (writeScalar depth v)]
  cases hstyle : Style.of v with
  | plain =>
    have hprintable := (printable_of_allowsPlain (of_style_plain hstyle).2).1
    rw [writeScalar_plain hstyle]
    exact List.forall_mem_append.mpr ⟨fun c hc => isKept_of_isPrintable (hprintable c hc).1,
      forall_mem_of_all (by decide)⟩
  | singleQuoted =>
    have hquotes := (of_style_singleQuoted hstyle).2
    simp only [allowsSingleQuotes, Bool.and_eq_true, List.all_eq_true] at hquotes
    have hchars : ∀ c ∈ v, IsKept c ∧ ∀ d ∈ doubleSingleQuote c, IsKept d := by
      intro c hc
      have hkept := isKept_of_isPrintable (hquotes.1.1 c hc)
      refine ⟨hkept, ?_⟩
      rw [doubleSingleQuote]
      split
      · exact forall_mem_of_all (by decide)
      · exact List.forall_mem_singleton.mpr hkept
    rw [writeScalar_singleQuoted hstyle]
    refine List.forall_mem_cons.mpr ⟨by decide, List.forall_mem_append.mpr
      ⟨isKept_indentLines hchars false, List.forall_mem_append.mpr
        ⟨?_, forall_mem_of_all (by decide)⟩⟩⟩
    split
    · exact isKept_indentation
    · exact fun c hc => absurd hc List.not_mem_nil
  | doubleQuoted =>
    rw [writeScalar_doubleQuoted hstyle]
    refine List.forall_mem_cons.mpr ⟨by decide, List.forall_mem_append.mpr
      ⟨?_, forall_mem_of_all (by decide)⟩⟩
    intro d hd
    obtain ⟨c, -, hc⟩ := List.mem_flatMap.mp hd
    exact isKept_escapeChar c d hc
  | literal =>
    have hprintable := (of_style_literal hstyle).2
    have hchars : ∀ c ∈ v, IsKept c ∧ ∀ d ∈ List.singleton c, IsKept d := by
      intro c hc
      have hkept := isKept_of_isPrintable (hprintable c hc)
      exact ⟨hkept, List.forall_mem_singleton.mpr hkept⟩
    rw [writeScalar_literal hstyle]
    have hmarks : ∀ c ∈ ['2', '-', '+'], IsKept c := forall_mem_of_all (by decide)
    refine List.forall_mem_cons.mpr ⟨by decide, List.forall_mem_append.mpr
      ⟨fun c hc => hmarks c (mem_marks v c hc), List.forall_mem_cons.mpr ⟨isKept_newline, ?_⟩⟩⟩
    exact List.forall_mem_append.mpr ⟨isKept_indentLines hchars true,
      List.forall_mem_append.mpr ⟨isKept_closingBreak v,
        fun c hc => absurd hc List.not_mem_nil⟩⟩

end Yaml
end StepStubs
