/-
Plain scalars are read as the texts that were written.

A key and a value that is written plainly satisfy the same conditions: nothing in them ends a
plain scalar.  They differ in what follows, a colon for the one and the end of the line for the
other, and in what the reader makes of it.
-/
import StepStubs.Proofs.Yaml.Character
import StepStubs.Yaml.Plain

namespace StepStubs
namespace Yaml

variable {isDeeper : Nat → Bool} {gap : Gap} {done rest : Text} {mark : Mark} {c : Char}

/-! ## One character -/

theorem readPlain_gap (h : isGap c = true) (htab : c ≠ '\t') :
    readPlain false isDeeper gap done mark (c :: rest) =
      readPlain false isDeeper (gap.addSpace c) done (mark.after c) rest := by
  conv => lhs; unfold readPlain
  simp only [h, if_true, htab, false_and, and_false, if_false]

theorem readPlain_break (h : isGap c = false) (hbreak : isBreak c = true) :
    readPlain false isDeeper gap done mark (c :: rest) =
      readPlain false isDeeper (gap.addBreak c) done (mark.after c) rest := by
  conv => lhs; unfold readPlain
  simp only [h, hbreak, Bool.false_eq_true, if_false, if_true]

theorem readPlain_indentation {first : Option Char} {more : Text} (k : Nat) :
    readPlain false isDeeper (.breaks first more) done mark (indentation k ++ rest) =
      readPlain false isDeeper (.breaks first more) done
        ((indentation k).foldl Mark.after mark) rest := by
  induction k generalizing mark with
  | zero => rfl
  | succ k ih =>
    rw [indentation, List.replicate_succ, List.cons_append, readPlain_gap (by decide) (by decide)]
    exact ih

/-- The scalar ends where a line starts that is not indented deeply enough. -/
theorem readPlain_endsGap (hgap : isGap c = false) (hbreak : isBreak c = false)
    (h : endsPlainGap false isDeeper gap mark.column (c :: rest) = true) :
    readPlain false isDeeper gap done mark (c :: rest) =
      .ok (done.reverse, gap, ⟨mark, c :: rest⟩) := by
  conv => lhs; unfold readPlain
  simp only [hgap, hbreak, h, Bool.false_eq_true, if_false, if_true]

theorem readPlain_colon (hcolumn : 0 < mark.column) (hrest : atGap rest = true) :
    readPlain false isDeeper .empty done mark (':' :: rest) =
      .ok (done.reverse, .empty, ⟨mark, ':' :: rest⟩) := by
  have hgap : isGap ':' = false := by decide
  have hbreak : isBreak ':' = false := by decide
  have hends : endsPlainGap false isDeeper .empty mark.column (':' :: rest) = false := by
    simp [endsPlainGap, Gap.empty, Gap.endsLine, Nat.ne_of_gt hcolumn]
  have hword : endsPlainWord false (':' :: rest) = true := by
    rw [endsPlainWord, atValueColon, hrest]
    rfl
  conv => lhs; unfold readPlain
  simp only [hgap, hbreak, hends, hword, Bool.false_eq_true, false_and, if_false, if_true]

theorem readPlain_cons (hgap : isGap c = false) (hbreak : isBreak c = false)
    (hends : endsPlainGap false isDeeper gap mark.column (c :: rest) = false)
    (hcolon : atValueColon (c :: rest) = false) :
    readPlain false isDeeper gap done mark (c :: rest) =
      readPlain false isDeeper .empty (c :: (gap.folded ++ done)) (mark.after c) rest := by
  have hword : endsPlainWord false (c :: rest) = false := by
    rw [endsPlainWord, hcolon]
    rfl
  conv => lhs; unfold readPlain
  simp only [hgap, hbreak, hends, hword, Bool.false_eq_true, false_and, if_false]

/-! ## Words -/

theorem hasPlainEnd_tail {t : Text} (h : hasPlainEnd (c :: t) = false) : hasPlainEnd t = false := by
  simp only [hasPlainEnd, Bool.or_eq_false_iff, decide_eq_false_iff_not] at h ⊢
  obtain ⟨⟨hcolon, hlast⟩, hcomment⟩ := h
  refine ⟨⟨hasPair_tail hcolon, ?_⟩, hasPair_tail hcomment⟩
  intro ht
  rw [List.getLast?_cons, ht] at hlast
  exact hlast rfl

/-- No colon of the text stands before a gap. -/
theorem atValueColon_append {t : Text} (h : hasPlainEnd (c :: t) = false)
    (hprintable : ∀ d ∈ t, isPrintable d = true) (after : Text) :
    atValueColon (c :: (t ++ after)) = false := by
  simp only [hasPlainEnd, Bool.or_eq_false_iff, decide_eq_false_iff_not] at h
  obtain ⟨⟨hcolon, hlast⟩, -⟩ := h
  unfold atValueColon
  split
  · next rest heq =>
    obtain ⟨rfl, rfl⟩ := List.cons.inj heq
    cases t with
    | nil => exact absurd rfl hlast
    | cons d t =>
      have hpair := hasPair_head hcolon (decide_eq_true rfl)
      obtain ⟨hspace, hbreak⟩ := Bool.or_eq_false_iff.mp hpair
      have hgap : isGap d = false :=
        isGap_of_isPrintable (hprintable d List.mem_cons_self) (of_decide_eq_false hspace)
      rw [List.cons_append, atGap, hgap, hbreak]
      rfl
  · rfl

/-- A text without an end of a plain scalar is read up to what follows it. -/
theorem readPlain_append (isDeeper : Nat → Bool) (t cs done after : Text)
    (hprintable : ∀ c ∈ t, isPrintable c = true ∧ isBreak c = false)
    (hend : hasPlainEnd t = false) (hcomment : cs ≠ [] → t.head? ≠ some '#')
    (hlast : (t.getLast?.map isSpace).getD (!cs.isEmpty) = false)
    (hmarker : mark.column = 0 → atMarker (t ++ after) = false) :
    readPlain false isDeeper (.spaces cs) done mark (t ++ after) =
      readPlain false isDeeper .empty (t.reverse ++ (cs ++ done)) (t.foldl Mark.after mark)
        after := by
  -- Spaces wait in the gap until a word follows, so the induction carries the gap along.
  induction t generalizing cs done mark with
  | nil =>
    cases cs with
    | nil => rfl
    | cons d cs => exact absurd hlast Bool.noConfusion
  | cons c t ih =>
    obtain ⟨hc, hbreak⟩ := hprintable c List.mem_cons_self
    have hprintable' := fun d hd => hprintable d (List.mem_cons_of_mem c hd)
    have hmarker' : (mark.after c).column = 0 → atMarker (t ++ after) = false := by
      intro h
      rw [column_after mark hbreak] at h
      exact absurd h (Nat.succ_ne_zero _)
    rw [map_getLast?_cons] at hlast
    rw [List.cons_append, List.reverse_cons, List.append_assoc, List.singleton_append,
      List.foldl_cons]
    by_cases hspace : c = ' '
    · subst hspace
      have hcomment' : ' ' :: cs ≠ [] → t.head? ≠ some '#' := by
        intro _ ht
        have hpair := hasPair_head (Bool.or_eq_false_iff.mp hend).2 rfl
        rw [ht] at hpair
        exact absurd hpair (by decide)
      rw [readPlain_gap (by decide) (by decide)]
      exact ih (' ' :: cs) done hprintable' (hasPlainEnd_tail hend) hcomment' hlast hmarker'
    · have hgap := isGap_of_isPrintable hc hspace
      have hends : endsPlainGap false isDeeper (.spaces cs) mark.column (c :: (t ++ after)) =
          false := by
        simp only [endsPlainGap, Gap.endsLine, Gap.empty, Bool.false_and, Bool.false_or,
          Bool.or_eq_false_iff, Bool.and_eq_false_imp, decide_eq_true_eq, decide_eq_false_iff_not,
          List.head?_cons, Option.some.injEq]
        exact ⟨hmarker, fun h hc => hcomment
          (fun hcs => of_decide_eq_true h (congrArg Gap.spaces hcs)) (congrArg some hc)⟩
      have hcolon := atValueColon_append hend (fun d hd => (hprintable' d hd).1) after
      have hlast' : (t.getLast?.map isSpace).getD (!([] : Text).isEmpty) = false := by
        have hc' : isSpace c = false := decide_eq_false hspace
        rwa [hc'] at hlast
      rw [readPlain_cons hgap hbreak hends hcolon]
      exact ih [] (c :: (cs ++ done)) hprintable' (hasPlainEnd_tail hend) (fun h => absurd rfl h)
        hlast' hmarker'

/-! ## Keys and values -/

theorem printable_of_allowsPlain {t : Text} (h : allowsPlain t = true) :
    (∀ c ∈ t, isPrintable c = true ∧ isBreak c = false) ∧ endsWithSpace t = false ∧
      hasPlainEnd t = false := by
  simp only [allowsPlain, Bool.and_eq_true, Bool.not_eq_true', List.all_eq_true,
    List.any_eq_false] at h
  obtain ⟨⟨⟨⟨⟨hprintable, hbreak⟩, -⟩, hspace⟩, -⟩, hend⟩ := h
  exact ⟨fun c hc => ⟨hprintable c hc, Bool.eq_false_iff.mpr (hbreak c hc)⟩, hspace, hend⟩

theorem readPlain_of_allowsPlain {t : Text} (h : allowsPlain t = true) (after : Text)
    (hmarker : mark.column = 0 → atMarker (t ++ after) = false) :
    readPlain false isDeeper .empty [] mark (t ++ after) =
      readPlain false isDeeper .empty t.reverse
        ⟨mark.line, mark.column + t.length, mark.index + t.length⟩ after := by
  obtain ⟨hprintable, hspace, hend⟩ := printable_of_allowsPlain h
  have hread := readPlain_append isDeeper t [] [] after hprintable hend
    (fun h => absurd rfl h) hspace hmarker
  rwa [foldl_after fun c hc => (hprintable c hc).2, List.append_nil, List.append_nil] at hread

/-- A key ends before its colon. -/
theorem readPlain_key {t : Text} (h : allowsPlain t = true) (hne : t ≠ [])
    (hrest : atGap rest = true) (hmarker : mark.column = 0 → atMarker (t ++ ':' :: rest) = false) :
    readPlain false isDeeper .empty [] mark (t ++ ':' :: rest) =
      .ok (t, .empty, ⟨⟨mark.line, mark.column + t.length, mark.index + t.length⟩,
        ':' :: rest⟩) := by
  have hlength := List.length_pos_iff.mpr hne
  rw [readPlain_of_allowsPlain h _ hmarker, readPlain_colon (Nat.add_pos_right _ hlength) hrest,
    List.reverse_reverse]

/-- A value ends with its line, if the next line is not indented more deeply. -/
theorem readPlain_value {t : Text} (h : allowsPlain t = true) (hcolumn : 0 < mark.column)
    {k : Nat} (hdeeper : isDeeper k = false) (hrest : StartsToken rest) :
    ∃ mark', mark'.column = k ∧
      readPlain false isDeeper .empty [] mark (t ++ '\n' :: (indentation k ++ rest)) =
        .ok (t, .breaks (some '\n') [], ⟨mark', rest⟩) := by
  have hmarker : mark.column = 0 → atMarker (t ++ '\n' :: (indentation k ++ rest)) = false :=
    fun h => absurd h (Nat.ne_of_gt hcolumn)
  let lineEnd : Mark := ⟨mark.line, mark.column + t.length, mark.index + t.length⟩
  refine ⟨(indentation k).foldl Mark.after (lineEnd.after '\n'), ?_, ?_⟩
  · rw [column_indentation, column_after_of_isBreak lineEnd (by decide), Nat.zero_add]
  rw [readPlain_of_allowsPlain h _ hmarker, readPlain_break (by decide) (by decide)]
  refine (readPlain_indentation k).trans ?_
  cases rest with
  | nil => rw [readPlain, List.reverse_reverse]
  | cons c rest =>
    obtain ⟨hgap, hbreak, -⟩ := hrest c rfl
    have hends : endsPlainGap false isDeeper (.breaks (some '\n') [])
        ((indentation k).foldl Mark.after (lineEnd.after '\n')).column (c :: rest) = true := by
      rw [column_indentation, column_after_of_isBreak lineEnd (by decide), Nat.zero_add,
        endsPlainGap, hdeeper]
      rfl
    exact (readPlain_endsGap hgap hbreak hends).trans (by rw [List.reverse_reverse])

end Yaml
end StepStubs
