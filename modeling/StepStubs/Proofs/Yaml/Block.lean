/-
Literal blocks are read as the texts that were written.

The reader splits what it has read into the finished lines, the end of the line before, and the
ends of the empty lines after it, since the first line of the block decides which of these
count.  Put together they are always the text so far; the two forms of the end of a text decide
which of them is still empty when the block ends.
-/
import StepStubs.Proofs.Yaml.Character
import StepStubs.Yaml.Block

namespace StepStubs
namespace Yaml

variable {b : BlockReader} {depth : Nat} {mark : Mark} {read rest : Text} {c : Char}

/-! ## One character -/

/-- The reader of a literal block, `depth` columns in, has read a text, given latest character
first. -/
structure BlockReader.HasRead (depth : Nat) (b : BlockReader) (mark : Mark) (read : Text) :
    Prop where
  isLiteral : b.isLiteral = true
  column : b.column = some depth
  text : b.emptyLines ++ (b.lineEnd.toList ++ b.done) = read
  inLine : b.inLine = true → b.emptyLines = [] ∧ b.lineEnd = none
  lineStart : b.inLine = false → mark.column = 0 ∧ (read.head?.map isBreak).getD true = true
  emptyLines : b.emptyLines ≠ [] → endsWithEmptyLine read.reverse = true

theorem readBlock_indentation {k : Nat} (hline : b.inLine = false)
    (hcolumn : b.column = none ∨ b.column = some depth) (hk : mark.column + k ≤ depth) :
    readBlock b mark (indentation k ++ rest) =
      readBlock b ((indentation k).foldl Mark.after mark) rest := by
  induction k generalizing mark with
  | zero => rfl
  | succ k ih =>
    have hin : b.inIndentation mark.column = true := by
      rw [BlockReader.inIndentation]
      rcases hcolumn with h | h
      · rw [h]
      · rw [h]
        exact decide_eq_true (by omega)
    have hafter : (mark.after ' ').column + k ≤ depth := by
      rw [column_after mark (by decide)]
      omega
    rw [indentation, List.replicate_succ, List.cons_append, readBlock]
    simp only [hline, hin, Bool.false_eq_true, if_false, and_self, if_true]
    exact ih hafter

/-- A character at the column of the lines starts a line. -/
theorem readBlock_startLine (hline : b.inLine = false) (hbreak : isBreak c = false)
    (hgap : b.inIndentation mark.column = true → isGap c = false)
    (hsettled : mark.column = b.settledColumn mark.column) :
    readBlock b mark (c :: rest) = readBlock (b.startLine c mark.column) (mark.after c) rest := by
  have hspace : ¬ (b.inIndentation mark.column = true ∧ c = ' ') :=
    fun h => (ne_of_isGap (hgap h.1)).1 h.2
  have htab : ¬ (b.inIndentation mark.column = true ∧ c = '\t') :=
    fun h => (ne_of_isGap (hgap h.1)).2 h.2
  conv => lhs; unfold readBlock
  simp only [hline, hspace, htab, hbreak, Bool.false_eq_true, if_false]
  rw [if_pos hsettled]

/-- A line end after characters is kept apart from them. -/
theorem readBlock_lineEnd (hline : b.inLine = true) (hbreak : isBreak c = true) :
    readBlock b mark (c :: rest) =
      readBlock { b with lineEnd := some c, inLine := false } (mark.after c) rest := by
  rw [readBlock, if_pos hline, if_pos hbreak]

/-- A line end at the start of a line is that of an empty line. -/
theorem readBlock_emptyLine (hline : b.inLine = false) (hbreak : isBreak c = true) :
    readBlock b mark (c :: rest) =
      readBlock
        { b with widest := max b.widest mark.column, emptyLines := c :: b.emptyLines }
        (mark.after c) rest := by
  obtain ⟨hspace, htab⟩ := ne_of_isGap (isGap_of_isBreak hbreak)
  conv => lhs; unfold readBlock
  simp only [hline, hspace, htab, hbreak, Bool.false_eq_true, and_false, if_false, if_true]

theorem readBlock_cons (hline : b.inLine = true) (hbreak : isBreak c = false) :
    readBlock b mark (c :: rest) =
      readBlock { b with done := c :: b.done } (mark.after c) rest := by
  rw [readBlock, if_pos hline, if_neg (by simp [hbreak])]

namespace BlockReader.HasRead

theorem lineEnd (hb : b.HasRead depth mark read) (hline : b.inLine = true)
    (hbreak : isBreak c = true) :
    HasRead depth { b with lineEnd := some c, inLine := false } (mark.after c) (c :: read) := by
  obtain ⟨hempty, hend⟩ := hb.inLine hline
  have htext := hb.text
  rw [hempty, hend] at htext
  refine ⟨hb.isLiteral, hb.column, ?_, (fun h => nomatch h),
    fun _ => ⟨column_after_of_isBreak mark hbreak, hbreak⟩, fun h => absurd hempty h⟩
  show b.emptyLines ++ c :: b.done = c :: read
  rw [hempty, ← htext]
  rfl

theorem emptyLine (hb : b.HasRead depth mark read) (hline : b.inLine = false)
    (hbreak : isBreak c = true) :
    HasRead depth { b with widest := max b.widest mark.column, emptyLines := c :: b.emptyLines }
      (mark.after c) (c :: read) := by
  refine ⟨hb.isLiteral, hb.column, congrArg (c :: ·) hb.text,
    fun h => absurd (hline.symm.trans h) Bool.false_ne_true,
    fun _ => ⟨column_after_of_isBreak mark hbreak, hbreak⟩, fun _ => ?_⟩
  rw [endsWithEmptyLine, List.reverse_reverse]
  have hbefore := (hb.lineStart hline).2
  cases read with
  | nil => exact hbreak
  | cons d read => exact Bool.and_eq_true_iff.mpr ⟨hbreak, hbefore⟩

theorem cons (hb : b.HasRead depth mark read) (hline : b.inLine = true) (c : Char) :
    HasRead depth { b with done := c :: b.done } (mark.after c) (c :: read) := by
  obtain ⟨hempty, hend⟩ := hb.inLine hline
  have htext := hb.text
  rw [hempty, hend] at htext
  refine ⟨hb.isLiteral, hb.column, ?_, hb.inLine, (fun h => nomatch hline.symm.trans h),
    fun h => absurd hempty h⟩
  show b.emptyLines ++ (b.lineEnd.toList ++ c :: b.done) = c :: read
  rw [hempty, hend, ← htext]
  rfl

theorem startLine (hb : b.HasRead depth mark read) (c : Char) (mark' : Mark) :
    HasRead depth (b.startLine c depth) mark' (c :: read) := by
  refine ⟨hb.isLiteral, rfl, ?_, fun _ => ⟨rfl, rfl⟩, (fun h => nomatch h),
    fun h => absurd rfl h⟩
  show c :: b.joined c = c :: read
  rw [joined, hb.isLiteral, ← hb.text]
  rfl

end BlockReader.HasRead

theorem readBlock_writeIndented (hb : b.HasRead depth mark read) (c : Char) (rest : Text) :
    ∃ b' mark', b'.HasRead depth mark' (c :: read) ∧ b'.chomping = b.chomping ∧
      b'.inLine = !isBreak c ∧
      readBlock b mark (writeIndented depth List.singleton (!b.inLine) c ++ rest) =
        readBlock b' mark' rest := by
  rw [writeIndented]
  cases hbreak : isBreak c with
  | true =>
    cases hline : b.inLine with
    | true =>
      exact ⟨_, _, hb.lineEnd hline hbreak, rfl, rfl, readBlock_lineEnd hline hbreak⟩
    | false =>
      exact ⟨_, _, hb.emptyLine hline hbreak, rfl, hline, readBlock_emptyLine hline hbreak⟩
  | false =>
    cases hline : b.inLine with
    | true => exact ⟨_, _, hb.cons hline c, rfl, hline, readBlock_cons hline hbreak⟩
    | false =>
      -- The character starts a line, behind the indentation that was written for it.
      have hcolumn : ((indentation depth).foldl Mark.after mark).column = depth := by
        rw [column_indentation, (hb.lineStart hline).1, Nat.zero_add]
      have hread : readBlock b mark (indentation depth ++ c :: rest) =
          readBlock (b.startLine c depth) (((indentation depth).foldl Mark.after mark).after c)
            rest := by
        rw [readBlock_indentation hline (.inr hb.column) (by rw [(hb.lineStart hline).1]; omega),
          readBlock_startLine hline hbreak, hcolumn]
        · intro hin
          rw [hcolumn, BlockReader.inIndentation, hb.column] at hin
          exact absurd (of_decide_eq_true hin) (Nat.lt_irrefl depth)
        · rw [BlockReader.settledColumn, hb.column, hcolumn, Option.getD_some]
      exact ⟨_, _, hb.startLine c _, rfl, rfl, (congrArg _ (List.append_assoc ..)).trans hread⟩

/-! ## Lines -/

/-- The lines of a text are read as the text, up to what follows them. -/
theorem readBlock_indentLines (hb : b.HasRead depth mark read)
    (t after : Text) :
    ∃ b' mark', b'.HasRead depth mark' (t.reverse ++ read) ∧ b'.chomping = b.chomping ∧
      b'.inLine = !(t.getLast?.map isBreak).getD (!b.inLine) ∧
      readBlock b mark (indentLines depth List.singleton (!b.inLine) t ++ after) =
        readBlock b' mark' after := by
  induction t generalizing b mark read with
  | nil => exact ⟨b, mark, hb, rfl, (Bool.not_not _).symm, rfl⟩
  | cons c t ih =>
    obtain ⟨b', mark', hb', hchomping, hline, hread⟩ := readBlock_writeIndented hb c
      (indentLines depth List.singleton (isBreak c) t ++ after)
    obtain ⟨b'', mark'', hb'', hchomping', hline', hread'⟩ := ih hb'
    rw [hline, Bool.not_not] at hline' hread'
    refine ⟨b'', mark'', ?_, hchomping'.trans hchomping, ?_, ?_⟩
    · rwa [List.reverse_cons, List.append_assoc]
    · rw [map_getLast?_cons, hline']
    · rw [indentLines_cons, List.append_assoc, hread, hread']

/-- The block ends where a line starts that is not indented as deeply. -/
theorem readBlock_end {k : Nat} (hb : b.HasRead depth mark read) (hline : b.inLine = false)
    (hk : k < depth) (hrest : StartsToken rest) :
    ∃ mark', mark'.column = k ∧
      readBlock b mark (indentation k ++ rest) = .ok (b.finish, ⟨mark', rest⟩) := by
  have hcolumn : ((indentation k).foldl Mark.after mark).column = k := by
    rw [column_indentation, (hb.lineStart hline).1, Nat.zero_add]
  refine ⟨_, hcolumn, ?_⟩
  rw [readBlock_indentation hline (.inr hb.column) (by rw [(hb.lineStart hline).1]; omega)]
  cases rest with
  | nil => rw [readBlock]
  | cons c rest =>
    obtain ⟨hgap, hbreak, -⟩ := hrest c rfl
    obtain ⟨hspace, htab⟩ := ne_of_isGap hgap
    have hsettled : ¬ k = b.settledColumn k := by
      rw [BlockReader.settledColumn, hb.column, Option.getD_some]
      exact Nat.ne_of_lt hk
    conv => lhs; unfold readBlock
    simp only [hline, hspace, htab, hbreak, hcolumn, hsettled, Bool.false_eq_true, and_false,
      if_false]

/-! ## The first line -/

/-- The first line shows the indentation, unless it starts with a space or is empty. -/
theorem readBlock_settle {least : Nat} {chomping : Chomping} (hleast : least ≤ depth)
    (hcolumn : mark.column = 0) (hgap : isGap c = false) (hbreak : isBreak c = false)
    (rest : Text) :
    readBlock (.start true chomping least none) mark (indentation depth ++ c :: rest) =
      readBlock (.start true chomping least (some depth)) mark
        (indentation depth ++ c :: rest) := by
  have hdepth : ((indentation depth).foldl Mark.after mark).column = depth := by
    rw [column_indentation, hcolumn, Nat.zero_add]
  have hstart : ∀ column, column = none ∨ column = some depth →
      readBlock (.start true chomping least column) mark (indentation depth ++ c :: rest) =
        readBlock ((BlockReader.start true chomping least column).startLine c depth)
          (((indentation depth).foldl Mark.after mark).after c) rest := by
    intro column h
    rw [readBlock_indentation rfl h (by omega), readBlock_startLine rfl hbreak fun _ => hgap,
      hdepth]
    rw [hdepth]
    rcases h with rfl | rfl
    · show depth = max (max 0 depth) least
      omega
    · rfl
  exact (hstart none (.inl rfl)).trans (hstart (some depth) (.inr rfl)).symm

/-- What becomes of the line ends at the end of a text when it is read. -/
def chompingOf (t : Text) : Chomping :=
  if !(t.getLast?.map isBreak).getD false then .strip
  else if endsWithEmptyLine t then .keep
  else .clip

theorem blockHeader_marks (t body : Text) :
    blockHeader (indentationMark t ++ chompingMark t ++ '\n' :: body) =
      (⟨chompingOf t, (indentationMark t).head?.map fun _ => 2⟩, '\n' :: body) := by
  have hindentation : indentationMark t = [] ∨ indentationMark t = ['2'] := by
    unfold indentationMark
    split
    · split
      · exact .inr rfl
      · exact .inl rfl
    · exact .inl rfl
  rw [chompingMark, chompingOf]
  rcases hindentation with h | h <;> rw [h] <;> (repeat' split) <;> rfl

/-! ## Blocks -/

/-- The line end that is written after a text that does not end with one. -/
def closingBreak (t : Text) : Text := if (t.getLast?.map isBreak).getD false then [] else ['\n']

/-- The reader has the whole text when its last line end, if it has one, is no more than was
written to end the block. -/
theorem finish_of_hasRead {t : Text} (hb : b.HasRead depth mark t.reverse)
    (hlast : (t.getLast?.map isBreak).getD false = true) (hchomping : b.chomping = chompingOf t) :
    b.finish = t := by
  have htext := hb.text
  rw [chompingOf, hlast, Bool.not_true, if_neg Bool.false_ne_true] at hchomping
  rw [BlockReader.finish, hchomping]
  by_cases hempty : endsWithEmptyLine t = true
  · rw [if_pos hempty]
    show (b.emptyLines ++ (b.lineEnd.toList ++ b.done)).reverse = t
    rw [htext, List.reverse_reverse]
  · have hnone : b.emptyLines = [] := Decidable.byContradiction fun h =>
      hempty (by simpa only [List.reverse_reverse] using hb.emptyLines h)
    rw [hnone] at htext
    rw [if_neg hempty]
    show (b.lineEnd.toList ++ b.done).reverse = t
    rw [← List.reverse_reverse t, ← htext, List.nil_append]

/-- The lines of a text are read as the text, whatever it ends with. -/
theorem readBlock_text (least : Nat) {k : Nat} {t : Text} (hne : t ≠ []) (hcolumn : mark.column = 0)
    (hk : k < depth) (hrest : StartsToken rest) :
    ∃ mark', mark'.column = k ∧
      readBlock (.start true (chompingOf t) least (some depth)) mark
          (indentLines depth List.singleton true t ++
            (closingBreak t ++ (indentation k ++ rest))) =
        .ok (t, ⟨mark', rest⟩) := by
  have hstart : (BlockReader.start true (chompingOf t) least (some depth)).HasRead depth mark [] :=
    ⟨rfl, rfl, rfl, (fun h => nomatch h), fun _ => ⟨hcolumn, rfl⟩, fun h => absurd rfl h⟩
  obtain ⟨b, mark', hb, hchomping, hline, hread⟩ := readBlock_indentLines hstart t
    (closingBreak t ++ (indentation k ++ rest))
  rw [List.append_nil] at hb
  have hlast : (t.getLast?.map isBreak).getD false = !b.inLine := by
    rw [hline, Bool.not_not, List.getLast?_eq_some_getLast hne]
    rfl
  -- A text that ends its last line closes the block; any other gets a line end that is stripped.
  cases hinLine : b.inLine with
  | false =>
    rw [hinLine, Bool.not_false] at hlast
    obtain ⟨mark'', hmark, hend⟩ := readBlock_end hb hinLine hk hrest
    have hclosing : closingBreak t = [] := if_pos hlast
    rw [finish_of_hasRead hb hlast hchomping] at hend
    rw [hclosing, List.nil_append] at hread ⊢
    exact ⟨mark'', hmark, hread.trans hend⟩
  | true =>
    rw [hinLine, Bool.not_true] at hlast
    obtain ⟨hempty, hend⟩ := hb.inLine hinLine
    have htext := hb.text
    rw [hempty, hend] at htext
    have hclosed := hb.lineEnd hinLine (c := '\n') (by decide)
    obtain ⟨mark'', hmark, hend⟩ := readBlock_end hclosed rfl hk hrest
    have hfinish : BlockReader.finish { b with lineEnd := some '\n', inLine := false } = t := by
      have hstrip : b.chomping = .strip := by
        rw [hchomping]
        show chompingOf t = .strip
        rw [chompingOf, hlast]
        rfl
      rw [BlockReader.finish, hstrip]
      show b.done.reverse = t
      rw [← List.reverse_reverse t, ← htext]
      rfl
    have hclosing : closingBreak t = ['\n'] := if_neg (by simp [hlast])
    rw [hfinish] at hend
    rw [hclosing, List.singleton_append] at hread ⊢
    exact ⟨mark'', hmark, hread.trans ((readBlock_lineEnd hinLine (by decide)).trans hend)⟩

/-- The lines start after the first line of the block. -/
theorem readBlockScalar_marks (column : Nat) (mark : Mark) (t body : Text) :
    ∃ mark', mark'.column = 0 ∧
      readBlockScalar true (some column) ⟨mark, indentationMark t ++ chompingMark t ++
          '\n' :: body⟩ =
        readBlock (.start true (chompingOf t) (column + 1)
          ((indentationMark t).head?.map fun _ => column + 2)) mark' body := by
  let marks := indentationMark t ++ chompingMark t
  refine ⟨(marks.foldl Mark.after mark).after '\n', column_after_of_isBreak _ (by decide), ?_⟩
  have hlines : (⟨mark, marks ++ '\n' :: body⟩ : Cursor).moveTo body =
      ⟨(marks.foldl Mark.after mark).after '\n', body⟩ := by
    have h := Cursor.moveTo_append mark (marks ++ ['\n']) body
    rwa [List.append_assoc, List.singleton_append, List.foldl_append] at h
  have hskip : skipComment ('\n' :: body) = '\n' :: body := rfl
  have hend : (!atLineEnd ('\n' :: body)) = false := rfl
  unfold readBlockScalar
  simp only [blockHeader_marks, hskip, hend, Bool.false_eq_true, if_false, List.drop_one,
    List.tail_cons, Option.map_map]
  rw [hlines]
  rfl

/-- A literal block is read as its text, from after its indicator. -/
theorem readBlockScalar_literalBlock (mark : Mark) {column k : Nat} {t : Text} (hne : t ≠ [])
    (hprintable : ∀ c ∈ t, isPrintable c = true) (hk : k ≤ column) (hrest : StartsToken rest) :
    ∃ mark', mark'.column = k ∧
      readBlockScalar true (some column) ⟨mark, indentationMark t ++ chompingMark t ++
          '\n' :: (indentLines (column + 2) List.singleton true t ++
            (closingBreak t ++ (indentation k ++ rest)))⟩ =
        .ok (t, ⟨mark', rest⟩) := by
  obtain ⟨start, hstart, hmarks⟩ := readBlockScalar_marks column mark t
    (indentLines (column + 2) List.singleton true t ++
      (closingBreak t ++ (indentation k ++ rest)))
  obtain ⟨mark', hmark, hread⟩ := readBlock_text (column + 1) hne hstart
    (by omega : k < column + 2) hrest
  refine ⟨mark', hmark, hmarks.trans ?_⟩
  -- Where the first line does not show the indentation, its mark was written.
  cases t with
  | nil => exact absurd rfl hne
  | cons c t =>
    cases hfirst : isSpace c || isBreak c with
    | true =>
      have hshown : indentationMark (c :: t) = ['2'] := if_pos hfirst
      rw [hshown]
      exact hread
    | false =>
      have hshown : indentationMark (c :: t) = [] := if_neg (by simp [hfirst])
      obtain ⟨hspace, hbreak⟩ := Bool.or_eq_false_iff.mp hfirst
      have hgap : isGap c = false :=
        isGap_of_isPrintable (hprintable c List.mem_cons_self) (of_decide_eq_false hspace)
      rw [hshown, ← hread, indentLines_cons, writeIndented, if_neg (by simp [hbreak]), if_pos rfl,
        List.append_assoc, List.append_assoc]
      exact readBlock_settle (Nat.le_succ _) hstart hgap hbreak _

end Yaml
end StepStubs
