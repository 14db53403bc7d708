/-
Quoted scalars are read as the texts that were written.

The reader carries the gap since the last word along, because a line end would fold it.  Between
double quotes every line end is escaped, so the gap is spaces and counts as they stand.  Between
single quotes a line may end with one of the two separators, which fold to themselves; the
indentation that was written after them is passed over.
-/
import StepStubs.Proofs.Yaml.Character
import StepStubs.Yaml.Quoted

namespace StepStubs
namespace Yaml

/-! ## Hexadecimal digits -/

/-- The number that hexadecimal digits make of the number before them. -/
def hexValue? : (before : Nat) → Text → Option Nat
  | n, [] => some n
  | n, d :: ds => (Text.hexDigit? d).bind fun x => hexValue? (n * 16 + x) ds

theorem hexValue?_append (n : Nat) (ds es : Text) :
    hexValue? n (ds ++ es) = (hexValue? n ds).bind fun m => hexValue? m es := by
  induction ds generalizing n with
  | nil => rfl
  | cons d ds ih =>
    rw [List.cons_append, hexValue?, hexValue?]
    cases Text.hexDigit? d with
    | none => rfl
    | some x => exact ih _

theorem toUpper_digitChar {k : Nat} (hk : k < 16) :
    Text.hexDigit? (Nat.digitChar k).toUpper = some k ∧
      (Nat.digitChar k).toUpper ∈ "0123456789ABCDEF".toList := by
  have hall : ∀ k < 16, Text.hexDigit? (Nat.digitChar k).toUpper = some k ∧
      (Nat.digitChar k).toUpper ∈ "0123456789ABCDEF".toList := by decide
  exact hall k hk

theorem hexValue?_toDigits (n : Nat) :
    hexValue? 0 ((Nat.toDigits 16 n).map Char.toUpper) = some n := by
  induction n using Nat.strongRecOn with
  | ind n ih =>
    rw [Nat.toDigits_eq_if (by decide)]
    split
    · next hlt =>
      rw [List.map_singleton, hexValue?, (toUpper_digitChar hlt).1]
      simp only [Option.bind_some, hexValue?, Nat.zero_mul, Nat.zero_add]
    · next hge =>
      have hlast := (toUpper_digitChar (Nat.mod_lt n (by decide : 0 < 16))).1
      rw [List.map_append, List.map_singleton, hexValue?_append, ih _ (by omega), Option.bind_some,
        hexValue?, hlast, Option.bind_some, hexValue?]
      congr 1
      omega

theorem mem_toDigits {n : Nat} {d : Char} (h : d ∈ (Nat.toDigits 16 n).map Char.toUpper) :
    d ∈ "0123456789ABCDEF".toList := by
  induction n using Nat.strongRecOn with
  | ind n ih =>
    rw [Nat.toDigits_eq_if (by decide)] at h
    split at h
    · next hlt =>
      rw [List.mem_singleton.mp h]
      exact (toUpper_digitChar hlt).2
    · next hge =>
      rw [List.map_append, List.mem_append] at h
      rcases h with h | h
      · exact ih _ (by omega) h
      · rw [List.mem_singleton.mp h]
        exact (toUpper_digitChar (Nat.mod_lt n (by decide))).2

theorem mem_hexDigits {width n : Nat} {d : Char} (h : d ∈ hexDigits width n) :
    d ∈ "0123456789ABCDEF".toList := by
  rw [hexDigits, List.mem_append] at h
  rcases h with h | h
  · rw [List.eq_of_mem_replicate h]
    decide
  · exact mem_toDigits h

/-- Zeros fill the digits up to the width. -/
theorem length_hexDigits {width n : Nat} (h : (Nat.toDigits 16 n).length ≤ width) :
    (hexDigits width n).length = width := by
  simp only [hexDigits, List.length_append, List.length_replicate, List.length_map]
  omega

theorem hexValue?_hexDigits (width n : Nat) : hexValue? 0 (hexDigits width n) = some n := by
  have hzeros : ∀ k : Nat, hexValue? 0 (List.replicate k '0') = some 0 := by
    intro k
    induction k with
    | zero => rfl
    | succ k ih => exact ih
  rw [hexDigits, hexValue?_append, hzeros, Option.bind_some, hexValue?_toDigits]

theorem charOf?_toNat (c : Char) : charOf? c.toNat = some c := by
  rw [charOf?, if_pos (show c.toNat.isValidChar from c.valid), Char.ofNat_toNat]

theorem isBreak_of_hexDigit? {d : Char} {x : Nat} (h : Text.hexDigit? d = some x) :
    isBreak d = false := by
  simp only [isBreak, Bool.or_eq_false_iff, decide_eq_false_iff_not]
  refine ⟨⟨?_, ?_⟩, ?_⟩
  · rintro rfl
    exact nomatch h
  · rintro rfl
    exact nomatch h
  · rintro rfl
    exact nomatch h

/-! ## One character -/

variable {q : Quote} {gap : Gap} {done spaces rest : Text} {mark : Mark} {c : Char}

theorem column_after_pos (mark : Mark) (h : isBreak c = false) : 0 < (mark.after c).column := by
  rw [column_after mark h]
  exact Nat.succ_pos _

theorem readQuoted_gap (h : isGap c = true) :
    readQuoted q (.text gap) done mark (c :: rest) =
      readQuoted q (.text (gap.addSpace c)) done (mark.after c) rest := by
  conv => lhs; unfold readQuoted
  simp only [h, if_true]

theorem readQuoted_break (h : isGap c = false) (hbreak : isBreak c = true) :
    readQuoted q (.text gap) done mark (c :: rest) =
      readQuoted q (.text (gap.addBreak c)) done (mark.after c) rest := by
  conv => lhs; unfold readQuoted
  simp only [h, hbreak, Bool.false_eq_true, if_false, if_true]

theorem readQuoted_cons (hcolumn : 0 < mark.column) (hgap : isGap c = false)
    (hbreak : isBreak c = false) (hquote : c ≠ q.char) (hescape : ¬ (q = .double ∧ c = '\\')) :
    readQuoted q (.text gap) done mark (c :: rest) =
      readQuoted q (.text .empty) (c :: (gap.folded ++ done)) (mark.after c) rest := by
  conv => lhs; unfold readQuoted
  simp only [hgap, hbreak, Bool.false_eq_true, if_false, Nat.ne_of_gt hcolumn, false_and, hquote,
    hescape]

/-- The quote ends the scalar, unless it is a doubled single quote. -/
theorem readQuoted_end (hcolumn : 0 < mark.column) (hgap : isGap q.char = false)
    (hbreak : isBreak q.char = false) (hsingle : q = .single → rest.head? ≠ some '\'') :
    readQuoted q (.text gap) done mark (q.char :: rest) =
      .ok ((gap.folded ++ done).reverse, ⟨mark.after q.char, rest⟩) := by
  conv => lhs; unfold readQuoted
  simp only [hgap, hbreak, Bool.false_eq_true, if_false, Nat.ne_of_gt hcolumn, false_and, if_true]
  split
  · exact absurd rfl (hsingle rfl)
  · rfl

/-! ## Between double quotes -/

/-- The digits of a code point are read as the character. -/
theorem readQuoted_digits (q : Quote) {ds : Text} (done rest : Text) (mark : Mark)
    {before n : Nat} (hne : ds ≠ []) (hvalue : hexValue? before ds = some n)
    (hchar : charOf? n = some c) :
    ∃ mark', 0 < mark'.column ∧ readQuoted q (.digits ds.length before) done mark (ds ++ rest) =
      readQuoted q (.text .empty) (c :: done) mark' rest := by
  induction ds generalizing before mark with
  | nil => exact absurd rfl hne
  | cons d ds ih =>
    rw [hexValue?] at hvalue
    obtain ⟨x, hx, hvalue⟩ := Option.bind_eq_some_iff.mp hvalue
    rw [List.cons_append, readQuoted, hx]
    cases ds with
    | nil =>
      refine ⟨_, column_after_pos mark (isBreak_of_hexDigit? hx), ?_⟩
      have hn : before * 16 + x = n := Option.some.inj hvalue
      simp only [List.length_singleton, Nat.le_refl, if_true, hn, hchar, List.nil_append]
    | cons e ds =>
      obtain ⟨mark', hmark, hread⟩ := ih (mark.after d) (List.cons_ne_nil e ds) hvalue
      refine ⟨mark', hmark, ?_⟩
      simp only [List.length_cons, Nat.not_le.mpr (by omega : 1 < ds.length + 1 + 1), if_false]
      exact hread

theorem readQuoted_backslash (hcolumn : 0 < mark.column) :
    readQuoted .double (.text gap) done mark ('\\' :: rest) =
      readQuoted .double .escape (gap.folded ++ done) (mark.after '\\') rest := by
  have hgap : isGap '\\' = false := by decide
  have hbreak : isBreak '\\' = false := by decide
  have hquote : ¬ '\\' = Quote.double.char := by decide
  conv => lhs; unfold readQuoted
  simp only [hgap, hbreak, Bool.false_eq_true, if_false, Nat.ne_of_gt hcolumn, false_and, hquote,
    and_self, if_true]

/-- A backslash and a letter are read as the character that they stand for. -/
theorem readQuoted_escape {d : Char} (hcolumn : 0 < mark.column) (hbreak : isBreak c = false)
    (hd : escaped? c = some d) :
    ∃ mark', 0 < mark'.column ∧
      readQuoted .double (.text gap) done mark ('\\' :: c :: rest) =
        readQuoted .double (.text .empty) (d :: (gap.folded ++ done)) mark' rest := by
  refine ⟨_, column_after_pos (mark.after '\\') hbreak, ?_⟩
  rw [readQuoted_backslash hcolumn, readQuoted, if_neg (by simp [hbreak]), hd]

/-- A code point that is written with a backslash and digits is read as the character. -/
theorem readQuoted_codePoint {letter : Char} {width : Nat} (hcolumn : 0 < mark.column)
    (hbreak : isBreak letter = false) (hletter : escaped? letter = none)
    (hdigits : escapeDigits? letter = some width) (hwidth : 0 < width)
    (hlength : (hexDigits width c.toNat).length = width) :
    ∃ mark', 0 < mark'.column ∧
      readQuoted .double (.text gap) done mark
          ('\\' :: letter :: (hexDigits width c.toNat ++ rest)) =
        readQuoted .double (.text .empty) (c :: (gap.folded ++ done)) mark' rest := by
  have hne : hexDigits width c.toNat ≠ [] := by
    intro hnil
    rw [hnil] at hlength
    exact Nat.ne_of_gt hwidth hlength.symm
  obtain ⟨mark', hmark, hread⟩ := readQuoted_digits .double (gap.folded ++ done) rest
    ((mark.after '\\').after letter) hne (hexValue?_hexDigits width c.toNat) (charOf?_toNat c)
  refine ⟨mark', hmark, ?_⟩
  rw [readQuoted_backslash hcolumn, readQuoted, if_neg (by simp [hbreak]), hletter, hdigits,
    ← hread, hlength]

/-- The letters that are written after a backslash. -/
def escapeLetters : Text := "0abtnvfre\"\\NLPxuU".toList

/-- A character is written as it is, or after a backslash as a letter that stands for it, or as
its code point. -/
theorem escapeChar_cases (c : Char) :
    (escapeChar c = [c] ∧ isPrintable c = true ∧ isBreak c = false ∧ c ≠ '"' ∧ c ≠ '\\') ∨
      (∃ letter ∈ escapeLetters, escapeChar c = ['\\', letter] ∧ escaped? letter = some c) ∨
      ∃ letter ∈ escapeLetters, ∃ width, escapeChar c = '\\' :: letter :: hexDigits width c.toNat ∧
        escaped? letter = none ∧ escapeDigits? letter = some width ∧ 0 < width ∧
        (hexDigits width c.toNat).length = width := by
  have hlength : ∀ {width : Nat}, 0 < width → c.toNat < Nat.pow 16 width →
      (hexDigits width c.toNat).length = width := fun hwidth hc =>
    length_hexDigits ((Nat.length_toDigits_le_iff (by decide) hwidth).mpr hc)
  -- Fourteen characters have a letter of their own; the last case is every other.
  unfold escapeChar
  split
  case h_15 =>
    split
    · next hprintable =>
      refine .inl ⟨rfl, hprintable, ?_, ‹c = '"' → False›, ‹c = '\\' → False›⟩
      simp only [isBreak, Bool.or_eq_false_iff, decide_eq_false_iff_not]
      exact ⟨⟨‹c = '\n' → False›, ‹c = '\u2028' → False›⟩, ‹c = '\u2029' → False›⟩
    · refine .inr (.inr ?_)
      split
      · exact ⟨'x', by decide, 2, rfl, by decide, by decide, by decide,
          hlength (by decide) (Nat.lt_succ_of_le ‹_›)⟩
      · split
        · exact ⟨'u', by decide, 4, rfl, by decide, by decide, by decide,
            hlength (by decide) (Nat.lt_succ_of_le ‹_›)⟩
        · exact ⟨'U', by decide, 8, rfl, by decide, by decide, by decide,
            hlength (by decide) c.val.toNat_lt⟩
  all_goals exact .inr (.inl ⟨_, by decide, rfl, by decide⟩)

/-- What is written for a character is read as the character. -/
theorem readQuoted_escapeChar (c : Char) (done spaces rest : Text) (hcolumn : 0 < mark.column) :
    ∃ spaces' done' mark', spaces' ++ done' = c :: (spaces ++ done) ∧ 0 < mark'.column ∧
      readQuoted .double (.text (.spaces spaces)) done mark (escapeChar c ++ rest) =
        readQuoted .double (.text (.spaces spaces')) done' mark' rest := by
  have hbreak : ∀ letter ∈ escapeLetters, isBreak letter = false :=
    forall_mem_of_all (by decide)
  -- Every character but a space ends the gap before it.
  have hword : ∀ {t : Text}, (∃ mark', 0 < mark'.column ∧
        readQuoted .double (.text (.spaces spaces)) done mark t =
          readQuoted .double (.text .empty) (c :: (spaces ++ done)) mark' rest) →
      ∃ spaces' done' mark', spaces' ++ done' = c :: (spaces ++ done) ∧ 0 < mark'.column ∧
        readQuoted .double (.text (.spaces spaces)) done mark t =
          readQuoted .double (.text (.spaces spaces')) done' mark' rest := by
    rintro t ⟨mark', hmark, hread⟩
    exact ⟨[], _, mark', rfl, hmark, hread⟩
  rcases escapeChar_cases c with ⟨heq, hprintable, hc, hquote, hbackslash⟩ |
    ⟨letter, hmem, heq, hletter⟩ | ⟨letter, hmem, width, heq, hletter, hdigits, hwidth, hlt⟩
  · rw [heq]
    by_cases hspace : c = ' '
    · subst hspace
      exact ⟨' ' :: spaces, done, _, rfl, column_after_pos mark (by decide),
        readQuoted_gap (by decide)⟩
    · exact hword ⟨_, column_after_pos mark hc, readQuoted_cons hcolumn
        (isGap_of_isPrintable hprintable hspace) hc hquote fun h => hbackslash h.2⟩
  · rw [heq]
    exact hword (readQuoted_escape hcolumn (hbreak letter hmem) hletter)
  · rw [heq]
    exact hword (readQuoted_codePoint hcolumn (hbreak letter hmem) hletter hdigits hwidth hlt)

theorem readQuoted_flatMap_escapeChar (t done spaces rest : Text) (hcolumn : 0 < mark.column) :
    ∃ mark', readQuoted .double (.text (.spaces spaces)) done mark
        (t.flatMap escapeChar ++ '"' :: rest) =
      .ok (done.reverse ++ (spaces.reverse ++ t), ⟨mark', rest⟩) := by
  induction t generalizing done spaces mark with
  | nil =>
    refine ⟨mark.after '"', ?_⟩
    have hend : readQuoted .double (.text (.spaces spaces)) done mark ('"' :: rest) =
        .ok ((spaces ++ done).reverse, ⟨mark.after '"', rest⟩) :=
      readQuoted_end hcolumn (by decide) (by decide) fun h => nomatch h
    rw [List.flatMap_nil, List.nil_append, hend, List.reverse_append, List.append_nil]
  | cons c t ih =>
    obtain ⟨spaces', done', mark', heq, hmark, hread⟩ :=
      readQuoted_escapeChar c done spaces (t.flatMap escapeChar ++ '"' :: rest) hcolumn
    obtain ⟨mark'', hrest⟩ := ih done' spaces' hmark
    have hreverse := congrArg List.reverse heq
    rw [List.reverse_append, List.reverse_cons, List.reverse_append, List.append_assoc]
      at hreverse
    refine ⟨mark'', ?_⟩
    rw [List.flatMap_cons, List.append_assoc, hread, hrest, ← List.append_assoc, hreverse,
      List.append_assoc, List.append_assoc, List.singleton_append]

/-! ## Between single quotes -/

/-- May the text follow the gap?  A line end after spaces would take them away, spaces after a
line end would not count, and a line feed would be folded. -/
def Gap.Allows : Gap → Text → Prop
  | .spaces [], _ => True
  | .spaces (_ :: _), t => (t.head?.map isBreak).getD false = false
  | .breaks first _, t => (∃ b, first = some b ∧ b ≠ '\n') ∧ startsWithSpace t = false

theorem readQuoted_doubled (hcolumn : 0 < mark.column) :
    readQuoted .single (.text gap) done mark ('\'' :: '\'' :: rest) =
      readQuoted .single (.text .empty) ('\'' :: (gap.folded ++ done))
        ((mark.after '\'').after '\'') rest := by
  have hgap : isGap '\'' = false := by decide
  have hbreak : isBreak '\'' = false := by decide
  have hquote : '\'' = Quote.single.char := rfl
  conv => lhs; unfold readQuoted
  simp only [hgap, hbreak, Bool.false_eq_true, if_false, Nat.ne_of_gt hcolumn, false_and, ← hquote,
    if_true]

theorem readQuoted_indentation (h : gap.endsLine = true) (depth : Nat) :
    readQuoted q (.text gap) done mark (indentation depth ++ rest) =
      readQuoted q (.text gap) done ((indentation depth).foldl Mark.after mark) rest := by
  have hspace : gap.addSpace ' ' = gap := by
    cases gap with
    | spaces cs => exact nomatch h
    | breaks first more => rfl
  induction depth generalizing mark with
  | zero => rfl
  | succ depth ih =>
    rw [indentation, List.replicate_succ, List.cons_append, readQuoted_gap (by decide), hspace]
    exact ih

/-- Where a line starts its indentation is passed over. -/
theorem readQuoted_lineStart (q : Quote) (gap : Gap) (done rest : Text) {depth : Nat}
    (hdepth : 0 < depth) (hcolumn : gap.endsLine = false → 0 < mark.column) :
    ∃ mark', 0 < mark'.column ∧
      readQuoted q (.text gap) done mark
          ((if gap.endsLine then indentation depth else []) ++ rest) =
        readQuoted q (.text gap) done mark' rest := by
  cases h : gap.endsLine with
  | false => exact ⟨mark, hcolumn h, rfl⟩
  | true =>
    refine ⟨_, ?_, readQuoted_indentation h depth⟩
    rw [column_indentation]
    omega

/-- A line end counts as it stands. -/
theorem Gap.folded_addBreak {t : Text} (hbreak : isBreak c = true) (hc : c ≠ '\n')
    (hbefore : gap.Allows (c :: t)) (hafter : startsWithSpace t = false) :
    (gap.addBreak c).folded = c :: gap.folded ∧ (gap.addBreak c).endsLine = true ∧
      (gap.addBreak c).Allows t := by
  cases gap with
  | spaces cs =>
    cases cs with
    | nil => exact ⟨if_neg hc, rfl, ⟨c, rfl, hc⟩, hafter⟩
    | cons d cs => exact absurd (hbreak.symm.trans hbefore) (by decide)
  | breaks first more =>
    obtain ⟨⟨b, rfl, hb⟩, -⟩ := hbefore
    exact ⟨by simp only [addBreak, folded, if_neg hb, List.cons_append], rfl, ⟨b, rfl, hb⟩, hafter⟩

/-- What is written for a character between single quotes is read as the character. -/
theorem readQuoted_writeIndented {depth : Nat} {t : Text} (hdepth : 0 < depth)
    (hprintable : isPrintable c = true) (hc : c ≠ '\n') (hbefore : gap.Allows (c :: t))
    (hbreakSpace : hasPair isBreak isSpace (c :: t) = false)
    (hspaceBreak : hasPair isSpace isBreak (c :: t) = false)
    (hcolumn : gap.endsLine = false → 0 < mark.column) (done rest : Text) :
    ∃ gap' done' mark', gap'.folded ++ done' = c :: (gap.folded ++ done) ∧
      gap'.endsLine = isBreak c ∧ gap'.Allows t ∧
      (gap'.endsLine = false → 0 < mark'.column) ∧
      readQuoted .single (.text gap) done mark
          (writeIndented depth doubleSingleQuote gap.endsLine c ++ rest) =
        readQuoted .single (.text gap') done' mark' rest := by
  rw [writeIndented]
  cases hbreak : isBreak c with
  | true =>
    obtain ⟨hfolded, hends, hallows⟩ :=
      Gap.folded_addBreak hbreak hc hbefore (hasPair_head hbreakSpace hbreak)
    refine ⟨gap.addBreak c, done, mark.after c, ?_, hends, hallows, ?_, ?_⟩
    · rw [hfolded, List.cons_append]
    · exact fun h => absurd (hends.symm.trans h) (by decide)
    · exact readQuoted_break (isGap_of_isBreak hbreak) hbreak
  | false =>
    by_cases hspace : c = ' '
    · subst hspace
      cases gap with
      | spaces cs =>
        exact ⟨.spaces (' ' :: cs), done, _, rfl, rfl, hasPair_head hspaceBreak rfl,
          fun _ => column_after_pos mark hbreak, readQuoted_gap (by decide)⟩
      | breaks first more => exact absurd hbefore.2 Bool.noConfusion
    · -- Any other character ends the gap, after the indentation of its line.
      have hgap := isGap_of_isPrintable hprintable hspace
      obtain ⟨mark', hmark, hstart⟩ := readQuoted_lineStart .single gap done
        (doubleSingleQuote c ++ rest) hdepth hcolumn
      rw [if_neg Bool.false_ne_true, List.append_assoc, hstart, doubleSingleQuote]
      split
      · next hquote =>
        subst hquote
        exact ⟨.empty, _, _, rfl, rfl, trivial, fun _ => column_after_pos _ hbreak,
          readQuoted_doubled hmark⟩
      · next hquote =>
        exact ⟨.empty, _, _, rfl, rfl, trivial, fun _ => column_after_pos mark' hbreak,
          readQuoted_cons hmark hgap hbreak hquote (by rintro ⟨⟨⟩, -⟩)⟩

theorem readQuoted_indentLines {depth : Nat} (hdepth : 0 < depth) (t done rest : Text)
    (hprintable : ∀ c ∈ t, isPrintable c = true ∧ c ≠ '\n') (hbefore : gap.Allows t)
    (hbreakSpace : hasPair isBreak isSpace t = false)
    (hspaceBreak : hasPair isSpace isBreak t = false)
    (hcolumn : gap.endsLine = false → 0 < mark.column) (hrest : rest.head? ≠ some '\'') :
    ∃ mark', readQuoted .single (.text gap) done mark
        (indentLines depth doubleSingleQuote gap.endsLine t ++
          ((if (t.getLast?.map isBreak).getD gap.endsLine then indentation depth else []) ++
            '\'' :: rest)) =
      .ok ((gap.folded ++ done).reverse ++ t, ⟨mark', rest⟩) := by
  induction t generalizing gap done mark with
  | nil =>
    obtain ⟨mark', hmark, hstart⟩ := readQuoted_lineStart .single gap done
      ('\'' :: rest) hdepth hcolumn
    have hend : readQuoted .single (.text gap) done mark' ('\'' :: rest) =
        .ok ((gap.folded ++ done).reverse, ⟨mark'.after '\'', rest⟩) :=
      readQuoted_end hmark (by decide) (by decide) fun _ => hrest
    refine ⟨mark'.after '\'', ?_⟩
    rw [List.append_nil, ← hend, ← hstart]
    rfl
  | cons c t ih =>
    obtain ⟨hc, hnewline⟩ := hprintable c List.mem_cons_self
    obtain ⟨gap', done', mark', htext, hends, hallows, hmark, hread⟩ :=
      readQuoted_writeIndented hdepth hc hnewline hbefore hbreakSpace hspaceBreak hcolumn done
        (indentLines depth doubleSingleQuote (isBreak c) t ++
          ((if (t.getLast?.map isBreak).getD (isBreak c) then indentation depth else []) ++
            '\'' :: rest))
    obtain ⟨mark'', hih⟩ := ih done'
      (fun d hd => hprintable d (List.mem_cons_of_mem c hd)) hallows (hasPair_tail hbreakSpace)
      (hasPair_tail hspaceBreak) hmark
    refine ⟨mark'', ?_⟩
    rw [indentLines_cons, List.append_assoc, map_getLast?_cons, hread, ← hends, hih, htext,
      List.reverse_cons, List.append_assoc, List.singleton_append]

end Yaml
end StepStubs
