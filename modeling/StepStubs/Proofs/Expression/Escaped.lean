/-
Patterns that compile to themselves.

A step may be written as a pattern already, with a backslash before each bracket, slash and brace.
Compiling it should change nothing, and each pass but one leaves such a text alone: what is escaped
is not escaped again, and a slash that stands behind a backslash is not between two words.  The pass
for slash groups does not look at backslashes.  It opens any group with a slash in it, so the group
loses its brackets, and the backslashes before these come to stand before other characters.

`compile_eq_self_iff` says that this is the only way to change: a pattern without parameters, digits
and quotes compiles to itself exactly if no slash stands between an opening bracket and the first
closing one after it.  If one does, the pattern that comes out has fewer opening brackets.
-/
import StepStubs.Proofs.Expression.Collapse

namespace StepStubs
namespace Expression

open Text (segments joinSegments replaceSpans)

/-! ## Texts that are patterns -/

/-- Is the text a pattern without placeholders? -/
def IsPlain (t : Text) : Prop := ∃ ts, Token.write ts = t ∧ Token.parameters ts = []

/-- Induction on a pattern without placeholders, token by token. -/
theorem plainInduction {motive : Text → Prop} (nil : motive [])
    (plain : ∀ c t, c ∉ reserved ∧ c ≠ '\ue000' ∧ c ≠ '\ue001' → motive t → motive (c :: t))
    (escaped : ∀ c t, c ∈ reserved ∨ Text.isBlank c = true → motive t → motive ('\\' :: c :: t)) :
    ∀ {t}, IsPlain t → motive t := by
  rintro _ ⟨ts, rfl, hts⟩
  induction ts with
  | nil => exact nil
  | cons token ts ih =>
    cases token with
    | placeholder p => exact nomatch hts
    | escaped c hc => exact escaped c _ hc (ih hts)
    | plain c hc => exact plain c _ hc (ih hts)

theorem isStructural_eq_false {c : Char} (hc : c ∉ reserved) :
    Piece.isStructural (.char c) = false :=
  Bool.eq_false_iff.mpr fun h => hc (mem_reserved_of_isStructural h)

theorem isPrivate_eq_false_of_reserved_or_blank {c : Char}
    (hc : c ∈ reserved ∨ Text.isBlank c = true) : isPrivate c = false := by
  refine Bool.eq_false_iff.mpr fun h => ?_
  rw [isPrivate, Bool.or_eq_true, beq_iff_eq, beq_iff_eq] at h
  rcases h with rfl | rfl <;> revert hc <;> decide

namespace IsPlain

variable {t : Text}

theorem isPrivate_eq_false (h : IsPlain t) : ∀ c ∈ t, isPrivate c = false := by
  refine plainInduction (motive := fun t => ∀ c ∈ t, isPrivate c = false) nofun ?_ ?_ h
  · intro c t hc ih d hd
    rcases List.mem_cons.mp hd with rfl | hd
    · simp [isPrivate, hc.2]
    · exact ih d hd
  · intro c t hc ih d hd
    rcases List.mem_cons.mp hd with rfl | hd
    · decide
    · rcases List.mem_cons.mp hd with rfl | hd
      · exact isPrivate_eq_false_of_reserved_or_blank hc
      · exact ih d hd

/-- The brackets and slashes of a pattern are escaped. -/
theorem isEscaped_ofChars (h : IsPlain t) :
    Text.isEscaped (.char '\\') Piece.isStructural (Draft.ofChars t) = true := by
  refine plainInduction (motive := fun t =>
    Text.isEscapedFrom (.char '\\') Piece.isStructural false (Draft.ofChars t) = true) rfl ?_ ?_ h
  · intro c t hc ih
    have hback : Piece.char c ≠ .char '\\' := fun heq => hc.1 (Piece.char.inj heq ▸ by decide)
    rw [ofChars_cons, Text.isEscapedFrom, if_neg hback, isStructural_eq_false hc.1, ih]
    rfl
  · intro c t _ ih
    rw [ofChars_cons, ofChars_cons, Text.isEscapedFrom, if_pos rfl, Text.isEscapedFrom]
    exact ih

/-- Writing the characters of a pattern as a pattern gives the pattern back. -/
theorem patternText_ofChars (h : IsPlain t) : Draft.patternText (Draft.ofChars t) = t := by
  refine plainInduction (motive := fun t => Draft.patternFrom false (Draft.ofChars t) = t)
    rfl ?_ ?_ h
  · intro c t hc ih
    rw [ofChars_cons, patternFrom_plain hc.1, ih]
  · intro c t hc ih
    have hstart : Draft.startsEscapable (.char c :: Draft.ofChars t) = true :=
      isEscapable_iff.mpr hc
    rw [ofChars_cons, ofChars_cons, patternFrom_backslash, if_pos hstart, Draft.patternFrom, ih]

end IsPlain

/-! ## Passes that change nothing -/

section Identity

variable {d : Draft}

theorem apply_slashes_of_isEscaped
    (h : Text.isEscaped (.char '\\') Piece.isStructural d = true) : Pass.slashes.apply d = d := by
  have hnone : NoAlternative d := noAlternative_of_isEscapedFrom Piece.isStructural rfl h
  rw [Pass.apply, settleAlternatives_eq, readAlternativesFrom_of_noAlternative (b := none) hnone]
  refine Text.escapeFrom_of_isEscapedFrom (Text.isEscapedFrom_of_imp (fun p hp => ?_) h)
  rw [Piece.isStructural, hp, Bool.true_or]

theorem apply_brackets_of_isEscaped
    (h : Text.isEscaped (.char '\\') Piece.isStructural d = true) : Pass.brackets.apply d = d := by
  refine Text.escapeFrom_of_isEscapedFrom (Text.isEscapedFrom_of_imp (fun p hp => ?_) h)
  rw [Piece.isStructural, hp, Bool.or_true]

theorem apply_numericGroups_of_no_digits (h : ∀ p ∈ d, p.isDigit = false) :
    Pass.numericGroups.apply d = d := by
  have hnone : ∀ span, .span span ∉ segments numericGroupSpan d := by
    intro span hspan
    obtain ⟨body, rfl, -, hdigit⟩ := exists_group_of_mem_segments hspan
    obtain ⟨p, hp, hpdigit⟩ := List.any_eq_true.mp hdigit
    have hmem : p ∈ group body := by simp [group, hp]
    exact Bool.false_ne_true
      ((Text.forall_mem_segments h numericGroupSpan _ hspan p hmem).symm.trans hpdigit)
  rw [Pass.apply, replaceSpans, Text.segments_eq_map_kept hnone, Text.joinSegments_map_kept]

end Identity

/-! ## Slash groups -/

/-- Does a slash stand between an opening bracket and the first closing one after it? -/
def HasSlashGroup (t : Text) : Prop :=
  ∃ before body after, t = before ++ '(' :: (body ++ ')' :: after) ∧ ')' ∉ body ∧ '/' ∈ body

theorem hasSlashGroup_iff {t : Text} :
    HasSlashGroup t ↔ ∃ span, .span span ∈ segments slashGroupSpan (Draft.ofChars t) := by
  constructor
  · rintro ⟨before, body, after, rfl, hclose, hslash⟩
    have hslash' : (Draft.ofChars body).contains (.char '/') = true :=
      List.contains_iff_mem.mpr (mem_ofChars.mpr hslash)
    rw [ofChars_append, ofChars_cons, ofChars_append, ofChars_cons, ← group_append]
    exact exists_span_of_group (fun hmem => hclose (mem_ofChars.mp hmem)) hslash' _ _
  · rintro ⟨span, hspan⟩
    obtain ⟨body, rfl, hclose, hslash⟩ := exists_group_of_mem_segments hspan
    obtain ⟨before, after, heq⟩ := Text.exists_append_of_mem_segments hspan
    rw [group_append] at heq
    obtain ⟨u, v, rfl, rfl, hv⟩ := List.map_eq_append_iff.mp heq
    obtain ⟨c, v, rfl, hc, hv⟩ := List.map_eq_cons_iff.mp hv
    obtain ⟨m, w, rfl, rfl, hw⟩ := List.map_eq_append_iff.mp hv
    obtain ⟨c', w, rfl, hc', -⟩ := List.map_eq_cons_iff.mp hw
    rw [Piece.char.inj hc, Piece.char.inj hc']
    exact ⟨u, m, w, rfl, fun hmem => hclose (mem_ofChars.mpr hmem),
      mem_ofChars.mp (List.contains_iff_mem.mp hslash)⟩

instance (t : Text) : Decidable (HasSlashGroup t) :=
  decidable_of_iff (spans (segments slashGroupSpan (Draft.ofChars t)) ≠ []) <| by
    rw [hasSlashGroup_iff, List.ne_nil_iff_exists_cons]
    constructor
    · rintro ⟨span, _, heq⟩
      exact ⟨span, mem_spans.mp (heq ▸ List.mem_cons_self)⟩
    · rintro ⟨span, hspan⟩
      exact List.ne_nil_iff_exists_cons.mp (List.ne_nil_of_mem (mem_spans.mpr hspan))

theorem apply_slashGroups_of_not {t : Text} (h : ¬ HasSlashGroup t) :
    Pass.slashGroups.apply (Draft.ofChars t) = Draft.ofChars t := by
  have hnone : ∀ span, .span span ∉ segments slashGroupSpan (Draft.ofChars t) := fun span hspan =>
    h (hasSlashGroup_iff.mpr ⟨span, hspan⟩)
  rw [Pass.apply, Text.segments_eq_map_kept hnone, flattenGroups_map_kept]

/-- Opening a group takes out a bracket. -/
theorem count_slashGroups_lt {t : Text} (h : HasSlashGroup t) :
    (Pass.slashGroups.apply (Draft.ofChars t)).count (.char '(') < t.count '(' := by
  obtain ⟨span, hspan⟩ := hasSlashGroup_iff.mp h
  have hpos : 0 < (spans (segments slashGroupSpan (Draft.ofChars t))).toFinset.card :=
    Finset.card_pos.mpr ⟨span, List.mem_toFinset.mpr (mem_spans.mpr hspan)⟩
  have hcount := count_slashGroups_add_card (Draft.ofChars t)
  have hchars : (Draft.ofChars t).count (.char '(') = t.count '(' :=
    List.count_map_of_injective t Piece.char (fun _ _ => Piece.char.inj) '('
  omega

/-! ## Compiling a pattern -/

/-- Is the text a trimmed pattern without placeholders, and without characters that begin a
literal? -/
structure IsPlainStep (t : Text) : Prop where
  plain : IsPlain t
  trimmed : Text.trim t = t
  quote : '"' ∉ t
  digits : ∀ c ∈ t, Text.isDigit c = false

namespace IsPlainStep

variable {t : Text}

theorem isDigit_eq_false (h : IsPlainStep t) : ∀ p ∈ Draft.ofChars t, p.isDigit = false := by
  intro p hp
  obtain ⟨c, hc, rfl⟩ := List.mem_map.mp hp
  exact h.digits c hc

/-- Of the first three passes only the last can change the text. -/
theorem opened_eq (h : IsPlainStep t) :
    opened t = Pass.slashGroups.apply (Draft.ofChars t) := by
  rw [opened, quoted, ofText_eq_publicPart, h.trimmed,
    publicPart_of_public h.plain.isPrivate_eq_false, quotes_ofChars_of_not_mem h.quote,
    apply_numericGroups_of_no_digits h.isDigit_eq_false]

/-- A text whose groups stay is left alone by every pass. -/
theorem draft_eq (h : IsPlainStep t) (hgroup : ¬ HasSlashGroup t) :
    draft t = Draft.ofChars t := by
  have hescaped := h.plain.isEscaped_ofChars
  rw [draft_eq_opened, h.opened_eq, apply_slashGroups_of_not hgroup, apply_numerals,
    numeralsFrom_of_no_digits h.isDigit_eq_false, apply_slashes_of_isEscaped hescaped,
    apply_brackets_of_isEscaped hescaped]

end IsPlainStep

/-- A pattern without parameters, quotes and digits compiles to itself exactly if it has no slash
group. -/
theorem compile_eq_self_iff {t : Text} (h : IsPlainStep t) :
    compile t = ⟨t, []⟩ ↔ ¬ HasSlashGroup t := by
  constructor
  · intro hcompile hgroup
    have hcount := count_open_compile t
    have hless := count_slashGroups_lt hgroup
    rw [hcompile, h.opened_eq] at hcount
    dsimp only at hcount
    omega
  · intro hgroup
    rw [compile, h.draft_eq hgroup, Draft.finish, h.plain.patternText_ofChars, parameters_ofChars]

/-- Escaped brackets beside an escaped slash, which is in no group. -/
def menuPattern : Text := "in C:\\\\ \\(or up\\) a\\/b \\\x7bx\\\x7d \\)".toList

theorem isPlainStep_menuPattern : IsPlainStep menuPattern := by
  obtain ⟨ts, hts, hwrite⟩ := exists_write_eq_compile "in C:\\\\ (or up) a\\/b \x7bx\x7d )".toList
  have hplain : IsPlain menuPattern :=
    ⟨ts, hwrite.trans (by decide +kernel), hts.trans (by decide +kernel)⟩
  have hdigits : ∀ c ∈ menuPattern, Text.isDigit c = false := fun c hc =>
    Bool.eq_false_iff.mpr (List.any_eq_false.mp (by decide) c hc)
  exact ⟨hplain, by decide, by decide, hdigits⟩

theorem compile_menuPattern :
    IsPlainStep menuPattern ∧ ¬ HasSlashGroup menuPattern ∧
      compile menuPattern = ⟨menuPattern, []⟩ := by
  have hgroup : ¬ HasSlashGroup menuPattern := by decide +kernel
  exact ⟨isPlainStep_menuPattern, hgroup, (compile_eq_self_iff isPlainStep_menuPattern).mpr hgroup⟩

/-- Two alternatives in escaped brackets. -/
def choicePattern : Text := "\\(a\\/b\\)".toList

theorem isPlainStep_choicePattern : IsPlainStep choicePattern := by
  have hplain : IsPlain choicePattern :=
    ⟨[.escaped '(' (by decide), .plain 'a' (by decide), .escaped '/' (by decide),
      .plain 'b' (by decide), .escaped ')' (by decide)], by decide, rfl⟩
  have hdigits : ∀ c ∈ choicePattern, Text.isDigit c = false := fun c hc =>
    Bool.eq_false_iff.mpr (List.any_eq_false.mp (by decide) c hc)
  exact ⟨hplain, by decide, by decide, hdigits⟩

/-- The group is opened, and its backslashes are left over. -/
theorem compile_choicePattern_ne :
    IsPlainStep choicePattern ∧
      (compile choicePattern).text = "\\\\a\\ or b\\\\".toList ∧
      compile choicePattern ≠ ⟨choicePattern, []⟩ :=
  ⟨isPlainStep_choicePattern, by decide +kernel, by decide +kernel⟩

end Expression
end StepStubs
