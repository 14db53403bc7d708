/-
A pattern matches the step that it was made from.

A compiler that rewrites nothing only puts slots in the place of literals and backslashes before
characters.  `StandsFor` says that a draft became what it is by slots taking the place of literals:
the draft that a text starts as stands for the text, and `standsFor_replaceSpans` says that a pass
that turns spans of literals into slots keeps what a draft stands for.  The last two passes and the
writing of the pattern escape characters one by one, since a text without backslashes gives them
nothing that is escaped already (`escape_escape`).

So the tokens of the pattern, with literals for its placeholders and without the backslashes, are
the text again.  This is `isInstanceOf_compile`.
-/
import Mathlib.Data.List.Forall2
import StepStubs.Proofs.Expression.Legal
import StepStubs.Proofs.Text.Basic

namespace StepStubs
namespace Expression

open Text (Rule Segment segments joinSegments replaceSpans)

/-! ## Literals -/

/-- Is the text a literal that is written as a placeholder for the parameter? -/
def IsLiteralOf : Parameter → Text → Prop
  | .string, l => ∃ body, l = '"' :: body ++ ['"'] ∧ '"' ∉ body
  | .number, l => l ≠ [] ∧ ∀ c ∈ l, Text.isDigit c = true

/-- The text of a row of tokens with literals in the place of its placeholders and without the
backslashes that escape. -/
def Token.fill : List Token → List Text → Text
  | [], _ => []
  | .placeholder _ :: ts, l :: ls => l ++ fill ts ls
  | .placeholder p :: ts, [] => p.placeholder ++ fill ts []
  | .escaped c _ :: ts, ls => c :: fill ts ls
  | .plain c _ :: ts, ls => c :: fill ts ls

/-- Is the text made from the pattern by literals that take the place of its placeholders? -/
def IsInstanceOf (t : Text) (pattern : Pattern) : Prop :=
  ∃ ts ls, Token.write ts = pattern.text ∧ List.Forall₂ IsLiteralOf pattern.parameters ls ∧
    Token.fill ts ls = t

/-! ## What a draft stands for -/

/-- Is the text what the draft was before slots took the place of literals? -/
inductive StandsFor : Draft → Text → Prop where
  | nil : StandsFor [] []
  | char {d : Draft} {t : Text} (c : Char) (h : StandsFor d t) : StandsFor (.char c :: d) (c :: t)
  | slot {q : Parameter} {l : Text} {d : Draft} {t : Text} (hl : IsLiteralOf q l)
    (h : StandsFor d t) : StandsFor (.slot q :: d) (l ++ t)

theorem standsFor_ofChars (t : Text) : StandsFor (Draft.ofChars t) t := by
  induction t with
  | nil => exact .nil
  | cons c t ih => exact .char c ih

theorem eq_of_standsFor_ofChars {l u : Text} (h : StandsFor (Draft.ofChars l) u) : u = l := by
  induction l generalizing u with
  | nil =>
    cases h
    rfl
  | cons c l ih =>
    cases h with
    | char _ h => rw [ih h]

theorem StandsFor.append {d e : Draft} {t u : Text} (hd : StandsFor d t) (he : StandsFor e u) :
    StandsFor (d ++ e) (t ++ u) := by
  induction hd with
  | nil => exact he
  | char c _ ih => exact .char c ih
  | slot hl _ ih =>
    rw [List.append_assoc]
    exact .slot hl ih

theorem exists_of_standsFor_append {d e : Draft} {t : Text} (h : StandsFor (d ++ e) t) :
    ∃ u v, t = u ++ v ∧ StandsFor d u ∧ StandsFor e v := by
  induction d generalizing t with
  | nil => exact ⟨[], t, rfl, .nil, h⟩
  | cons p d ih =>
    cases h with
    | char c h =>
      obtain ⟨u, v, rfl, hu, hv⟩ := ih h
      exact ⟨c :: u, v, rfl, .char c hu, hv⟩
    | slot hl h =>
      obtain ⟨u, v, rfl, hu, hv⟩ := ih h
      exact ⟨_ ++ u, v, (List.append_assoc _ _ _).symm, .slot hl hu, hv⟩

theorem StandsFor.mem {d : Draft} {t : Text} (h : StandsFor d t) {c : Char}
    (hc : .char c ∈ d) : c ∈ t := by
  induction h with
  | nil => exact absurd hc List.not_mem_nil
  | char c' _ ih =>
    rcases List.mem_cons.mp hc with heq | hc
    · exact Piece.char.inj heq ▸ List.mem_cons_self
    · exact List.mem_cons_of_mem _ (ih hc)
  | slot _ _ ih =>
    rcases List.mem_cons.mp hc with heq | hc
    · exact nomatch heq
    · exact List.mem_append_right _ (ih hc)

/-! ## Literals that became slots -/

theorem standsFor_joinSegments {q : Parameter} {ss : List (Segment Piece)}
    (hspans : ∀ span, .span span ∈ ss → ∃ l, span = Draft.ofChars l ∧ IsLiteralOf q l) {t : Text}
    (h : StandsFor (ss.flatMap Segment.elements) t) :
    StandsFor (joinSegments (fun _ => [.slot q]) ss) t := by
  induction ss generalizing t with
  | nil => exact h
  | cons s ss ih =>
    rw [List.flatMap_cons] at h
    obtain ⟨u, v, rfl, hu, hv⟩ := exists_of_standsFor_append h
    have hrest := ih (fun span hspan => hspans span (List.mem_cons_of_mem _ hspan)) hv
    cases s with
    | kept p => exact hu.append hrest
    | span span =>
      obtain ⟨l, rfl, hl⟩ := hspans span List.mem_cons_self
      rw [eq_of_standsFor_ofChars hu]
      exact .slot hl hrest

/-- Slots that take the place of literals leave what a draft stands for. -/
theorem standsFor_replaceSpans {q : Parameter} {rule : Rule Piece} {d : Draft}
    (hspans : ∀ span, .span span ∈ segments rule d → ∃ l, span = Draft.ofChars l ∧ IsLiteralOf q l)
    {t : Text} (h : StandsFor d t) : StandsFor (replaceSpans rule (fun _ => [.slot q]) d) t := by
  refine standsFor_joinSegments hspans ?_
  rwa [Text.flatten_segments]

/-- A quoted span has no quotes but the two around it. -/
theorem quotedSpan_eq {before : Option Piece} {a : Piece} {rest : Draft} {k : Nat}
    (h : quotedSpan before (a :: rest) = some k) :
    ∃ body, .char '"' ∉ body ∧ a :: rest.take k = .char '"' :: body ++ [.char '"'] := by
  unfold quotedSpan at h
  split at h
  · next rest' heq =>
    obtain ⟨rfl, rfl⟩ := List.cons.inj heq
    by_cases hquote : .char '"' ∈ rest
    · obtain ⟨body, after, rfl, hbody⟩ := List.eq_append_cons_of_mem hquote
      have hne : ∀ p ∈ body, decide (p ≠ .char '"') = true := fun p hp =>
        decide_eq_true fun heq => hbody (heq ▸ hp)
      rw [if_pos (List.contains_iff_mem.mpr hquote), List.takeWhile_append_of_pos hne,
        List.takeWhile_cons_of_neg (by simp), List.append_nil] at h
      refine ⟨body, hbody, ?_⟩
      rw [← Option.some.inj h, List.take_length_add_append]
      rfl
    · rw [if_neg fun hcontains => hquote (List.contains_iff_mem.mp hcontains)] at h
      exact nomatch h
  · exact nomatch h

/-- A numeral has no pieces but digits. -/
theorem numeralSpan_eq {before : Option Piece} {a : Piece} {rest : Draft} {k : Nat}
    (h : numeralSpan before (a :: rest) = some k) : ∀ p ∈ a :: rest.take k, p.isDigit = true := by
  unfold numeralSpan at h
  dsimp only at h
  split at h
  · exact nomatch h
  · next hnot =>
    cases ha : a.isDigit with
    | false => simp [ha] at hnot
    | true =>
      rw [List.takeWhile_cons_of_pos ha, List.length_cons, Nat.add_sub_cancel] at h
      rw [← Option.some.inj h, ← List.prefix_iff_eq_take.mp (List.takeWhile_prefix _),
        ← List.takeWhile_cons_of_pos ha]
      exact fun p hp => List.all_eq_true.mp List.all_takeWhile p hp

theorem exists_ofChars {d : Draft} {class? : Char → Bool}
    (h : ∀ p ∈ d, p.satisfies class? = true) :
    ∃ l, d = Draft.ofChars l ∧ ∀ c ∈ l, class? c = true := by
  induction d with
  | nil => exact ⟨[], rfl, nofun⟩
  | cons p d ih =>
    obtain ⟨l, rfl, hl⟩ := ih fun p' hp' => h p' (List.mem_cons_of_mem p hp')
    cases p with
    | slot q => exact absurd (h _ List.mem_cons_self) Bool.false_ne_true
    | char c =>
      refine ⟨c :: l, rfl, fun c' hc' => ?_⟩
      rcases List.mem_cons.mp hc' with rfl | hc'
      · exact h _ List.mem_cons_self
      · exact hl c' hc'

/-- The quotes pass puts slots in the place of literals only. -/
theorem standsFor_quotes (t : Text) : StandsFor (Pass.quotes.apply (Draft.ofChars t)) t := by
  refine standsFor_replaceSpans (fun span hspan => ?_) (standsFor_ofChars t)
  obtain ⟨before, a, rest, k, hrule, hspan'⟩ := Text.exists_rule_of_mem_segments hspan
  obtain ⟨body, hbody, heq⟩ := quotedSpan_eq hrule
  rw [heq] at hspan'
  have hpieces : ∀ p ∈ Draft.ofChars t, p.satisfies (fun _ => true) = true := by
    intro p hp
    obtain ⟨c, -, rfl⟩ := List.mem_map.mp hp
    rfl
  have hchars : ∀ p ∈ body, p.satisfies (fun _ => true) = true := by
    intro p hp
    refine Text.forall_mem_segments hpieces _ _ hspan p ?_
    rw [Segment.elements, hspan']
    exact List.mem_append_left _ (List.mem_cons_of_mem _ hp)
  obtain ⟨l, rfl, -⟩ := exists_ofChars hchars
  refine ⟨'"' :: l ++ ['"'], ?_, l, rfl, fun hmem => hbody (List.mem_map_of_mem hmem)⟩
  rw [hspan', Draft.ofChars, Draft.ofChars, List.map_append, List.map_cons]
  rfl

theorem standsFor_numerals {d : Draft} {t : Text} (h : StandsFor d t) :
    StandsFor (Pass.numerals.apply d) t := by
  refine standsFor_replaceSpans (fun span hspan => ?_) h
  obtain ⟨before, a, rest, k, hrule, hl⟩ := Text.exists_rule_of_mem_segments hspan
  obtain ⟨l, hchars, hdigits⟩ := exists_ofChars (numeralSpan_eq hrule)
  refine ⟨l, hl.trans hchars, fun hnil => ?_, hdigits⟩
  rw [hnil] at hchars
  exact absurd hchars (List.cons_ne_nil _ _)

/-! ## Writing the pattern -/

variable {d : Draft} {t : Text} {c : Char}

theorem isInstanceOf_slot {q : Parameter} {l : Text} (hl : IsLiteralOf q l)
    (h : IsInstanceOf t d.finish) : IsInstanceOf (l ++ t) (Draft.finish (.slot q :: d)) := by
  obtain ⟨ts, ls, hwrite, hls, hfill⟩ := h
  refine ⟨.placeholder q :: ts, l :: ls, ?_, .cons hl hls, ?_⟩
  · rw [Token.write_cons, hwrite]
    rfl
  · rw [Token.fill, hfill]

theorem isInstanceOf_plain (hc : c ∉ reserved ∧ c ≠ '\ue000' ∧ c ≠ '\ue001')
    (h : IsInstanceOf t d.finish) : IsInstanceOf (c :: t) (Draft.finish (.char c :: d)) := by
  obtain ⟨ts, ls, hwrite, hls, hfill⟩ := h
  refine ⟨.plain c hc :: ts, ls, ?_, hls, ?_⟩
  · rw [Token.write_cons, hwrite]
    exact (patternFrom_plain hc.1 d).symm
  · rw [Token.fill, hfill]

theorem isInstanceOf_brace (hc : c = '\x7b' ∨ c = '\x7d') (h : IsInstanceOf t d.finish) :
    IsInstanceOf (c :: t) (Draft.finish (.char c :: d)) := by
  obtain ⟨ts, ls, hwrite, hls, hfill⟩ := h
  have hmem : c ∈ reserved := by
    rcases hc with rfl | rfl <;> decide
  refine ⟨.escaped c (Or.inl hmem) :: ts, ls, ?_, hls, ?_⟩
  · rw [Token.write_cons, hwrite]
    exact (patternFrom_brace hc d).symm
  · rw [Token.fill, hfill]

theorem isInstanceOf_escaped (hc : c ∈ reserved) (h : IsInstanceOf t d.finish) :
    IsInstanceOf (c :: t) (Draft.finish (.char '\\' :: .char c :: d)) := by
  obtain ⟨ts, ls, hwrite, hls, hfill⟩ := h
  refine ⟨.escaped c (Or.inl hc) :: ts, ls, ?_, hls, ?_⟩
  · have hstart : Draft.startsEscapable (.char c :: d) = true := isEscapable_iff.mpr (Or.inl hc)
    have hpattern : Draft.patternFrom false (.char '\\' :: .char c :: d) =
        '\\' :: c :: Draft.patternFrom false d := by
      rw [patternFrom_backslash, if_pos hstart, Draft.patternFrom]
    rw [Token.write_cons, hwrite]
    exact hpattern.symm
  · rw [Token.fill, hfill]

theorem mem_reserved_of_isStructural (h : Piece.isStructural (.char c) = true) : c ∈ reserved := by
  simp [Piece.isStructural] at h
  rcases h with rfl | rfl | rfl <;> decide

theorem isInstanceOf_finish (h : StandsFor d t) (hp : d.IsPublic) (hb : .char '\\' ∉ d) :
    IsInstanceOf t (Draft.finish
      (d.flatMap fun p => if p.isStructural then [.char '\\', p] else [p])) := by
  induction h with
  | nil => exact ⟨[], [], rfl, .nil, rfl⟩
  | slot hl h ih =>
    refine isInstanceOf_slot hl (ih ?_ ?_)
    · exact hp.sublist (List.sublist_cons_self _ _)
    · exact fun hmem => hb (List.mem_cons_of_mem _ hmem)
  | @char d t c h ih =>
    have hrest := ih (hp.sublist (List.sublist_cons_self _ _))
      fun hmem => hb (List.mem_cons_of_mem _ hmem)
    rw [List.flatMap_cons]
    by_cases hs : Piece.isStructural (.char c) = true
    · rw [if_pos hs]
      exact isInstanceOf_escaped (mem_reserved_of_isStructural hs) hrest
    · rw [if_neg hs]
      by_cases hbrace : c = '\x7b' ∨ c = '\x7d'
      · exact isInstanceOf_brace hbrace hrest
      · have hc : c ∉ reserved := fun hmem => hs (isStructural_of_mem_reserved hmem
          (fun heq => hb (heq ▸ List.mem_cons_self)) (fun heq => hbrace (Or.inl heq))
          fun heq => hbrace (Or.inr heq))
        exact isInstanceOf_plain ⟨hc, ne_private (hp _ List.mem_cons_self)⟩ hrest

/-! ## Texts that are copied -/

/-- The draft of a text whose quoted literals became slots. -/
def quoted (t : Text) : Draft := Pass.quotes.apply (Draft.ofText t)

/-- Does compiling the text replace nothing but literals?  Then its groups and alternatives stay,
and it has no character that means something to the compiler. -/
structure IsCopied (t : Text) : Prop where
  backslash : '\\' ∉ t
  isPublic : ∀ c ∈ t, isPrivate c = false
  numericGroups : Pass.numericGroups.apply (quoted t) = quoted t
  slashGroups : Pass.slashGroups.apply (quoted t) = quoted t
  alternatives : sweepAlternatives (Pass.numerals.apply (quoted t)) =
    Pass.numerals.apply (quoted t)

theorem settle_of_eq {f : Draft → Draft} (h : f d = d) (n : Nat) : settle f n d = d := by
  cases n with
  | zero => rfl
  | succ n => rw [settle, if_pos h]

theorem IsCopied.ofText_eq (h : IsCopied t) : Draft.ofText t = Draft.ofChars (Text.trim t) := by
  rw [Draft.ofText, List.filter_eq_self.mpr]
  intro c hc
  rw [h.isPublic c ((Text.trim_infix t).subset hc)]
  rfl

/-- Of the last two passes only the escaping is left. -/
theorem IsCopied.draft_eq (h : IsCopied t) :
    draft t = Text.escape (.char '\\') (fun p => p == .char '(' || p == .char ')')
      (Text.escape (.char '\\') (· == .char '/') (Pass.numerals.apply (quoted t))) := by
  have hlast : ∀ e, Pass.brackets.apply (Pass.slashes.apply e) =
      Text.escape (.char '\\') (fun p => p == .char '(' || p == .char ')')
        (Text.escape (.char '\\') (· == .char '/') (settleAlternatives e)) := fun _ => rfl
  simp only [draft, Pass.all, List.foldl_cons, List.foldl_nil]
  rw [← quoted, h.numericGroups, h.slashGroups, hlast, settleAlternatives,
    settle_of_eq h.alternatives]

/-- A text that is copied is an instance of its pattern. -/
theorem isInstanceOf_compile (h : IsCopied t) : IsInstanceOf (Text.trim t) (compile t) := by
  have hstands : StandsFor (Pass.numerals.apply (quoted t)) (Text.trim t) := by
    refine standsFor_numerals ?_
    rw [quoted, h.ofText_eq]
    exact standsFor_quotes (Text.trim t)
  have hpublic : (Pass.numerals.apply (quoted t)).IsPublic :=
    Pass.numerals.isPublic_apply (Pass.quotes.isPublic_apply (isPublic_ofText t))
  have hback : .char '\\' ∉ Pass.numerals.apply (quoted t) := fun hmem =>
    h.backslash ((Text.trim_infix _).subset (hstands.mem hmem))
  rw [compile, h.draft_eq, Text.escape_escape hback]
  exact isInstanceOf_finish hstands hpublic hback

/-- A text with both kinds of literals and every kind of character that is escaped. -/
theorem isInstanceOf_compile_cart :
    IsCopied " 3 \x7bnew\x7d items (or) / more) in \"my (1) cart\"".toList ∧
      (compile " 3 \x7bnew\x7d items (or) / more) in \"my (1) cart\"".toList).text =
        "\x7bint\x7d \\\x7bnew\\\x7d items \\(or\\) \\/ more\\) in \x7bstring\x7d".toList ∧
      IsInstanceOf "3 \x7bnew\x7d items (or) / more) in \"my (1) cart\"".toList
        (compile " 3 \x7bnew\x7d items (or) / more) in \"my (1) cart\"".toList) := by
  have h : IsCopied " 3 \x7bnew\x7d items (or) / more) in \"my (1) cart\"".toList :=
    ⟨by decide, fun c hc => Bool.eq_false_iff.mpr (List.any_eq_false.mp (by decide) c hc),
      by decide +kernel, by decide +kernel, by decide +kernel⟩
  exact ⟨h, by decide +kernel, isInstanceOf_compile h⟩

end Expression
end StepStubs
