/-
Every literal and every numeral of a step becomes a parameter.

The text of a step mentions the values of its parameters.  `mention?` says what value begins at a
place of the text, by what stands before the place and after it: a literal, if the quotes before it
are paired and a quote follows, or a numeral outside of every literal.  A text without groups has
the parameters of its mentions, from left to right (`parameters_eq_mentions`): the passes for quotes
and numerals find the same, literal by literal and run by run, and no other pass touches a slot.

In any text the passes after the first keep the quotes and the slots for texts, so these are counted
by the quotes of the text.  And no numeral is left in the pattern (`not_isNumeral_compile`).
-/
import StepStubs.Proofs.Expression.Kept
import StepStubs.Proofs.Expression.Quoted

namespace StepStubs
namespace Expression

open Text (InsideLiteral IsNumeral isDigit isWord isBlank segments replaceSpans)

/-! ## Counting quotes -/

theorem count_quotes_ofChars (t : Text) :
    (Pass.quotes.apply (Draft.ofChars t)).count (.slot .string) = t.count '"' / 2 ∧
      (Pass.quotes.apply (Draft.ofChars t)).count (.char '"') = t.count '"' % 2 := by
  have hchars : ∀ u : Text, (Draft.ofChars u).count (.slot .string) = 0 := fun u =>
    List.count_eq_zero_of_not_mem fun hmem => by
      obtain ⟨c, -, hc⟩ := List.mem_map.mp hmem
      exact nomatch hc
  have hquotes : ∀ {u : Text}, '"' ∉ u → (Draft.ofChars u).count (.char '"') = 0 := fun hu =>
    List.count_eq_zero_of_not_mem fun hmem => hu (mem_ofChars.mp hmem)
  induction t using Text.literalInduction with
  | nil => exact ⟨rfl, rfl⟩
  | char c t hc ih =>
    have hslot : Piece.char c ≠ .slot .string := nofun
    have hchar : Piece.char c ≠ .char '"' := fun heq => hc (Piece.char.inj heq)
    rw [quotes_ofChars_char hc, List.count_cons_of_ne hslot, List.count_cons_of_ne hchar,
      List.count_cons_of_ne hc]
    exact ih
  | unpaired t ht _ =>
    have hslot : Piece.char '"' ≠ .slot .string := nofun
    have hcount : ('"' :: t).count '"' = 1 := by
      rw [List.count_cons_self, List.count_eq_zero_of_not_mem ht]
    rw [quotes_ofChars_unpaired ht, List.count_cons_of_ne hslot, hchars, hcount,
      List.count_cons_self, hquotes ht]
    exact ⟨rfl, rfl⟩
  | literal body t hbody ih =>
    have hslot : Piece.slot .string ≠ .char '"' := nofun
    rw [quotes_ofChars_literal hbody, List.count_cons_self, List.count_cons_of_ne hslot, ih.1, ih.2,
      List.count_append, List.count_cons_self, List.count_cons_self,
      List.count_eq_zero_of_not_mem hbody]
    omega

/-- Compiling starts from all quotes of the text. -/
theorem count_publicPart_trim (t : Text) :
    (publicPart (Text.trim t)).count '"' = t.count '"' := by
  obtain ⟨lead, gap, hlead, hgap, heq⟩ := Text.exists_append_trim_append t
  have hpublic : (publicPart (Text.trim t)).count '"' = (Text.trim t).count '"' :=
    List.count_filter (by decide)
  have hcount := congrArg (List.count '"') heq
  rw [List.count_append, List.count_append,
    List.count_eq_zero_of_not_mem (Text.not_mem_quote_of_blank hlead),
    List.count_eq_zero_of_not_mem (Text.not_mem_quote_of_blank hgap)] at hcount
  omega

theorem count_string_compile (t : Text) :
    (compile t).parameters.count .string = t.count '"' / 2 := by
  rw [compile, Draft.finish, count_parameters, count_draft (Or.inr rfl), quoted,
    ofText_eq_publicPart, (count_quotes_ofChars _).1, count_publicPart_trim]

theorem count_quote_compile (t : Text) : (compile t).text.count '"' = t.count '"' % 2 := by
  rw [compile, count_finish_text (by decide) (by intro q; cases q <;> decide),
    count_draft (Or.inl rfl), quoted, ofText_eq_publicPart, (count_quotes_ofChars _).2,
    count_publicPart_trim]

/-! ## What a text mentions -/

/-- The kind of the literal or the numeral that begins between the two texts, if one does. -/
def mention? (before after : Text) : Option Parameter :=
  if InsideLiteral before after then none
  else if after.head? = some '"' ∧ '"' ∈ after.tail then some .string
  else if IsNumeral before (after.takeWhile isDigit) (after.dropWhile isDigit) then some .number
  else none

/-- The kinds of the literals of a text and of the numerals outside of them, from left to right. -/
def mentions (t : Text) : List Parameter :=
  (List.range t.length).filterMap fun i => mention? (t.take i) (t.drop i)

/-- The mentions of a text behind another one. -/
def mentionsFrom (before t : Text) : List Parameter :=
  (List.range t.length).filterMap fun i => mention? (before ++ t.take i) (t.drop i)

theorem mentions_eq_mentionsFrom (t : Text) : mentions t = mentionsFrom [] t := rfl

section Mentions

variable {before t : Text} {c : Char}

theorem mentionsFrom_cons (before : Text) (c : Char) (t : Text) :
    mentionsFrom before (c :: t) =
      (mention? before (c :: t)).toList ++ mentionsFrom (before ++ [c]) t := by
  have hrest : ∀ i, mention? (before ++ (c :: t).take (i + 1)) ((c :: t).drop (i + 1)) =
      mention? (before ++ [c] ++ t.take i) (t.drop i) := by
    intro i
    rw [List.take_succ_cons, List.drop_succ_cons, List.append_assoc, List.singleton_append]
  rw [mentionsFrom, List.length_cons, List.range_succ_eq_map, List.filterMap_cons,
    List.filterMap_map, List.take_zero, List.drop_zero, List.append_nil, mentionsFrom]
  have hfun : ((fun i => mention? (before ++ (c :: t).take i) ((c :: t).drop i)) ∘ Nat.succ) =
      fun i => mention? (before ++ [c] ++ t.take i) (t.drop i) := funext hrest
  rw [hfun]
  cases mention? before (c :: t) <;> rfl

theorem mentionsFrom_of_none (h : mention? before (c :: t) = none) :
    mentionsFrom before (c :: t) = mentionsFrom (before ++ [c]) t := by
  rw [mentionsFrom_cons, h, Option.toList_none, List.nil_append]

theorem mention?_inside (h : InsideLiteral before t) : mention? before t = none := if_pos h

/-- No numeral begins at a character that is no digit. -/
theorem not_isNumeral_takeWhile (hc : isDigit c = false) (before t : Text) :
    ¬ IsNumeral before ((c :: t).takeWhile isDigit) ((c :: t).dropWhile isDigit) := by
  intro h
  exact h.nonempty (List.takeWhile_cons_of_neg (by rw [hc]; exact Bool.false_ne_true))

/-- Nothing begins at a place where neither a literal nor a numeral does. -/
theorem mention?_eq_none {after : Text} (hliteral : ¬ (after.head? = some '"' ∧ '"' ∈ after.tail))
    (hnumeral : ¬ IsNumeral before (after.takeWhile isDigit) (after.dropWhile isDigit)) :
    mention? before after = none := by
  rw [mention?, if_neg hliteral, if_neg hnumeral, ite_self]

theorem mention?_other (hc : c ≠ '"') (hdigit : isDigit c = false) :
    mention? before (c :: t) = none :=
  mention?_eq_none (fun h => hc (Option.some.inj h.1)) (not_isNumeral_takeWhile hdigit before t)

theorem mention?_unpaired (ht : '"' ∉ t) : mention? before ('"' :: t) = none :=
  mention?_eq_none (fun h => ht h.2) (not_isNumeral_takeWhile (by decide) before t)

theorem mention?_literal (h : ¬ InsideLiteral before ('"' :: t)) (ht : '"' ∈ t) :
    mention? before ('"' :: t) = some .string := by
  rw [mention?, if_neg h, if_pos ⟨rfl, ht⟩]

/-- Nothing is mentioned inside a literal. -/
theorem mentionsFrom_inside {body : Text} (hbody : '"' ∉ body) (hodd : before.count '"' % 2 = 1)
    (t : Text) :
    mentionsFrom before (body ++ '"' :: t) = mentionsFrom (before ++ (body ++ ['"'])) t := by
  induction body generalizing before with
  | nil => exact mentionsFrom_of_none (mention?_inside ⟨hodd, List.mem_cons_self⟩)
  | cons c body ih =>
    have hc : c ≠ '"' := (List.ne_of_not_mem_cons hbody).symm
    have hnone : mention? before (c :: (body ++ '"' :: t)) = none :=
      mention?_inside ⟨hodd, by simp⟩
    have hodd' : (before ++ [c]).count '"' % 2 = 1 := by
      rwa [List.count_append, List.count_cons_of_ne hc, List.count_nil, Nat.add_zero]
    rw [List.cons_append, mentionsFrom_of_none hnone, ih (List.not_mem_of_not_mem_cons hbody) hodd',
      List.append_assoc, List.singleton_append, List.cons_append]

/-- A run of digits is mentioned if it stands alone. -/
theorem mentionsFrom_run {run : Text} (hne : run ≠ []) (hrun : ∀ c ∈ run, isDigit c = true)
    (ht : t.head?.any isDigit = false) (hout : ¬ InsideLiteral before (run ++ t)) :
    mentionsFrom before (run ++ t) =
      (if IsNumeral before run t then [.number] else []) ++ mentionsFrom (before ++ run) t := by
  -- The digits behind the first one have a digit before them.
  have hrest : ∀ {run before : Text}, (∀ c ∈ run, isDigit c = true) →
      before.getLast?.any isWord = true →
      mentionsFrom before (run ++ t) = mentionsFrom (before ++ run) t := by
    intro run
    induction run with
    | nil => intro before _ _; rw [List.append_nil, List.nil_append]
    | cons c run ih =>
      intro before hrun hbefore
      have hc := hrun c List.mem_cons_self
      have hnone : mention? before (c :: (run ++ t)) = none := by
        have hquote : c ≠ '"' := fun heq => absurd (heq ▸ hc) (by decide)
        have hnot : ∀ digits after, ¬ IsNumeral before digits after := fun _ _ h =>
          Bool.false_ne_true (h.left.symm.trans hbefore)
        exact mention?_eq_none (fun h => hquote (Option.some.inj h.1)) (hnot _ _)
      have hlast : (before ++ [c]).getLast?.any isWord = true := by
        rw [List.getLast?_append, List.getLast?_singleton]
        exact Text.isWord_of_isDigit hc
      rw [List.cons_append, mentionsFrom_of_none hnone,
        ih (fun d hd => hrun d (List.mem_cons_of_mem c hd)) hlast, List.append_assoc,
        List.singleton_append]
  have htake := Text.takeWhile_run hrun ht
  have hdrop : (run ++ t).dropWhile isDigit = t := by
    have happend := List.takeWhile_append_dropWhile (p := isDigit) (l := run ++ t)
    rw [htake] at happend
    exact List.append_cancel_left happend
  obtain ⟨c, run, rfl⟩ := List.exists_cons_of_ne_nil hne
  have hc := hrun c List.mem_cons_self
  have hquote : c ≠ '"' := fun heq => absurd (heq ▸ hc) (by decide)
  have hfirst : mention? before (c :: (run ++ t)) =
      if IsNumeral before (c :: run) t then some .number else none := by
    rw [List.cons_append] at hout htake hdrop
    have hliteral : ¬ ((c :: (run ++ t)).head? = some '"' ∧ '"' ∈ (c :: (run ++ t)).tail) :=
      fun h => hquote (Option.some.inj h.1)
    rw [mention?, if_neg hout, if_neg hliteral, htake, hdrop]
  have hlast : (before ++ [c]).getLast?.any isWord = true := by
    rw [List.getLast?_append, List.getLast?_singleton]
    exact Text.isWord_of_isDigit hc
  rw [List.cons_append, mentionsFrom_cons, hfirst,
    hrest (fun d hd => hrun d (List.mem_cons_of_mem c hd)) hlast, List.append_assoc,
    List.singleton_append]
  split <;> rfl

end Mentions

/-! ## Reading a text -/

/-- Induction on a text, literal by literal and, outside of them, run by run. -/
theorem tokenInduction {motive : Text → Prop} (nil : motive [])
    (char : ∀ c t, c ≠ '"' → isDigit c = false → motive t → motive (c :: t))
    (run : ∀ run t, run ≠ [] → (∀ c ∈ run, isDigit c = true) → t.head?.any isDigit = false →
      motive t → motive (run ++ t))
    (unpaired : ∀ t, '"' ∉ t → motive t → motive ('"' :: t))
    (literal : ∀ body t, '"' ∉ body → motive t → motive ('"' :: body ++ '"' :: t)) :
    ∀ t, motive t := by
  intro t
  generalize hn : t.length = n
  induction n using Nat.strongRecOn generalizing t with
  | _ n ih =>
    have hshorter : ∀ {u : Text}, u.length < n → motive u := fun hu => ih _ hu _ rfl
    cases t with
    | nil => exact nil
    | cons c t =>
      rw [List.length_cons] at hn
      by_cases hc : c = '"'
      · subst hc
        by_cases hquote : '"' ∈ t
        · obtain ⟨body, rest, rfl, hbody⟩ := List.eq_append_cons_of_mem hquote
          rw [List.length_append, List.length_cons] at hn
          exact literal body rest hbody (hshorter (by omega))
        · exact unpaired t hquote (hshorter (by omega))
      · cases hdigit : isDigit c with
        | false => exact char c t hc hdigit (hshorter (by omega))
        | true =>
          obtain ⟨digits, rest, heq, hne, hdigits, hrest, hle⟩ :=
            Text.exists_run_append_of_head hdigit t
          rw [heq]
          exact run digits rest hne hdigits hrest (hshorter (by omega))

theorem parameters_append (d e : Draft) :
    Draft.parameters (d ++ e) = Draft.parameters d ++ Draft.parameters e := List.filterMap_append

theorem parameters_ofChars (t : Text) : Draft.parameters (Draft.ofChars t) = [] := by
  induction t with
  | nil => rfl
  | cons c t ih => exact ih

/-- The passes for quotes and numerals find what a text mentions, behind any other text. -/
theorem parameters_numeralsFrom {before : Text} {t : Text} {b : Option Piece}
    (hout : ¬ InsideLiteral before t) (hb : b.any Piece.isWord = before.getLast?.any isWord) :
    Draft.parameters (numeralsFrom b (Pass.quotes.apply (Draft.ofChars t))) =
      mentionsFrom before t := by
  induction t using tokenInduction generalizing before b with
  | nil => rfl
  | char c t hc hdigit ih =>
    have hquote : '"' ∉ [c] := fun h => hc (List.mem_singleton.mp h).symm
    have hout' : ¬ InsideLiteral (before ++ [c]) t := by
      rwa [Text.insideLiteral_append_left_iff hquote, ← Text.insideLiteral_append_right_iff hquote]
    have hlast : (some (Piece.char c)).any Piece.isWord = (before ++ [c]).getLast?.any isWord := by
      rw [List.getLast?_concat]
      rfl
    have hpiece : (Piece.char c).isDigit = false := hdigit
    rw [quotes_ofChars_char hc, numeralsFrom_cons hpiece, parameters_char_cons, ih hout' hlast,
      mentionsFrom_of_none (mention?_other hc hdigit)]
  | run run t hne hrun ht ih =>
    have hquote : '"' ∉ run := fun hmem => absurd (hrun '"' hmem) (by decide)
    have hcut := Text.not_insideLiteral_of_not_mem hquote t
    have hout' : ¬ InsideLiteral (before ++ run) t := by
      rwa [Text.insideLiteral_append_left_iff hquote, ← Text.insideLiteral_append_right_iff hquote]
    have hrun' : ∀ p ∈ Draft.ofChars run, p.isDigit = true := by
      intro p hp
      obtain ⟨c, hc, rfl⟩ := List.mem_map.mp hp
      exact hrun c hc
    have hhead : (Pass.quotes.apply (Draft.ofChars t)).head?.any Piece.isDigit = false :=
      (any_head?_quotes_ofChars (by decide) t).trans ht
    have hnext : (Pass.quotes.apply (Draft.ofChars t)).head?.any Piece.isWord =
        t.head?.any isWord := any_head?_quotes_ofChars (by decide) t
    have hlast : ((Draft.ofChars run).getLast?).any Piece.isWord =
        (before ++ run).getLast?.any isWord := by
      rw [Draft.ofChars, List.getLast?_map, Option.any_map, List.getLast?_append_of_ne_nil _ hne]
      rfl
    rw [quotes_ofChars_append hcut, quotes_ofChars_of_not_mem hquote,
      numeralsFrom_run (by simpa [Draft.ofChars] using hne) hrun' hhead, parameters_append,
      ih hout' hlast, mentionsFrom_run hne hrun ht hout, hb, hnext]
    congr 1
    by_cases hnumeral : IsNumeral before run t
    · rw [if_pos hnumeral, hnumeral.left, hnumeral.right]
      rfl
    · have hword : (before.getLast?.any isWord || t.head?.any isWord) = true := by
        by_contra hword
        rw [Bool.not_eq_true, Bool.or_eq_false_iff] at hword
        exact hnumeral ⟨hne, hrun, hword.1, hword.2⟩
      rw [if_neg hnumeral, if_pos hword, parameters_ofChars]
  | unpaired t ht ih =>
    have hout' : ¬ InsideLiteral (before ++ ['"']) t := fun h => ht h.2
    have hlast : (some (Piece.char '"')).any Piece.isWord =
        (before ++ ['"']).getLast?.any isWord := by
      rw [List.getLast?_concat]
      rfl
    rw [quotes_ofChars_unpaired ht, numeralsFrom_cons rfl, parameters_char_cons,
      mentionsFrom_of_none (mention?_unpaired ht), ← ih hout' hlast, quotes_ofChars_of_not_mem ht]
  | literal body t hbody ih =>
    have heven : before.count '"' % 2 = 0 := by
      have hodd : ¬ before.count '"' % 2 = 1 := fun h => hout ⟨h, List.mem_cons_self⟩
      omega
    have hodd : (before ++ ['"']).count '"' % 2 = 1 := by
      rw [List.count_append, List.count_singleton_self]
      omega
    have hout' : ¬ InsideLiteral (before ++ ['"'] ++ (body ++ ['"'])) t := by
      rintro ⟨h, -⟩
      have hone : (body ++ ['"']).count '"' = 1 := by
        rw [List.count_append, List.count_eq_zero_of_not_mem hbody, List.count_singleton_self]
      rw [List.count_append, hone] at h
      omega
    have hlast : (some (Piece.slot .string)).any Piece.isWord =
        (before ++ ['"'] ++ (body ++ ['"'])).getLast?.any isWord := by
      rw [← List.append_assoc, List.getLast?_concat]
      decide
    have hliteral : mention? before ('"' :: (body ++ '"' :: t)) = some .string :=
      mention?_literal hout (by simp)
    rw [quotes_ofChars_literal hbody, numeralsFrom_cons rfl, parameters_slot_cons, ih hout' hlast,
      List.cons_append, mentionsFrom_cons, hliteral, mentionsFrom_inside hbody hodd]
    rfl

/-- Blanks around a text are no part of a mention. -/
theorem parameters_numerals_quotes_trim (t : Text) :
    Draft.parameters (Pass.numerals.apply (Pass.quotes.apply (Draft.ofChars (Text.trim t)))) =
      Draft.parameters (Pass.numerals.apply (Pass.quotes.apply (Draft.ofChars t))) := by
  obtain ⟨lead, gap, hlead, hgap, heq⟩ := Text.exists_append_trim_append t
  have hword : ∀ {u : Text}, (∀ c ∈ u, isBlank c = true) →
      ∀ p ∈ Draft.ofChars u, p.isWord = false := by
    intro u hu p hp
    obtain ⟨c, hc, rfl⟩ := List.mem_map.mp hp
    exact Text.isWord_eq_false_of_isBlank (hu c hc)
  have hdigit : ∀ {u : Text}, (∀ c ∈ u, isBlank c = true) →
      ∀ p ∈ Draft.ofChars u, p.isDigit = false := fun hu p hp =>
    isDigit_eq_false_of_isWord (hword hu p hp)
  have hleadquote := Text.not_mem_quote_of_blank hlead
  have hgapquote := Text.not_mem_quote_of_blank hgap
  have hstart := Text.not_insideLiteral_of_not_mem hleadquote (Text.trim t ++ gap)
  have hend : ¬ InsideLiteral (Text.trim t) gap := fun h => hgapquote h.2
  have hlast : ∀ f : Piece → Bool, (∀ p ∈ Draft.ofChars lead, f p = false) →
      (Draft.ofChars lead).getLast?.any f = false := by
    intro f hf
    cases hl : (Draft.ofChars lead).getLast? with
    | none => rfl
    | some p => exact hf p (List.mem_of_getLast? hl)
  have hhead : (Draft.ofChars gap).head?.any Piece.isWord = false := by
    cases hg : (Draft.ofChars gap).head? with
    | none => rfl
    | some p => exact hword hgap p (List.mem_of_head? hg)
  have hbefore : ((Draft.ofChars lead).getLast?.or none).any Piece.isWord =
      (none : Option Piece).any Piece.isWord := by
    rw [Option.or_none, hlast _ (hword hlead)]
    rfl
  have hquotes : Pass.quotes.apply (Draft.ofChars t) = Draft.ofChars lead ++
      (Pass.quotes.apply (Draft.ofChars (Text.trim t)) ++ Draft.ofChars gap) := by
    conv_lhs => rw [heq]
    rw [quotes_ofChars_append hstart, quotes_ofChars_append hend,
      quotes_ofChars_of_not_mem hleadquote, quotes_ofChars_of_not_mem hgapquote]
  rw [hquotes, apply_numerals, apply_numerals,
    numeralsFrom_append (Or.inl (hlast _ (hdigit hlead))),
    numeralsFrom_of_no_digits (hdigit hlead), numeralsFrom_congr hbefore,
    numeralsFrom_append (Or.inr hhead), numeralsFrom_of_no_digits (hdigit hgap), parameters_append,
    parameters_append, parameters_ofChars, parameters_ofChars, List.nil_append, List.append_nil]

theorem parameters_numerals_quotes (t : Text) :
    Draft.parameters (Pass.numerals.apply (Pass.quotes.apply (Draft.ofChars t))) = mentions t := by
  rw [apply_numerals, mentions_eq_mentionsFrom]
  exact parameters_numeralsFrom (fun h => absurd h.1 (by decide)) rfl

/-! ## Every mention becomes a parameter -/

theorem publicPart_of_public {t : Text} (h : ∀ c ∈ t, isPrivate c = false) : publicPart t = t :=
  List.filter_eq_self.mpr fun c hc => by rw [h c hc]; rfl

/-- A text without an opening bracket has no groups. -/
theorem opened_of_not_mem {t : Text} (h : '(' ∉ t) : opened t = quoted t := by
  have hdraft : .char '(' ∉ quoted t := by
    have hofText : ∀ p ∈ Draft.ofText t, p ≠ .char '(' := by
      intro p hp heq
      rw [heq, ofText_eq_publicPart, mem_ofChars] at hp
      exact h ((Text.trim_infix _).subset (List.mem_filter.mp hp).1)
    have hslot : ∀ p ∈ [Piece.slot .string], p ≠ .char '(' := by decide
    exact fun hmem =>
      Text.forall_mem_replaceSpans (fun _ _ => hslot) hofText quotedSpan _ hmem rfl
  rw [opened, Pass.apply, Pass.apply, replaceSpans, numericGroupSpan, slashGroupSpan,
    segments_of_not_mem hdraft, Text.joinSegments_map_kept, segments_of_not_mem hdraft,
    flattenGroups_map_kept]

/-- The parameters of a text are the slots that the pass for numerals leaves. -/
theorem parameters_compile (t : Text) :
    (compile t).parameters = Draft.parameters (Pass.numerals.apply (opened t)) := by
  have hchars : ∀ (u : Text), ∀ c ∈ u, Piece.isSlot (.char c) = false := fun _ _ _ => rfl
  simp only [compile, Draft.finish]
  refine parameters_eq_of_filter_eq ?_
  rw [draft_eq_opened, filter_brackets rfl, filter_slashes (hchars _)]

/-- A text without groups has a parameter for each literal and each numeral that it mentions. -/
theorem parameters_eq_mentions {t : Text} (hgroup : '(' ∉ t)
    (hpublic : ∀ c ∈ t, isPrivate c = false) : (compile t).parameters = mentions t := by
  have htrim : ∀ c ∈ Text.trim t, isPrivate c = false := fun c hc =>
    hpublic c ((Text.trim_infix _).subset hc)
  rw [parameters_compile, opened_of_not_mem hgroup, quoted, ofText_eq_publicPart,
    publicPart_of_public htrim, parameters_numerals_quotes_trim, parameters_numerals_quotes]

/-- Each literal becomes a parameter, only a quote without a partner is left, and no numeral is.
Where the text has no groups, the parameters are the kinds of what it mentions, in order. -/
theorem inference_complete (t : Text) :
    (compile t).parameters.count .string = t.count '"' / 2 ∧
      (compile t).text.count '"' = t.count '"' % 2 ∧
      (∀ before digits after, (compile t).text = before ++ digits ++ after →
        ¬ IsNumeral before digits after) ∧
      ('(' ∉ t → (∀ c ∈ t, isPrivate c = false) → (compile t).parameters = mentions t) :=
  ⟨count_string_compile t, count_quote_compile t, fun _ _ _ => not_isNumeral_compile,
    parameters_eq_mentions⟩

/-- A number inside a literal is no parameter, a digit of a word is none, and a last quote opens no
literal. -/
theorem inference_complete_order :
    '(' ∉ "2 \"x 5\"7 of v1/3 \" 4".toList ∧
      mentions "2 \"x 5\"7 of v1/3 \" 4".toList = [.number, .string, .number, .number, .number] ∧
      (compile "2 \"x 5\"7 of v1/3 \" 4".toList).parameters =
        mentions "2 \"x 5\"7 of v1/3 \" 4".toList ∧
      (compile "2 \"x 5\"7 of v1/3 \" 4".toList).text =
        "\x7bint\x7d \x7bstring\x7d\x7bint\x7d of v".toList ++ "1".toList ++
          " or \x7bint\x7d \" \x7bint\x7d".toList ∧
      ¬ IsNumeral "\x7bint\x7d \x7bstring\x7d\x7bint\x7d of v".toList "1".toList
          " or \x7bint\x7d \" \x7bint\x7d".toList := by
  have hgroup : '(' ∉ "2 \"x 5\"7 of v1/3 \" 4".toList := by decide
  have hpublic : ∀ c ∈ "2 \"x 5\"7 of v1/3 \" 4".toList, isPrivate c = false := fun c hc =>
    Bool.eq_false_iff.mpr (List.any_eq_false.mp (by decide) c hc)
  have hcompile : (compile "2 \"x 5\"7 of v1/3 \" 4".toList).text =
      "\x7bint\x7d \x7bstring\x7d\x7bint\x7d of v".toList ++ "1".toList ++
        " or \x7bint\x7d \" \x7bint\x7d".toList := by decide +kernel
  have hcomplete := inference_complete "2 \"x 5\"7 of v1/3 \" 4".toList
  exact ⟨hgroup, by decide +kernel, hcomplete.2.2.2 hgroup hpublic, hcompile,
    hcomplete.2.2.1 _ _ _ hcompile⟩

end Expression
end StepStubs
