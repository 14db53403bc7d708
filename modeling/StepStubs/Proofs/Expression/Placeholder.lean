/-
Placeholders between the passes.

The parameters of a draft are its slots, and no pass but the first makes one for a text.  Three of
the other passes change what stands between the slots and never a slot.  The other two put in a slot
for a number at each span, and keep the slots of the span in order: `InsertsNumbers` says so for one
span, for the spans put together (`insertsNumbers_replaceSpans`), and for one pass after another
(`pairwise_drafts`).

Writing the draft loses no slot either.  `writeOut` writes it piece by piece and lists each
placeholder as it comes, and finds the parameters of the draft (`writeOut_eq_finish`): a backslash
takes the piece after it along only if that is a character.  A reader of the pattern finds them too
(`placeholders_finish`), since the braces of the step text are escaped, and so is a backslash that
stands before a slot.
-/
import StepStubs.Proofs.Expression.Collapse

namespace StepStubs
namespace Expression

open Text (Rule Segment segments joinSegments replaceSpans)

/-! ## Putting in numbers -/

/-- Are the second parameters the first ones with `n` numbers put in? -/
structure InsertsNumbers (n : Nat) (ps qs : List Parameter) : Prop where
  sublist : ps.Sublist qs
  strings : qs.filter (· == .string) = ps.filter (· == .string)
  numbers : qs.count .number = ps.count .number + n

namespace InsertsNumbers

variable {n m : Nat} {ps qs rs ps' qs' : List Parameter}

theorem refl (ps : List Parameter) : InsertsNumbers 0 ps ps := ⟨List.Sublist.refl ps, rfl, rfl⟩

theorem singleton : InsertsNumbers 1 [] [.number] := ⟨List.nil_sublist _, rfl, rfl⟩

theorem append (h : InsertsNumbers n ps qs) (h' : InsertsNumbers m ps' qs') :
    InsertsNumbers (n + m) (ps ++ ps') (qs ++ qs') := by
  refine ⟨h.sublist.append h'.sublist, ?_, ?_⟩
  · rw [List.filter_append, List.filter_append, h.strings, h'.strings]
  · rw [List.count_append, List.count_append, h.numbers, h'.numbers]
    omega

theorem trans (h : InsertsNumbers n ps qs) (h' : InsertsNumbers m qs rs) :
    InsertsNumbers (n + m) ps rs := by
  refine ⟨h.sublist.trans h'.sublist, h'.strings.trans h.strings, ?_⟩
  rw [h'.numbers, h.numbers, Nat.add_assoc]

end InsertsNumbers

/-- If each span loses no parameter and gains a number, the draft gains a number for each span. -/
theorem insertsNumbers_joinSegments {replacement : Draft → Draft} {ss : List (Segment Piece)}
    (h : ∀ span, .span span ∈ ss →
      InsertsNumbers 1 (Draft.parameters span) (Draft.parameters (replacement span))) :
    InsertsNumbers (spans ss).length (Draft.parameters (ss.flatMap Segment.elements))
      (Draft.parameters (joinSegments replacement ss)) := by
  induction ss with
  | nil => exact .refl []
  | cons s ss ih =>
    have hss := ih fun span hspan => h span (List.mem_cons_of_mem s hspan)
    rw [List.flatMap_cons, parameters_append]
    cases s with
    | kept p =>
      have hcons : joinSegments replacement (.kept p :: ss) = [p] ++ joinSegments replacement ss :=
        rfl
      rw [hcons, parameters_append, ← Nat.zero_add (spans _).length]
      exact (InsertsNumbers.refl _).append hss
    | span span =>
      have hspans : (spans (.span span :: ss)).length = 1 + (spans ss).length := Nat.add_comm _ _
      rw [joinSegments, parameters_append, hspans]
      exact (h span List.mem_cons_self).append hss

theorem insertsNumbers_replaceSpans {rule : Rule Piece} {replacement : Draft → Draft} {d : Draft}
    (h : ∀ span, .span span ∈ segments rule d →
      InsertsNumbers 1 (Draft.parameters span) (Draft.parameters (replacement span))) :
    InsertsNumbers (spans (segments rule d)).length d.parameters
      (Draft.parameters (replaceSpans rule replacement d)) := by
  have hjoin := insertsNumbers_joinSegments h
  rwa [Text.flatten_segments] at hjoin

/-! ## The passes -/

theorem parameters_of_digits {d : Draft} (h : ∀ p ∈ d, p.isDigit = true) : d.parameters = [] := by
  have hnone : d.filter Piece.isSlot = [] := by
    refine List.filter_eq_nil_iff.mpr fun p hp hslot => ?_
    cases p with
    | char c => exact Bool.false_ne_true hslot
    | slot q => exact Bool.false_ne_true (h _ hp)
  rw [← parameters_filter, hnone]
  rfl

theorem parameters_group (body : Draft) : (group body).parameters = body.parameters :=
  parameters_eq_of_filter_eq (filter_group (fun _ _ => rfl) body)

/-- The lead of a numeric group may lose its blanks and its `>`, but no slot. -/
theorem parameters_slotLead (lead tail : Draft) :
    (slotLead lead tail).parameters = lead.parameters := by
  refine parameters_eq_of_filter_eq (filter_slotLead (fun p hp => ?_) lead tail)
  cases p with
  | char c => exact absurd hp Bool.false_ne_true
  | slot q => exact Or.inr ⟨q, rfl⟩

theorem insertsNumbers_numericGroups (d : Draft) :
    InsertsNumbers (spans (segments numericGroupSpan d)).length d.parameters
      (Pass.numericGroups.apply d).parameters := by
  refine insertsNumbers_replaceSpans fun span hspan => ?_
  obtain ⟨body, rfl, -, hbody⟩ := exists_group_of_mem_segments hspan
  obtain ⟨lead, run, tail, rfl, hlead, hne, hrun, htail⟩ := exists_numeric_body hbody
  rw [regroup_eq hlead hne hrun htail, parameters_group, parameters_append, parameters_append,
    parameters_append, parameters_slotLead, parameters_of_digits hrun, parameters_slot_cons]
  have hslot : InsertsNumbers 1 ([] ++ Draft.parameters tail) ([.number] ++ Draft.parameters tail) :=
    InsertsNumbers.singleton.append (.refl _)
  exact (InsertsNumbers.refl (Draft.parameters lead)).append hslot

theorem insertsNumbers_numerals (d : Draft) :
    InsertsNumbers (spans (segments numeralSpan d)).length d.parameters
      (Pass.numerals.apply d).parameters := by
  refine insertsNumbers_replaceSpans fun span hspan => ?_
  obtain ⟨before, a, rest, k, hrule, rfl⟩ := Text.exists_rule_of_mem_segments hspan
  rw [parameters_of_digits (numeralSpan_eq hrule)]
  exact .singleton

theorem parameters_slashGroups (d : Draft) :
    (Pass.slashGroups.apply d).parameters = d.parameters :=
  parameters_eq_of_filter_eq (filter_slashGroups (fun _ _ => rfl) d)

theorem parameters_slashes (d : Draft) : (Pass.slashes.apply d).parameters = d.parameters :=
  parameters_eq_of_filter_eq (filter_slashes (fun _ _ => rfl) d)

theorem parameters_brackets (d : Draft) : (Pass.brackets.apply d).parameters = d.parameters :=
  parameters_eq_of_filter_eq (filter_brackets rfl d)

/-! ## One pass after another -/

/-- Does the second draft have the parameters of the first with some numbers put in? -/
def Draft.GainsNumbers (d e : Draft) : Prop := ∃ n, InsertsNumbers n d.parameters e.parameters

theorem Draft.GainsNumbers.trans {d e f : Draft} (h : d.GainsNumbers e) (h' : e.GainsNumbers f) :
    d.GainsNumbers f := by
  obtain ⟨n, h⟩ := h
  obtain ⟨m, h'⟩ := h'
  exact ⟨n + m, h.trans h'⟩

theorem Draft.gainsNumbers_of_eq {d e : Draft} (h : e.parameters = d.parameters) :
    d.GainsNumbers e := ⟨0, h ▸ .refl _⟩

theorem gainsNumbers_apply {pass : Pass} (h : pass ≠ .quotes) (d : Draft) :
    d.GainsNumbers (pass.apply d) := by
  cases pass with
  | quotes => exact absurd rfl h
  | numericGroups => exact ⟨_, insertsNumbers_numericGroups d⟩
  | slashGroups => exact Draft.gainsNumbers_of_eq (parameters_slashGroups d)
  | numerals => exact ⟨_, insertsNumbers_numerals d⟩
  | slashes => exact Draft.gainsNumbers_of_eq (parameters_slashes d)
  | brackets => exact Draft.gainsNumbers_of_eq (parameters_brackets d)

theorem gainsNumbers_of_mem_stages {ps : List Pass} (h : .quotes ∉ ps) {d e : Draft}
    (he : e ∈ stages ps d) : d.GainsNumbers e := by
  induction ps generalizing d with
  | nil =>
    rw [List.mem_singleton.mp he]
    exact Draft.gainsNumbers_of_eq rfl
  | cons pass ps ih =>
    rcases List.mem_cons.mp he with rfl | he
    · exact Draft.gainsNumbers_of_eq rfl
    · have hpass := gainsNumbers_apply (List.ne_of_not_mem_cons h).symm d
      exact hpass.trans (ih (List.not_mem_of_not_mem_cons h) he)

theorem pairwise_stages {ps : List Pass} (h : .quotes ∉ ps) (d : Draft) :
    (stages ps d).Pairwise Draft.GainsNumbers := by
  induction ps generalizing d with
  | nil => exact List.pairwise_singleton _ _
  | cons pass ps ih =>
    have hps := List.not_mem_of_not_mem_cons h
    have hpass := gainsNumbers_apply (List.ne_of_not_mem_cons h).symm d
    exact List.pairwise_cons.mpr
      ⟨fun e he => hpass.trans (gainsNumbers_of_mem_stages hps he), ih hps _⟩

/-- After the quotes were read, each draft on the way has the parameters of the ones before. -/
theorem pairwise_drafts (t : Text) : (drafts t).tail.Pairwise Draft.GainsNumbers :=
  pairwise_stages (by decide : Pass.quotes ∉ Pass.all.tail) _

/-! ## Writing piece by piece -/

/-- The pattern with the text put in front of it. -/
def Pattern.behind (t : Text) (p : Pattern) : Pattern := ⟨t ++ p.text, p.parameters⟩

/-- The pattern of a draft, written piece by piece.  A slot adds a placeholder to the text and a
parameter to the list, and a backslash takes a character along that it may escape. -/
def Draft.writeOut : Draft → Pattern
  | [] => ⟨[], []⟩
  | .slot p :: d => ⟨p.placeholder ++ (writeOut d).text, p :: (writeOut d).parameters⟩
  | .char '\\' :: .char c :: d =>
    if isEscapable c then (writeOut d).behind ['\\', c]
    else (writeOut (.char c :: d)).behind ['\\', '\\']
  | .char '\\' :: d => (writeOut d).behind ['\\', '\\']
  | .char c :: d =>
    if c = '\x7b' ∨ c = '\x7d' then (writeOut d).behind ['\\', c] else (writeOut d).behind [c]

/-- What a backslash takes along is never a slot, so each slot is counted. -/
theorem writeOut_eq_finish (d : Draft) : d.writeOut = d.finish := by
  have hfinish : ∀ e : Draft, e.finish = ⟨Draft.patternFrom false e, e.parameters⟩ := fun _ => rfl
  fun_induction Draft.writeOut d with
  | case1 => rfl
  | case2 p d ih =>
    rw [ih, hfinish, hfinish, patternFrom_slot]
    rfl
  | case3 c d hc ih =>
    have hstart : Draft.startsEscapable (.char c :: d) = true := hc
    rw [ih, hfinish, hfinish, patternFrom_backslash, if_pos hstart]
    rfl
  | case4 c d hc ih =>
    have hstart : ¬ Draft.startsEscapable (.char c :: d) = true := hc
    rw [ih, hfinish, hfinish, patternFrom_backslash, if_neg hstart]
    rfl
  | case5 d hd ih =>
    have hstart : ¬ Draft.startsEscapable d = true := by
      cases d with
      | nil => nofun
      | cons p d =>
        cases p with
        | char c => exact absurd rfl (hd c d)
        | slot q => nofun
    rw [ih, hfinish, hfinish, patternFrom_backslash, if_neg hstart]
    rfl
  | case6 c d _ hback hbrace ih =>
    rw [ih, hfinish, hfinish, patternFrom_brace hbrace]
    rfl
  | case7 c d _ hback hbrace ih =>
    rw [ih, hfinish, hfinish, Draft.patternFrom, if_neg hback, if_neg hbrace]
    rfl

/-! ## Reading a pattern -/

/-- The parameter whose placeholder the text starts with. -/
def placeholderAt? (t : Text) : Option Parameter :=
  [Parameter.string, .number].find? fun p => p.placeholder.isPrefixOf t

/-- The placeholders of a pattern from a position on.  `escaped` says that a backslash before the
position escapes the character at it. -/
def placeholdersFrom : (escaped : Bool) → Text → List Parameter
  | _, [] => []
  | true, _ :: t => placeholdersFrom false t
  | false, c :: t =>
    if c = '\\' then placeholdersFrom true t
    else (placeholderAt? (c :: t)).toList ++ placeholdersFrom false t

/-- The placeholders of a pattern from left to right. -/
def placeholders (t : Text) : List Parameter := placeholdersFrom false t

theorem placeholders_escaped (c : Char) (t : Text) :
    placeholders ('\\' :: c :: t) = placeholders t := rfl

/-- Only a brace starts a placeholder. -/
theorem placeholders_cons {c : Char} (hback : c ≠ '\\') (hbrace : c ≠ '\x7b') (t : Text) :
    placeholders (c :: t) = placeholders t := by
  have hnone : placeholderAt? (c :: t) = none := by
    refine List.find?_eq_none.mpr fun p _ hp => ?_
    obtain ⟨rest, hrest⟩ := Token.placeholder_head p
    rw [hrest, List.isPrefixOf_iff_prefix, List.cons_prefix_cons] at hp
    exact hbrace hp.1.symm
  rw [placeholders, placeholdersFrom, if_neg hback, hnone]
  rfl

theorem placeholders_append {u : Text} (hback : '\\' ∉ u) (hbrace : '\x7b' ∉ u) (t : Text) :
    placeholders (u ++ t) = placeholders t := by
  induction u with
  | nil => rfl
  | cons c u ih =>
    rw [List.cons_append, placeholders_cons (List.ne_of_not_mem_cons hback).symm
      (List.ne_of_not_mem_cons hbrace).symm]
    exact ih (List.not_mem_of_not_mem_cons hback) (List.not_mem_of_not_mem_cons hbrace)

theorem placeholders_placeholder_append (p : Parameter) (t : Text) :
    placeholders (p.placeholder ++ t) = p :: placeholders t := by
  -- Behind its brace a placeholder has letters and the closing brace only.
  cases p with
  | string =>
    rw [← placeholders_append (u := "string\x7d".toList) (by decide) (by decide) t]
    rfl
  | number =>
    rw [← placeholders_append (u := "int\x7d".toList) (by decide) (by decide) t]
    rfl

/-- The placeholders of what a draft is written as are its slots. -/
theorem placeholders_finish (d : Draft) : placeholders d.finish.text = d.parameters := by
  rw [← writeOut_eq_finish]
  fun_induction Draft.writeOut d with
  | case1 => rfl
  | case2 p d ih =>
    rw [placeholders_placeholder_append, ih, parameters_slot_cons]
  | case3 c d hc ih => exact (placeholders_escaped c _).trans ih
  | case4 c d hc ih => exact (placeholders_escaped '\\' _).trans ih
  | case5 d hd ih => exact (placeholders_escaped '\\' _).trans ih
  | case6 c d _ hback hbrace ih => exact (placeholders_escaped c _).trans ih
  | case7 c d _ hback hbrace ih =>
    exact (placeholders_cons hback (fun heq => hbrace (Or.inl heq)) _).trans ih

/-- No pass after the first loses, moves or forges a parameter: three keep the list as it is, and two
put in a number for each span they find.  A text starts without slots and without private-use
characters, and a draft is written with its parameters as the placeholders. -/
theorem passes_keep_parameters (d : Draft) :
    (Pass.slashGroups.apply d).parameters = d.parameters ∧
    (Pass.slashes.apply d).parameters = d.parameters ∧
    (Pass.brackets.apply d).parameters = d.parameters ∧
    InsertsNumbers (spans (segments numericGroupSpan d)).length d.parameters
      (Pass.numericGroups.apply d).parameters ∧
    InsertsNumbers (spans (segments numeralSpan d)).length d.parameters
      (Pass.numerals.apply d).parameters ∧
    d.writeOut = d.finish ∧ d.finish.parameters = d.parameters ∧
    placeholders d.finish.text = d.parameters ∧
    ∀ t : Text, (Draft.ofText t).parameters = [] ∧ (Draft.ofText t).IsPublic ∧
      (drafts t).tail.Pairwise Draft.GainsNumbers :=
  ⟨parameters_slashGroups d, parameters_slashes d, parameters_brackets d,
    insertsNumbers_numericGroups d, insertsNumbers_numerals d, writeOut_eq_finish d, rfl,
    placeholders_finish d, fun t => ⟨parameters_ofChars _, isPublic_ofText t, pairwise_drafts t⟩⟩

end Expression
end StepStubs
