/-
The line grammar.

`LineKind.of` tries one form after the other.  `LineKind.Matches` says what each form is
without an order, and no line has two of them (`of_eq_of_matches`), so the order in which they
are tried does not matter: what a line is, is the one form that fits it.

The words and marks of the grammar are spelled out in `Matches` and what it is made of.  None of it
goes back to the tables that the reader of a file looks at.
-/
import StepStubs.Feature.Line
import StepStubs.Proofs.Text.Basic

namespace StepStubs

/-- The leading word as it stands in a feature file. -/
def LeadWord.spelling : LeadWord → String
  | primary .context => "Given"
  | primary .action => "When"
  | primary .outcome => "Then"
  | and => "And"
  | but => "But"

theorem LeadWord.word_eq_spelling (l : LeadWord) : l.word = l.spelling.toList := by
  cases l with
  | primary p => cases p <;> rfl
  | and => rfl
  | but => rfl

namespace Feature

/-! ## The forms of a line -/

/-- The mark as it stands in a feature file. -/
def Fence.spelling : Fence → String
  | quotes => "\"\"\""
  | backticks => "```"

theorem Fence.mark_eq_spelling (f : Fence) : f.mark = f.spelling.toList := by cases f <;> rfl

theorem Fence.starts_iff {f : Fence} {line : Text} :
    f.starts line = true ↔ f.spelling.toList <+: line := by
  rw [starts, mark_eq_spelling, List.isPrefixOf_iff_prefix]

/-- Is the line a step line: the leading word, at least one blank, and then the text, which
starts with no blank? -/
structure IsStepLine (line : Text) (lead : LeadWord) (text : Text) : Prop where
  parts : ∃ gap, gap ≠ [] ∧ (∀ c ∈ gap, Text.isBlank c = true) ∧
    line = lead.spelling.toList ++ (gap ++ text)
  text_ne_nil : text ≠ []
  head : ∀ c ∈ text.head?, Text.isBlank c = false

/-- The words of which one opens a section of a feature file. -/
def sectionWords : List String :=
  ["Feature", "Rule", "Background", "Scenario", "Scenario Outline", "Scenario Template",
   "Scenarios", "Example", "Examples"]

/-- Does the line have the form?  No line is unrecognized by its form. -/
def LineKind.Matches (line : Text) : LineKind → Prop
  | blank => line = []
  | comment => ['#'] <+: line
  | tag => ['@'] <+: line
  | tableRow => ['|'] <+: line
  | fence f => f.spelling.toList <+: line
  | header => ∃ w ∈ sectionWords, w.toList ++ [':'] <+: line
  | step lead text => IsStepLine line lead text
  | unrecognized => False

/-- Does the line have the form, or none if it is unrecognized? -/
def LineKind.Fits (line : Text) (k : LineKind) : Prop :=
  k.Matches line ∨ k = unrecognized ∧ ∀ k' : LineKind, ¬ k'.Matches line

/-! ## Step lines -/

/-- What follows the leading word of a step line, as `afterLeadWord?` reads it. -/
theorem afterLeadWord?_eq_some_iff {lead : LeadWord} {line text : Text} :
    afterLeadWord? lead.word line = some text ↔ IsStepLine line lead text := by
  rw [afterLeadWord?, lead.word_eq_spelling]
  constructor
  · intro h
    cases hafter : Text.afterStart? lead.spelling.toList line with
    | none =>
      rw [hafter] at h
      exact nomatch h
    | some after =>
      rw [hafter] at h
      cases after with
      | nil => exact nomatch h
      | cons c rest =>
        by_cases hc : (Text.isBlank c && !(Text.trimStart rest).isEmpty) = true
        · simp only [if_pos hc, Option.some.injEq] at h
          rw [Bool.and_eq_true, h, Bool.not_eq_true', List.isEmpty_eq_false_iff] at hc
          -- The gap is the blank behind the word, and what trimming takes off the rest.
          have hrest : rest.takeWhile Text.isBlank ++ text = rest := by
            rw [← h]
            exact List.takeWhile_append_dropWhile
          refine ⟨⟨c :: rest.takeWhile Text.isBlank, List.cons_ne_nil _ _, ?_, ?_⟩, hc.2, ?_⟩
          · intro d hd
            rcases List.mem_cons.mp hd with rfl | hd
            · exact hc.1
            · exact List.mem_takeWhile_imp hd
          · rw [List.cons_append, hrest]
            exact Text.eq_append_of_afterStart? hafter
          · intro d hd
            have hnot := List.head?_dropWhile_not Text.isBlank rest
            rw [show rest.dropWhile Text.isBlank = text from h, Option.mem_def.mp hd] at hnot
            simpa using hnot
        · simp only [if_neg hc] at h
          exact nomatch h
  · rintro ⟨⟨gap, hne, hgap, rfl⟩, htext, hhead⟩
    obtain ⟨c, g, rfl⟩ := List.exists_cons_of_ne_nil hne
    have htrim : Text.trimStart (g ++ text) = text :=
      Text.trimStart_append (fun d hd => hgap d (List.mem_cons_of_mem c hd)) hhead
    have hc : (Text.isBlank c && !text.isEmpty) = true := by
      rw [hgap c List.mem_cons_self, List.isEmpty_eq_false_iff.mpr htext]
      rfl
    rw [Text.afterStart?_append]
    simp only [List.cons_append, htrim, if_pos hc]

theorem mem_all (lead : LeadWord) : lead ∈ LeadWord.all := by
  cases lead with
  | primary p => cases p <;> decide
  | and => decide
  | but => decide

/-- Leading words start with different letters. -/
theorem head?_word_injective {lead lead' : LeadWord} (h : lead.word.head? = lead'.word.head?) :
    lead = lead' := by
  have hall : ∀ l ∈ LeadWord.all, ∀ l' ∈ LeadWord.all, l.word.head? = l'.word.head? → l = l' := by
    decide
  exact hall lead (mem_all lead) lead' (mem_all lead') h

theorem IsStepLine.head?_eq {line text : Text} {lead : LeadWord} (h : IsStepLine line lead text) :
    line.head? = lead.word.head? := by
  obtain ⟨⟨gap, -, -, rfl⟩, -, -⟩ := h
  rw [List.head?_append]
  cases lead with
  | primary p => cases p <;> rfl
  | and => rfl
  | but => rfl

theorem IsStepLine.unique {line text text' : Text} {lead lead' : LeadWord}
    (h : IsStepLine line lead text) (h' : IsStepLine line lead' text') :
    lead = lead' ∧ text = text' := by
  have hlead : lead = lead' := head?_word_injective (h.head?_eq.symm.trans h'.head?_eq)
  subst hlead
  have htext := afterLeadWord?_eq_some_iff.mpr h
  rw [afterLeadWord?_eq_some_iff.mpr h'] at htext
  exact ⟨rfl, (Option.some.inj htext).symm⟩

theorem stepParts?_eq_some_iff {line text : Text} {lead : LeadWord} :
    stepParts? line = some (lead, text) ↔ IsStepLine line lead text := by
  have hsome : ∀ {l : LeadWord} {t : Text}, stepParts? line = some (l, t) →
      IsStepLine line l t := by
    intro l t h
    obtain ⟨l', -, h⟩ := List.exists_of_findSome?_eq_some h
    obtain ⟨t', ht', heq⟩ := Option.map_eq_some_iff.mp h
    rw [← (Prod.mk.inj heq).1, ← (Prod.mk.inj heq).2]
    exact afterLeadWord?_eq_some_iff.mp ht'
  refine ⟨hsome, fun h => ?_⟩
  cases hparts : stepParts? line with
  | none =>
    have hlead := List.findSome?_eq_none_iff.mp hparts lead (mem_all lead)
    rw [afterLeadWord?_eq_some_iff.mpr h] at hlead
    exact nomatch hlead
  | some r =>
    obtain ⟨hl, ht⟩ := (hsome hparts).unique h
    rw [← hl, ← ht]

/-! ## One form for each line -/

/-- A line that has a form is what `LineKind.of` says. -/
theorem LineKind.of_eq_of_matches {line : Text} {k : LineKind} (h : k.Matches line) :
    LineKind.of line = k := by
  cases k with
  | blank => rw [show line = [] from h]; rfl
  | comment => obtain ⟨t, rfl⟩ := h; rfl
  | tag => obtain ⟨t, rfl⟩ := h; rfl
  | tableRow => obtain ⟨t, rfl⟩ := h; rfl
  | fence f =>
    obtain ⟨t, rfl⟩ := h
    cases f <;> rfl
  | header =>
    obtain ⟨w, hw, t, rfl⟩ := h
    simp only [sectionWords, List.mem_cons, List.not_mem_nil, or_false] at hw
    rcases hw with rfl | rfl | rfl | rfl | rfl | rfl | rfl | rfl | rfl <;> rfl
  | step lead text =>
    have hparts := stepParts?_eq_some_iff.mpr h
    -- No leading word starts a header or a fence, so the parts of the line decide.
    obtain ⟨⟨gap, -, -, rfl⟩, -, -⟩ := h
    cases lead with
    | primary p => cases p <;> simp only [LineKind.of, hparts] <;> rfl
    | and => simp only [LineKind.of, hparts]; rfl
    | but => simp only [LineKind.of, hparts]; rfl
  | unrecognized => exact h.elim

/-- The order in which the words are tried does not matter: a colon has to follow each. -/
theorem mem_headerStarts {start : Text} :
    start ∈ headerStarts ↔ ∃ w ∈ sectionWords, w.toList ++ [':'] = start := by
  have hperm : headerStarts.Perm (sectionWords.map fun w => w.toList ++ [':']) := by decide
  rw [hperm.mem_iff, List.mem_map]

theorem isHeader_iff {line : Text} :
    isHeader line = true ↔ ∃ w ∈ sectionWords, w.toList ++ [':'] <+: line := by
  rw [isHeader, List.any_eq_true]
  constructor
  · rintro ⟨start, hstart, hline⟩
    obtain ⟨w, hw, rfl⟩ := mem_headerStarts.mp hstart
    exact ⟨w, hw, List.isPrefixOf_iff_prefix.mp hline⟩
  · rintro ⟨w, hw, hline⟩
    exact ⟨_, mem_headerStarts.mpr ⟨w, hw, rfl⟩, List.isPrefixOf_iff_prefix.mpr hline⟩

/-- What `LineKind.of` says is the form of the line, if it says any. -/
theorem LineKind.matches_of (line : Text) :
    (LineKind.of line).Matches line ∨ LineKind.of line = .unrecognized := by
  unfold LineKind.of
  split
  · exact Or.inl rfl
  · exact Or.inl ⟨_, rfl⟩
  · exact Or.inl ⟨_, rfl⟩
  · exact Or.inl ⟨_, rfl⟩
  · split
    · next hquotes => exact Or.inl (List.isPrefixOf_iff_prefix.mp hquotes)
    · split
      · next hbackticks => exact Or.inl (List.isPrefixOf_iff_prefix.mp hbackticks)
      · split
        · next hheader => exact Or.inl (isHeader_iff.mp hheader)
        · split
          · next hparts => exact Or.inl (stepParts?_eq_some_iff.mp hparts)
          · exact Or.inr rfl

/-- A line has exactly one form, or none and is unrecognized: what it is does not depend on the
order in which the forms are tried. -/
theorem LineKind.fits_iff {line : Text} {k : LineKind} : k.Fits line ↔ LineKind.of line = k := by
  constructor
  · rintro (h | ⟨rfl, hnone⟩)
    · exact of_eq_of_matches h
    · exact (matches_of line).resolve_left (hnone _)
  · rintro rfl
    rcases matches_of line with h | h
    · exact Or.inl h
    · refine Or.inr ⟨h, fun k hk => ?_⟩
      rw [← of_eq_of_matches hk, h] at hk
      exact hk

end Feature
end StepStubs
