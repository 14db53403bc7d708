/-
The texts of the steps of a feature file.

The text of a step starts and ends in no blank.  It can be empty, though: a line is a step line for
the text after its leading word, and the colon of a table is taken off that text only afterwards.
A leading word alone, or with the colon right behind it, is no step line; with blanks before the
colon it is one, and its text is empty.  `steps_say_something_iff` says that this is the only case,
and that the stub file then has a stub for the empty pattern.
-/
import StepStubs.Proofs.Feature.Extraction
import StepStubs.Proofs.Stub.File

namespace StepStubs
namespace Feature

variable {ls : List Text} {i : Nat} {s : Step} {lead : LeadWord}

/-! ## The ends of a text -/

theorem HasForm.isStepLine {rest : Text} (h : HasForm ls i (.step lead rest)) :
    ∃ l, ls[i]? = some l ∧ IsStepLine (Text.trim l) lead rest := by
  obtain ⟨-, l, hl, hstep | ⟨hk, -⟩⟩ := h
  · exact ⟨l, hl, hstep⟩
  · exact nomatch hk

theorem IsStepLine.not_isBlank_getLast? {l rest : Text} (h : IsStepLine (Text.trim l) lead rest) :
    ∀ c ∈ rest.getLast?, Text.isBlank c = false := by
  have hlast := Text.not_isBlank_getLast?_trimEnd (Text.trimStart rest)
  rwa [← Text.trim, h.trim_eq] at hlast

theorem Describes.not_isBlank_head? (h : Describes ls i s) :
    ∀ c ∈ s.text.head?, Text.isBlank c = false := by
  obtain ⟨rest, hform, htext⟩ := h.text
  obtain ⟨l, -, hstep⟩ := hform.isStepLine
  by_cases htable : s.hasTable = true
  · rw [if_pos htable] at htext
    obtain ⟨⟨gap, -, hrest⟩, -⟩ := htext
    intro c hc
    refine hstep.head c ?_
    rw [hrest, List.append_assoc, List.head?_append, Option.mem_def.mp hc]
    rfl
  · rw [if_neg htable] at htext
    rw [htext]
    exact hstep.head

theorem Describes.not_isBlank_getLast? (h : Describes ls i s) :
    ∀ c ∈ s.text.getLast?, Text.isBlank c = false := by
  obtain ⟨rest, hform, htext⟩ := h.text
  obtain ⟨l, -, hstep⟩ := hform.isStepLine
  by_cases htable : s.hasTable = true
  · rw [if_pos htable] at htext
    exact htext.2
  · rw [if_neg htable] at htext
    rw [htext]
    exact hstep.not_isBlank_getLast?

/-! ## Lines without a text -/

/-- The text of a step is empty if nothing but the colon follows the leading word and the blanks. -/
theorem Describes.text_eq_nil_iff (h : Describes ls i s) :
    s.text = [] ↔ HasForm ls i (.step s.lead [':']) := by
  obtain ⟨rest, hform, htext⟩ := h.text
  obtain ⟨l, hl, hstep⟩ := hform.isStepLine
  constructor
  · intro hnil
    by_cases htable : s.hasTable = true
    · rw [if_pos htable, hnil] at htext
      obtain ⟨⟨gap, hgap, hrest⟩, -⟩ := htext
      -- The text after the leading word starts with no blank, so none is left before the colon.
      cases gap with
      | nil =>
        rw [hrest] at hform
        exact hform
      | cons c gap =>
        have hc := hstep.head c (by rw [hrest]; rfl)
        rw [hgap c List.mem_cons_self] at hc
        exact nomatch hc
    · rw [if_neg htable] at htext
      exact absurd (htext.symm.trans hnil) hstep.text_ne_nil
  · intro hcolon
    have hrest : rest = [':'] := (LineKind.step.inj (hform.unique hcolon)).2
    have htable : s.hasTable = true := (h.hasTable l hl).mpr (by
      rw [hstep.getLast?_eq, hrest]
      rfl)
    rw [if_pos htable, hrest] at htext
    obtain ⟨⟨gap, -, hcut⟩, -⟩ := htext
    have hlength := congrArg List.length hcut
    simp only [List.length_append, List.length_singleton] at hlength
    exact List.length_eq_zero_iff.mp (by omega)

/-- Is the line outside doc strings, and is it a leading word with nothing behind it but blanks and
perhaps the colon of a table? -/
structure IsBareAt (ls : List Text) (i : Nat) (lead : LeadWord) (gap : Text) : Prop where
  outside : ¬ InDocString ls i
  blank : ∀ c ∈ gap, Text.isBlank c = true
  line : ∃ l, ls[i]? = some l ∧
    (Text.trim l = lead.word ++ gap ∨ Text.trim l = lead.word ++ (gap ++ [':']))

theorem of_bareWord (lead : LeadWord) :
    LineKind.of lead.word = .unrecognized ∧ LineKind.of (lead.word ++ [':']) = .unrecognized := by
  have hall : ∀ l ∈ LeadWord.all,
      LineKind.of l.word = .unrecognized ∧ LineKind.of (l.word ++ [':']) = .unrecognized := by
    decide
  exact hall lead (mem_all lead)

theorem IsBareAt.hasForm_unrecognized (h : IsBareAt ls i lead []) :
    HasForm ls i .unrecognized := by
  obtain ⟨l, hl, hline⟩ := h.line
  have hof : LineKind.of (Text.trim l) = .unrecognized := by
    rw [List.append_nil, List.nil_append] at hline
    rcases hline with hline | hline
    · rw [hline]
      exact (of_bareWord lead).1
    · rw [hline]
      exact (of_bareWord lead).2
  exact hasForm_of hl h.outside hof nofun

theorem hasForm_colon_iff :
    HasForm ls i (.step lead [':']) ↔ ∃ gap, gap ≠ [] ∧ IsBareAt ls i lead gap := by
  constructor
  · intro hform
    obtain ⟨l, hl, ⟨gap, hne, hblank, hline⟩, -, -⟩ := hform.isStepLine
    rw [← lead.word_eq_spelling] at hline
    exact ⟨gap, hne, hform.1.1, hblank, l, hl, Or.inr hline⟩
  · rintro ⟨gap, hne, hout, hblank, l, hl, hline⟩
    -- A trimmed line does not end in the gap.
    have hcolon : Text.trim l = lead.word ++ (gap ++ [':']) := by
      refine hline.resolve_left fun hword => ?_
      have hlast := Text.not_isBlank_getLast?_trimEnd (Text.trimStart l)
      rw [← Text.trim, hword, List.getLast?_append, List.getLast?_eq_some_getLast hne] at hlast
      have hc := hlast _ rfl
      rw [hblank _ (List.getLast_mem hne)] at hc
      exact absurd hc (by decide)
    have hhead : ∀ c ∈ [':'].head?, Text.isBlank c = false := by
      intro c hc
      rw [← Option.some.inj hc]
      decide
    rw [lead.word_eq_spelling] at hcolon
    have hstep : IsStepLine (Text.trim l) lead [':'] :=
      ⟨⟨gap, hne, hblank, hcolon⟩, List.cons_ne_nil _ _, hhead⟩
    have hof := LineKind.of_eq_of_matches (k := .step lead [':']) hstep
    refine hasForm_of hl hout hof fun f hf => ?_
    cases hf

/-! ## What is read of a line -/

variable {e : Extraction}

theorem exists_of_forall₂ {α β : Type} {R : α → β → Prop} {as : List α} {bs : List β} {a : α}
    (h : List.Forall₂ R as bs) (ha : a ∈ as) : ∃ b ∈ bs, R a b := by
  obtain ⟨k, hk, rfl⟩ := List.getElem_of_mem ha
  exact ⟨_, List.getElem_mem (h.length_eq ▸ hk), h.get hk (h.length_eq ▸ hk)⟩

theorem HasForm.mem_indicesBelow {P : Nat → Prop} {k : LineKind} (h : HasForm ls i k) (hi : P i) :
    i ∈ indicesBelow ls.length P := by
  obtain ⟨-, l, hl, -⟩ := h
  obtain ⟨hlt, -⟩ := List.getElem?_eq_some_iff.mp hl
  exact List.mem_filter.mpr ⟨List.mem_range.mpr hlt, by simpa using hi⟩

theorem IsExtractionOf.exists_step {rest : Text} (h : IsExtractionOf ls e)
    (hform : HasForm ls i (.step lead rest)) : ∃ s ∈ e.steps, Describes ls i s :=
  exists_of_forall₂ h.steps (hform.mem_indicesBelow ⟨lead, rest, hform⟩)

theorem IsExtractionOf.exists_skipped (h : IsExtractionOf ls e)
    (hform : HasForm ls i .unrecognized) : i + 1 ∈ e.skipped.map SkippedLine.line := by
  obtain ⟨r, hr, hline, -⟩ := exists_of_forall₂ h.skipped (hform.mem_indicesBelow hform)
  exact List.mem_map.mpr ⟨r, hr, hline⟩

theorem IsExtractionOf.describes (h : IsExtractionOf ls e) (hs : s ∈ e.steps)
    (hline : s.line = i + 1) : Describes ls i s := by
  obtain ⟨j, hj⟩ := h.exists_describes hs
  have hji : j = i := by
    have := hj.line
    omega
  exact hji ▸ hj

/-- The steps of the lines that are a leading word, blanks and a colon are those without a text. -/
theorem IsExtractionOf.exists_text_eq_nil_iff (h : IsExtractionOf ls e) :
    (∃ s ∈ e.steps, s.line = i + 1 ∧ s.lead = lead ∧ s.text = []) ↔
      ∃ gap, gap ≠ [] ∧ IsBareAt ls i lead gap := by
  rw [← hasForm_colon_iff]
  constructor
  · rintro ⟨s, hs, hline, rfl, htext⟩
    exact (h.describes hs hline).text_eq_nil_iff.mp htext
  · intro hform
    obtain ⟨s, hs, hdescribes⟩ := h.exists_step hform
    obtain ⟨rest, hrest, -⟩ := hdescribes.text
    have hlead : s.lead = lead := (LineKind.step.inj (hrest.unique hform)).1
    exact ⟨s, hs, hdescribes.line, hlead, hdescribes.text_eq_nil_iff.mpr (hlead ▸ hform)⟩

/-! ## Stubs without a pattern -/

/-- A step without a text has a stub without a pattern. -/
theorem exists_stub_of_text_eq_nil {content : Text} (source module : Text)
    (hs : s ∈ (extract content).steps) (htext : s.text = []) :
    ∃ entries, Stub.readFile? (compiledSteps content) source module
        (Stub.ofFeature content source module) = some entries ∧
      ∃ entry ∈ entries, entry.key = ⟨s.phase, []⟩ := by
  have hkey : (CompiledStep.ofStep s).key = ⟨s.phase, []⟩ := by
    rw [CompiledStep.key, CompiledStep.ofStep, htext]
    rfl
  have hmem : (CompiledStep.ofStep s).key ∈ Stub.keysInFileOrder (compiledSteps content) :=
    Stub.mem_keysInFileOrder.mpr (mem_distinctKeys.mpr ⟨_, List.mem_map_of_mem hs, rfl⟩)
  rw [← Stub.map_key_inFileOrder, ← Stub.map_key_map_ofStep, hkey] at hmem
  obtain ⟨entry, hentry, hentryKey⟩ := List.mem_map.mp hmem
  exact ⟨_, Stub.readFile?_ofFeature content source module, entry, hentry, hentryKey⟩

/-- The text of a step has no blank at its ends, and a leading word with at most a colon right
behind it is passed over.  A step has no text exactly if its line is a leading word, blanks and a
colon, and then the stub file has a stub for the empty pattern. -/
theorem steps_say_something_iff (content source module : Text) :
    (∀ s ∈ (extract content).steps, (∀ c ∈ s.text.head?, Text.isBlank c = false) ∧
      ∀ c ∈ s.text.getLast?, Text.isBlank c = false) ∧
    (∀ i lead, IsBareAt (Text.lines content) i lead [] →
      i + 1 ∈ (extract content).skipped.map SkippedLine.line) ∧
    (∀ i lead, (∃ s ∈ (extract content).steps, s.line = i + 1 ∧ s.lead = lead ∧ s.text = []) ↔
      ∃ gap, gap ≠ [] ∧ IsBareAt (Text.lines content) i lead gap) ∧
    ∀ s ∈ (extract content).steps, s.text = [] →
      ∃ entries, Stub.readFile? (compiledSteps content) source module
          (Stub.ofFeature content source module) = some entries ∧
        ∃ entry ∈ entries, entry.key = ⟨s.phase, []⟩ := by
  have h := isExtractionOf_extract content
  refine ⟨fun s hs => ?_, fun i lead hbare => h.exists_skipped hbare.hasForm_unrecognized,
    fun i lead => h.exists_text_eq_nil_iff,
    fun s hs htext => exists_stub_of_text_eq_nil source module hs htext⟩
  obtain ⟨j, hdescribes⟩ := h.exists_describes hs
  exact ⟨hdescribes.not_isBlank_head?, hdescribes.not_isBlank_getLast?⟩

/-- A leading word, a blank and a colon make a step without a text, and nothing is passed over. -/
theorem extract_spacedColon :
    IsBareAt (Text.lines "Given :\n".toList) 0 (.primary .context) [' '] ∧
      (extract "Given :\n".toList).steps = [⟨.context, .primary .context, [], true, 1⟩] ∧
      (extract "Given :\n".toList).skipped = [] := by
  refine ⟨⟨fun hin => ?_, List.forall_mem_singleton.mpr (by decide), "Given :".toList, by decide,
    Or.inr (by decide)⟩, by decide, by decide⟩
  obtain ⟨f, j, hj, -⟩ := inDocString_iff.mp hin
  exact Nat.not_lt_zero j hj

end Feature
end StepStubs
