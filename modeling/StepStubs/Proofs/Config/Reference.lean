/-
Which texts have no references.

A reference starts with a dollar sign before an opening brace.  Writing a text as a scalar puts
nothing between two characters that would bring such a pair about, so a configuration whose
values have none is stored as a text that has none, and stays as it is when references are
replaced.
-/
import StepStubs.Config.Reference
import StepStubs.Proofs.Config.Stored

namespace StepStubs
namespace Config

open Yaml

/-- Is there a dollar sign before an opening brace? -/
def hasOpening (t : Text) : Bool := hasPair (· = '$') (· = '\x7b') t

variable {t u after : Text} {c : Char}

/-! ## Replacing no reference -/

theorem rule_of_hasOpening (h : hasOpening t = false) (before : Option Char) :
    Reference.rule before t = none := by
  have hnone : Reference.ofText? t = none := by
    unfold Reference.ofText?
    split
    · exact nomatch h
    · rfl
  rw [Reference.rule, hnone]
  rfl

theorem segmentsFrom_of_hasOpening (h : hasOpening t = false) (before : Option Char) :
    Text.segmentsFrom Reference.rule before 0 t = t.map .kept := by
  induction t generalizing before with
  | nil => rfl
  | cons c t ih =>
    rw [Text.segmentsFrom, rule_of_hasOpening h]
    exact congrArg _ (ih (hasPair_tail h) _)

theorem expand_of_hasOpening (h : hasOpening t = false) (env : Environment) :
    expand env t = .ok t := by
  have hkept : (t.map Text.Segment.kept).mapM (expandSegment env) = .ok (t.map List.singleton) := by
    clear h
    induction t with
    | nil => rfl
    | cons c t ih =>
      rw [List.map_cons, List.mapM_cons, ih]
      rfl
  have hflatten : (t.map List.singleton).flatten = t := by
    clear h hkept
    induction t with
    | nil => rfl
    | cons c t ih => exact congrArg (c :: ·) ih
  rw [expand, Text.segments, segmentsFrom_of_hasOpening h, hkept]
  exact congrArg Except.ok hflatten

/-! ## Writing no reference -/

/-- Neither a dollar sign nor an opening brace. -/
def IsNeutral (c : Char) : Prop := c ≠ '$' ∧ c ≠ '\x7b'

instance (c : Char) : Decidable (IsNeutral c) := inferInstanceAs (Decidable (_ ∧ _))

theorem hasOpening_cons_of_isNeutral (hc : IsNeutral c) : hasOpening (c :: t) = hasOpening t := by
  cases t with
  | nil => rfl
  | cons d t =>
    show (decide (c = '$') && decide (d = '\x7b') || hasOpening (d :: t)) = hasOpening (d :: t)
    rw [decide_eq_false hc.1]
    rfl

theorem hasOpening_append_of_isNeutral (hu : ∀ d ∈ u, IsNeutral d) :
    hasOpening (u ++ t) = hasOpening t := by
  induction u with
  | nil => rfl
  | cons d u ih =>
    rw [List.cons_append, hasOpening_cons_of_isNeutral (hu d List.mem_cons_self)]
    exact ih fun e he => hu e (List.mem_cons_of_mem d he)

/-- What is written for a text holds no opening, and starts with a brace only if the text
does. -/
structure WritesNone (t written : Text) : Prop where
  hasOpening : hasOpening written = false
  head : written.head? = some '\x7b' → t.head? = some '\x7b'

theorem WritesNone.append {t : Text} (hu : ∀ d ∈ u, IsNeutral d) (hne : u ≠ [])
    (h : Config.hasOpening after = false) : WritesNone t (u ++ after) := by
  refine ⟨(hasOpening_append_of_isNeutral hu).trans h, ?_⟩
  cases u with
  | nil => exact absurd rfl hne
  | cons d u =>
    intro hd
    exact absurd (Option.some.inj hd) (hu d List.mem_cons_self).2

theorem WritesNone.neutral (h : WritesNone [] after) (hu : ∀ d ∈ u, IsNeutral d) :
    WritesNone [] (u ++ after) := by
  cases u with
  | nil => exact h
  | cons d u => exact .append hu (List.cons_ne_nil d u) h.hasOpening

/-- A character is written as itself after neutral characters, or as some of these alone. -/
def WritesOne (c : Char) (written : Text) : Prop :=
  ∃ u, (∀ d ∈ u, IsNeutral d) ∧ (written = u ++ [c] ∨ u ≠ [] ∧ written = u)

theorem writesOne_self (c : Char) : WritesOne c [c] := ⟨[], nofun, .inl rfl⟩

theorem WritesOne.append (h : WritesOne c u) {v : Text} (hv : ∀ d ∈ v, IsNeutral d) :
    WritesOne c (v ++ u) := by
  obtain ⟨u', hu', rfl | ⟨hne, rfl⟩⟩ := h
  · exact ⟨v ++ u', List.forall_mem_append.mpr ⟨hv, hu'⟩, .inl (List.append_assoc ..).symm⟩
  · exact ⟨v ++ u, List.forall_mem_append.mpr ⟨hv, hu'⟩,
      .inr ⟨List.append_ne_nil_of_right_ne_nil v hne, rfl⟩⟩

/-- One more character brings no opening about that the text does not have. -/
theorem WritesNone.cons (h : WritesNone t after) (hu : WritesOne c u)
    (hct : Config.hasOpening (c :: t) = false) : WritesNone (c :: t) (u ++ after) := by
  obtain ⟨u', hu', rfl | ⟨hne, rfl⟩⟩ := hu
  · have hc : Config.hasOpening (c :: after) = false := by
      cases after with
      | nil => rfl
      | cons d after =>
        refine Bool.or_eq_false_iff.mpr ⟨?_, h.hasOpening⟩
        -- Only a dollar sign can make an opening, with a brace that the text has next to it, too.
        by_cases hdollar : c = '$'
        · have hbrace : d ≠ '\x7b' := by
            rintro rfl
            have hhead := hasPair_head hct (decide_eq_true hdollar)
            rw [h.head rfl] at hhead
            exact nomatch hhead
          exact Bool.and_eq_false_imp.mpr fun _ => decide_eq_false hbrace
        · exact Bool.and_eq_false_imp.mpr fun h => absurd (of_decide_eq_true h) hdollar
    rw [List.append_assoc, List.singleton_append]
    cases u' with
    | nil => exact ⟨hc, id⟩
    | cons d u' => exact .append hu' (List.cons_ne_nil d u') hc
  · exact .append hu' hne h.hasOpening

theorem writesNone_flatMap {f : Char → Text} (hf : ∀ c ∈ t, WritesOne c (f c))
    (ht : hasOpening t = false) (hafter : WritesNone [] after) :
    WritesNone t (t.flatMap f ++ after) := by
  induction t with
  | nil => exact hafter
  | cons c t ih =>
    rw [List.flatMap_cons, List.append_assoc]
    exact (ih (fun d hd => hf d (List.mem_cons_of_mem c hd)) (hasPair_tail ht)).cons
      (hf c List.mem_cons_self) ht

theorem isNeutral_indentation (depth : Nat) : ∀ d ∈ indentation depth, IsNeutral d := by
  intro d hd
  rw [List.eq_of_mem_replicate hd]
  decide

theorem writesNone_indentLines {depth : Nat} {write : Char → Text}
    (hwrite : ∀ c ∈ t, WritesOne c (write c)) (ht : hasOpening t = false)
    (hafter : WritesNone [] after) (atStart : Bool) :
    WritesNone t (indentLines depth write atStart t ++ after) := by
  induction t generalizing atStart with
  | nil => exact hafter
  | cons c t ih =>
    have hc : WritesOne c (writeIndented depth write atStart c) := by
      rw [writeIndented]
      split
      · exact writesOne_self c
      · refine (hwrite c List.mem_cons_self).append ?_
        split
        · exact isNeutral_indentation depth
        · exact fun d hd => absurd hd List.not_mem_nil
    rw [indentLines_cons, List.append_assoc]
    exact (ih (fun d hd => hwrite d (List.mem_cons_of_mem c hd)) (hasPair_tail ht) _).cons hc ht

theorem isNeutral_hexDigits {width n : Nat} : ∀ d ∈ hexDigits width n, IsNeutral d := by
  have hdigits : ∀ d ∈ "0123456789ABCDEF".toList, IsNeutral d :=
    forall_mem_of_all (by decide)
  exact fun d hd => hdigits d (mem_hexDigits hd)

theorem writesOne_escapeChar (c : Char) : WritesOne c (escapeChar c) := by
  have hbackslash : IsNeutral '\\' := by decide
  have hletters : ∀ d ∈ escapeLetters, IsNeutral d := forall_mem_of_all (by decide)
  rcases escapeChar_cases c with ⟨heq, -⟩ | ⟨letter, hmem, heq, -⟩ | ⟨letter, hmem, width, heq, -⟩
  · rw [heq]
    exact writesOne_self c
  · rw [heq]
    exact ⟨_, List.forall_mem_cons.mpr ⟨hbackslash,
      List.forall_mem_singleton.mpr (hletters letter hmem)⟩, .inr ⟨List.cons_ne_nil _ _, rfl⟩⟩
  · rw [heq]
    exact ⟨_, List.forall_mem_cons.mpr ⟨hbackslash, List.forall_mem_cons.mpr
      ⟨hletters letter hmem, isNeutral_hexDigits⟩⟩, .inr ⟨List.cons_ne_nil _ _, rfl⟩⟩

theorem writesOne_doubleSingleQuote (c : Char) : WritesOne c (doubleSingleQuote c) := by
  rw [doubleSingleQuote]
  split
  · exact ⟨_, forall_mem_of_all (by decide), .inr ⟨List.cons_ne_nil _ _, rfl⟩⟩
  · exact writesOne_self c

theorem hasOpening_writeScalar (depth : Nat) {v : Text} (hv : hasOpening v = false)
    (hafter : WritesNone [] after) : hasOpening (writeScalar depth v ++ after) = false := by
  cases hstyle : Style.of v with
  | plain =>
    have hline : WritesNone [] ('\n' :: after) :=
      hafter.neutral (u := ['\n']) (forall_mem_of_all (by decide))
    have hwritten := writesNone_flatMap (fun c _ => writesOne_self c) hv hline
    rw [List.flatMap_singleton'] at hwritten
    rw [writeScalar_plain hstyle]
    exact hwritten.hasOpening
  | singleQuoted =>
    have hclosing : WritesNone [] ((if (v.getLast?.map isBreak).getD false then
        indentation depth else []) ++ '\'' :: '\n' :: after) := by
      have hquote := hafter.neutral (u := ['\'', '\n']) (forall_mem_of_all (by decide))
      split
      · exact hquote.neutral (isNeutral_indentation depth)
      · exact hquote
    rw [writeScalar_singleQuoted hstyle, hasOpening_cons_of_isNeutral (by decide)]
    exact (writesNone_indentLines (fun c _ => writesOne_doubleSingleQuote c) hv hclosing
      false).hasOpening
  | doubleQuoted =>
    have hclosing : WritesNone [] ('"' :: '\n' :: after) :=
      hafter.neutral (u := ['"', '\n']) (forall_mem_of_all (by decide))
    rw [writeScalar_doubleQuoted hstyle, hasOpening_cons_of_isNeutral (by decide)]
    exact (writesNone_flatMap (fun c _ => writesOne_escapeChar c) hv hclosing).hasOpening
  | literal =>
    have hclosing : WritesNone [] (closingBreak v ++ after) := by
      unfold closingBreak
      split
      · exact hafter
      · exact hafter.neutral (forall_mem_of_all (by decide))
    have hmarks : ∀ d ∈ ['2', '-', '+'], IsNeutral d := forall_mem_of_all (by decide)
    rw [writeScalar_literal hstyle, hasOpening_cons_of_isNeutral (by decide),
      hasOpening_append_of_isNeutral fun d hd => hmarks d (mem_marks v d hd),
      hasOpening_cons_of_isNeutral (by decide)]
    exact (writesNone_indentLines (fun c _ => writesOne_self c) hv hclosing true).hasOpening

theorem writesNone_groupText {name : String} {k : Nat}
    (hname : (name.toList ++ [':', '\n']).all (decide <| IsNeutral ·) = true)
    (hafter : WritesNone [] after) :
    WritesNone [] (groupText name k after) := by
  have hline := (hafter.neutral (isNeutral_indentation k)).neutral (forall_mem_of_all hname)
  rwa [List.append_assoc] at hline

theorem writesNone_fieldText {name : String} {v : Text} {k : Nat}
    (hname : (name.toList ++ [':', ' ']).all (decide <| IsNeutral ·) = true)
    (hv : hasOpening v = false)
    (hafter : WritesNone [] after) : WritesNone [] (fieldText name v k after) := by
  have hvalue := hasOpening_writeScalar 4 hv (hafter.neutral (isNeutral_indentation k))
  have hline := WritesNone.append (t := []) (forall_mem_of_all hname)
    (List.append_ne_nil_of_right_ne_nil _ (by decide)) hvalue
  rwa [List.append_assoc] at hline

/-- A configuration whose values have no opening is stored without one. -/
theorem hasOpening_toYaml {c : Config} (h : ∀ v ∈ c.values, hasOpening v = false) :
    hasOpening c.toYaml = false := by
  obtain ⟨hfeatures, hsteps, hextension, hsuffix, hmodule⟩ :
      hasOpening c.featuresDir.text = false ∧ hasOpening c.stepsDir.text = false ∧
        hasOpening c.featureExtension = false ∧ hasOpening c.outputSuffix = false ∧
        hasOpening c.cucumberModule = false := by
    simpa [values] using h
  have hending : WritesNone [] c.ending := by
    unfold ending
    split
    · exact ⟨by decide, by decide⟩
    · exact ⟨rfl, nofun⟩
  rw [toYaml_eq]
  exact (writesNone_groupText (by decide) <|
    writesNone_fieldText (by decide) hfeatures <| writesNone_fieldText (by decide) hsteps <|
    writesNone_groupText (by decide) <|
    writesNone_fieldText (by decide) hextension <| writesNone_fieldText (by decide) hsuffix <|
    writesNone_fieldText (by decide) hmodule hending).hasOpening

end Config
end StepStubs
