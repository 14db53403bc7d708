/-
A configuration is read from its own text.

The text of a configuration is a mapping of two groups of fields.  Whatever the values hold, it
is scanned as the tokens of that mapping, and these are read as a document whose fields are the
values.
-/
import StepStubs.Config.Stored
import StepStubs.Proofs.Yaml.Scanner

namespace StepStubs
namespace Config

open Yaml
open Yaml.Scanner

variable {s : Scanner} {name rest : Text} {ts opened : List Token} {columns outer : List Nat}
  {column k : Nat}

/-! ## Keys and fields -/

/-- A key that is written and read as it is, and is no marker of a document. -/
def IsPlainKey (name : Text) : Prop :=
  allowsPlain name = true ∧ name.length ≤ maxKeyLength ∧
    (name.head?.map Char.isAlpha).getD false = true

instance (name : Text) : Decidable (IsPlainKey name) := inferInstanceAs (Decidable (_ ∧ _ ∧ _))

namespace IsPlainKey

theorem ne_nil (h : IsPlainKey name) : name ≠ [] := by
  rintro rfl
  exact nomatch h.2.2

theorem startsToken (h : IsPlainKey name) (after : Text) : StartsToken (name ++ after) := by
  cases name with
  | nil => exact absurd rfl h.ne_nil
  | cons c t => exact startsToken_of_allowsPlain h.1 (t ++ after)

theorem isKept (h : IsPlainKey name) : ∀ c ∈ name, IsKept c := fun c hc =>
  isKept_of_isPrintable ((printable_of_allowsPlain h.1).1 c hc).1

theorem atMarker (h : IsPlainKey name) (after : Text) : atMarker (name ++ after) = false := by
  cases name with
  | nil => exact absurd rfl h.ne_nil
  | cons c t =>
    have hc : c.isAlpha = true := h.2.2
    have hdash : c ≠ '-' := by
      rintro rfl
      exact absurd hc (by decide)
    have hdot : c ≠ '.' := by
      rintro rfl
      exact absurd hc (by decide)
    simp [Yaml.atMarker, hdash, hdot]

end IsPlainKey

/-- The name of a group, before a line that is `k` columns in. -/
def groupText (name : String) (k : Nat) (after : Text) : Text :=
  name.toList ++ ':' :: '\n' :: (indentation k ++ after)

/-- A field, before a line that is `k` columns in. -/
def fieldText (name : String) (v : Text) (k : Nat) (after : Text) : Text :=
  name.toList ++ ':' :: ' ' :: (writeScalar 4 v ++ (indentation k ++ after))

def valueToken (v : Text) : Token := .scalar (decide (Style.of v = .plain)) v

/-- The name of a group is scanned in two rounds. -/
theorem scanWithin_group {name : String} (hname : IsPlainKey name.toList) (rounds : Nat)
    (hs : AtToken s column (groupText name k rest) ts columns)
    (hkeyed : keyed column ts columns = (opened, outer)) (hrest : StartsToken rest) :
    ∃ s', AtToken s' k rest (.value :: .scalar true name.toList :: opened) outer ∧
      scanWithin (rounds + 2) s = scanWithin rounds s' := by
  obtain ⟨mark, rfl, hs⟩ := hs
  obtain ⟨mark', -, hkey⟩ := scanWithin_key rounds hs hname.1 hname.ne_nil hname.2.1
    (fun _ => hname.atMarker _) rfl
  rw [hkeyed] at hkey
  exact ⟨_, atToken_line mark' _ _ false k hrest, hkey⟩

/-- A field is scanned in three rounds. -/
theorem scanWithin_field {name : String} (hname : IsPlainKey name.toList) (v : Text) (rounds : Nat)
    (hs : AtToken s 2 (fieldText name v k rest) ts columns)
    (hkeyed : keyed 2 ts columns = (opened, 2 :: outer)) (hk : k ≤ 2) (hrest : StartsToken rest) :
    ∃ s', AtToken s' k rest (valueToken v :: .value :: .scalar true name.toList :: opened)
        (2 :: outer) ∧
      scanWithin (rounds + 3) s = scanWithin rounds s' := by
  obtain ⟨mark, hmark, hs⟩ := hs
  obtain ⟨mark', hafter, hkey⟩ := scanWithin_key (rounds + 1) hs hname.1 hname.ne_nil hname.2.1
    (fun _ => hname.atMarker _) rfl
  rw [hmark] at hkey hafter
  rw [hkeyed] at hkey
  obtain ⟨s', hs', hvalue⟩ := scanWithin_value v rounds hafter hk hrest
  exact ⟨s', hs', hkey.trans hvalue⟩

/-! ## Tokens -/

/-- The line after the fields, if there is one. -/
def ending (c : Config) : Text := if c.isOpenEnded then "...\n".toList else []

def documentTokens (c : Config) : List Token :=
  [.blockMapping, .key, .scalar true "paths".toList, .value, .blockMapping,
    .key, .scalar true "features_dir".toList, .value, valueToken c.featuresDir.text,
    .key, .scalar true "steps_dir".toList, .value, valueToken c.stepsDir.text, .blockEnd,
    .key, .scalar true "generation".toList, .value, .blockMapping,
    .key, .scalar true "feature_extension".toList, .value, valueToken c.featureExtension,
    .key, .scalar true "output_suffix".toList, .value, valueToken c.outputSuffix,
    .key, .scalar true "cucumber_module".toList, .value, valueToken c.cucumberModule,
    .blockEnd, .blockEnd] ++ if c.isOpenEnded then [.documentEnd] else []

theorem toYaml_eq (c : Config) : c.toYaml =
    (groupText "paths" 2 <|
      fieldText "features_dir" c.featuresDir.text 2 <|
      fieldText "steps_dir" c.stepsDir.text 0 <|
    groupText "generation" 2 <|
      fieldText "feature_extension" c.featureExtension 2 <|
      fieldText "output_suffix" c.outputSuffix 2 <|
      fieldText "cucumber_module" c.cucumberModule 0 c.ending) := by
  have hpaths : "paths:\n".toList = "paths".toList ++ [':', '\n'] := by decide
  have hgeneration : "generation:\n".toList = "generation".toList ++ [':', '\n'] := by decide
  have hcolon : ": ".toList = [':', ' '] := by decide
  have htwo : "  ".toList = indentation 2 := by decide
  have hzero : indentation 0 = [] := by decide
  unfold toYaml writeField groupText fieldText ending
  simp only [hpaths, hgeneration, hcolon, htwo, hzero, List.append_assoc, List.cons_append,
    List.nil_append]

theorem startsToken_ending (c : Config) : StartsToken c.ending := by
  unfold ending
  split
  · rintro d ⟨⟩
    decide
  · exact fun d hd => nomatch hd

theorem startsToken_toYaml (c : Config) : StartsToken c.toYaml := by
  rw [toYaml_eq]
  exact IsPlainKey.startsToken (by decide) _

theorem scanWithin_toYaml (c : Config) (rounds : Nat) :
    scanWithin (rounds + 21) (.start c.toYaml) = .ok c.documentTokens := by
  have hpaths : IsPlainKey "paths".toList := by decide
  have hfeatures : IsPlainKey "features_dir".toList := by decide
  have hsteps : IsPlainKey "steps_dir".toList := by decide
  have hgeneration : IsPlainKey "generation".toList := by decide
  have hextension : IsPlainKey "feature_extension".toList := by decide
  have hsuffix : IsPlainKey "output_suffix".toList := by decide
  have hmodule : IsPlainKey "cucumber_module".toList := by decide
  -- Two groups and five fields, each from where the one before it ended.
  have h₀ := atToken_start c.startsToken_toYaml
  rw [toYaml_eq] at h₀ ⊢
  obtain ⟨s₁, h₁, heq₁⟩ := scanWithin_group hpaths (rounds + 19) h₀ rfl (hfeatures.startsToken _)
  obtain ⟨s₂, h₂, heq₂⟩ := scanWithin_field hfeatures c.featuresDir.text (rounds + 16) h₁ rfl
    (by decide) (hsteps.startsToken _)
  obtain ⟨s₃, h₃, heq₃⟩ := scanWithin_field hsteps c.stepsDir.text (rounds + 13) h₂ rfl
    (by decide) (hgeneration.startsToken _)
  obtain ⟨s₄, h₄, heq₄⟩ := scanWithin_group hgeneration (rounds + 11) h₃ rfl
    (hextension.startsToken _)
  obtain ⟨s₅, h₅, heq₅⟩ := scanWithin_field hextension c.featureExtension (rounds + 8) h₄ rfl
    (by decide) (hsuffix.startsToken _)
  obtain ⟨s₆, h₆, heq₆⟩ := scanWithin_field hsuffix c.outputSuffix (rounds + 5) h₅ rfl
    (by decide) (hmodule.startsToken _)
  obtain ⟨s₇, h₇, heq₇⟩ := scanWithin_field hmodule c.cucumberModule (rounds + 2) h₆ rfl
    (by decide) c.startsToken_ending
  obtain ⟨mark, hmark, h₇⟩ := h₇
  refine heq₁.trans (heq₂.trans (heq₃.trans (heq₄.trans (heq₅.trans (heq₆.trans (heq₇.trans ?_))))))
  rw [documentTokens]
  unfold ending at h₇
  split at h₇
  · next hopen =>
    rw [scanWithin_documentEnd rounds h₇ hmark, if_pos hopen]
    rfl
  · next hclosed =>
    rw [scanWithin_end (rounds + 1) h₇, if_neg hclosed]
    rfl

theorem isKept_groupText {name : String} (hname : IsPlainKey name.toList) (k : Nat)
    (hrest : ∀ d ∈ rest, IsKept d) : ∀ d ∈ groupText name k rest, IsKept d :=
  List.forall_mem_append.mpr ⟨hname.isKept, List.forall_mem_cons.mpr ⟨by decide,
    List.forall_mem_cons.mpr ⟨isKept_newline, List.forall_mem_append.mpr
      ⟨isKept_indentation, hrest⟩⟩⟩⟩

theorem isKept_fieldText {name : String} (hname : IsPlainKey name.toList) (v : Text) (k : Nat)
    (hrest : ∀ d ∈ rest, IsKept d) : ∀ d ∈ fieldText name v k rest, IsKept d :=
  List.forall_mem_append.mpr ⟨hname.isKept, List.forall_mem_cons.mpr ⟨by decide,
    List.forall_mem_cons.mpr ⟨by decide, List.forall_mem_append.mpr ⟨isKept_writeScalar 4 v,
      List.forall_mem_append.mpr ⟨isKept_indentation, hrest⟩⟩⟩⟩⟩

theorem isKept_toYaml (c : Config) : ∀ d ∈ c.toYaml, IsKept d := by
  have hending : ∀ d ∈ c.ending, IsKept d := by
    unfold ending
    split <;> exact forall_mem_of_all (by decide)
  rw [toYaml_eq]
  exact isKept_groupText (by decide) 2 <| isKept_fieldText (by decide) _ 2 <|
    isKept_fieldText (by decide) _ 0 <| isKept_groupText (by decide) 2 <|
    isKept_fieldText (by decide) _ 2 <| isKept_fieldText (by decide) _ 2 <|
    isKept_fieldText (by decide) _ 0 hending

/-- The text of a configuration holds its tokens, whatever its values are. -/
theorem tokens_toYaml (c : Config) : Yaml.tokens c.toYaml = .ok c.documentTokens := by
  have hkept := c.isKept_toYaml
  have hallowed : (!c.toYaml.all isAllowed) = false := by
    rw [Bool.not_eq_false', List.all_eq_true]
    exact fun d hd => (hkept d hd).1
  -- The rounds are bounded by the length of the text, and the names alone are long enough.
  have hlength : 20 ≤ c.toYaml.length := by
    rw [toYaml_eq]
    simp only [groupText, fieldText, List.length_append, List.length_cons]
    simp
    omega
  obtain ⟨rounds, hrounds⟩ := Nat.exists_eq_add_of_le hlength
  have hbound : c.toYaml.length + 1 = rounds + 21 := by omega
  rw [Yaml.tokens, if_neg (Bool.eq_false_iff.mp hallowed), unifyBreaks_of_isKept hkept, hbound,
    scanWithin_toYaml]

/-! ## Document -/

def valueNode (v : Text) : Node := .scalar (decide (Style.of v = .plain)) v

def documentOf (c : Config) : Node :=
  .mapping [
    (.scalar true "paths".toList, .mapping [
      (.scalar true "features_dir".toList, valueNode c.featuresDir.text),
      (.scalar true "steps_dir".toList, valueNode c.stepsDir.text)]),
    (.scalar true "generation".toList, .mapping [
      (.scalar true "feature_extension".toList, valueNode c.featureExtension),
      (.scalar true "output_suffix".toList, valueNode c.outputSuffix),
      (.scalar true "cucumber_module".toList, valueNode c.cucumberModule)])]

theorem document?_toYaml (c : Config) : document? c.toYaml = .ok (some c.documentOf) := by
  rw [document?, tokens_toYaml, documentTokens]
  cases c.isOpenEnded with
  | true => rfl
  | false => rfl

theorem ofNode_documentOf (c : Config) : ofNode c.documentOf = .ok c := by
  rfl

/-- A configuration is read from its own text, whatever its values are. -/
theorem ofYaml_toYaml (c : Config) : ofYaml c.toYaml = .ok c := by
  simp only [ofYaml, document?_toYaml, bind, Except.bind, ofNode_documentOf]

end Config
end StepStubs
