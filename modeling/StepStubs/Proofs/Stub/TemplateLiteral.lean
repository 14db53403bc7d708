/-
A template literal as a script evaluates it.

`TemplateLiteral.read` undoes what `encode` does and knows no other escape.  A script knows more: a
dollar sign before an opening brace opens a substitution, a backslash starts any of the escapes of a
string literal, and a carriage return, with or without a line feed behind it, is read as one line
feed.  `evaluate` goes by these rules, up to the first substitution or to the end of the literal.

What `encode` writes ends where it was to end and has no substitution.  Its value is the text with
its line ends folded (`evaluate_encode`), so it is the text itself exactly if the text has no
carriage return: that is the one character which `encode` would have to escape and does not.  A
pattern has a carriage return only if a line of the feature file has one.
-/
import StepStubs.Proofs.Expression.Kept
import StepStubs.Proofs.Feature.Extraction
import StepStubs.Proofs.Stub.Reader
import StepStubs.Proofs.Stub.StringLiteral

namespace StepStubs
namespace Stub
namespace TemplateLiteral

open StringLiteral (pointUnits units units_cons escape?)

/-! ## Evaluation -/

/-- A template literal up to its first substitution, or to its end if it has none. -/
structure Head where
  units : List Nat
  substitutes : Bool
  deriving Repr, DecidableEq

/-- The head of a literal and what follows it, with code units put in front. -/
def prepend (us : List Nat) (r : Head × Text) : Head × Text :=
  (⟨us ++ r.1.units, r.1.substitutes⟩, r.2)

/-- The head of a literal from a position on, and what follows the backtick or the brace that ends
it.  `covered` is how many characters from the position on belong to the last escape or line end. -/
def evaluateFrom : (covered : Nat) → Text → Option (Head × Text)
  | _, [] => none
  | covered + 1, _ :: t => evaluateFrom covered t
  | 0, c :: t =>
    if c = '\x60' then some (⟨[], false⟩, t)
    else if c = '$' ∧ t.head? = some '\x7b' then some (⟨[], true⟩, t.drop 1)
    else if c = '\\' then (escape? t).bind fun e => (evaluateFrom e.2 t).map (prepend e.1)
    else if c = '\r' then
      (evaluateFrom (if t.head? = some '\n' then 1 else 0) t).map (prepend (units ['\n']))
    else (evaluateFrom 0 t).map (prepend (pointUnits c.toNat))

/-- The head of a literal from behind its opening backtick on, and what follows it. -/
def evaluate (t : Text) : Option (Head × Text) := evaluateFrom 0 t

/-- The text with a line feed for each carriage return and the line feed behind it. -/
def foldLineEnds : Text → Text
  | [] => []
  | '\r' :: '\n' :: t => '\n' :: foldLineEnds t
  | '\r' :: t => '\n' :: foldLineEnds t
  | c :: t => c :: foldLineEnds t

/-! ## Encoded texts -/

variable {c : Char} {t rest : Text}

/-- Is the character written with a backslash in front of it, where `t` follows? -/
def Escapes (c : Char) (t : Text) : Prop := c = '\\' ∨ c = '\x60' ∨ (c = '$' ∧ startsBrace t = true)

theorem encode_escaped (h : Escapes c t) : encode (c :: t) = '\\' :: c :: encode t := if_pos h

theorem encode_plain (h : ¬ Escapes c t) : encode (c :: t) = c :: encode t := if_neg h

theorem startsBrace_iff : startsBrace t = true ↔ t.head? = some '\x7b' := by
  cases t with
  | nil => exact iff_of_false Bool.false_ne_true nofun
  | cons c t => simp only [startsBrace.eq_def, List.head?_cons]; grind

/-- A text starts with a character that is never escaped exactly if it does so once it is encoded. -/
theorem head?_encode_append (hc : c ∉ ['\\', '\x60', '$']) :
    (encode t ++ '\x60' :: rest).head? = some c ↔ t.head? = some c := by
  simp only [List.mem_cons, List.not_mem_nil, or_false, not_or] at hc
  obtain ⟨hback, htick, hdollar⟩ := hc
  cases t with
  | nil =>
    refine iff_of_false (fun h => ?_) nofun
    exact htick (Option.some.inj h).symm
  | cons d t =>
    by_cases h : Escapes d t
    · rw [encode_escaped h]
      refine iff_of_false (fun heq => hback (Option.some.inj heq).symm) fun heq => ?_
      obtain rfl := Option.some.inj heq
      exact h.elim hback fun h => h.elim htick fun h => hdollar h.1
    · rw [encode_plain h]
      exact Iff.rfl

/-- An escape that `encode` writes stands for the character behind its backslash. -/
theorem evaluate_escaped (h : Escapes c t) (u : Text) :
    evaluate ('\\' :: c :: u) = (evaluate u).map (prepend (pointUnits c.toNat)) := by
  have hescape : escape? (c :: u) = some (pointUnits c.toNat, 1) := by
    rcases h with rfl | rfl | ⟨rfl, -⟩ <;> rfl
  have hbrace : ¬ ('\\' = '$' ∧ (c :: u).head? = some '\x7b') := fun h => absurd h.1 (by decide)
  rw [evaluate, evaluateFrom, if_neg (by decide), if_neg hbrace, if_pos rfl, hescape]
  rfl

theorem evaluate_plain (h : ¬ Escapes c t) (hc : c ≠ '\r') :
    evaluate (c :: (encode t ++ '\x60' :: rest)) =
      (evaluate (encode t ++ '\x60' :: rest)).map (prepend (pointUnits c.toNat)) := by
  simp only [Escapes, not_or] at h
  obtain ⟨hback, htick, hbrace⟩ := h
  rw [startsBrace_iff] at hbrace
  have hencoded : ¬ (c = '$' ∧ (encode t ++ '\x60' :: rest).head? = some '\x7b') :=
    fun h => hbrace ⟨h.1, (head?_encode_append (by decide)).mp h.2⟩
  rw [evaluate, evaluateFrom, if_neg htick, if_neg hencoded, if_neg hback, if_neg hc]
  rfl

theorem evaluate_carriageReturn (t : Text) :
    evaluate ('\r' :: t) =
      (evaluateFrom (if t.head? = some '\n' then 1 else 0) t).map (prepend (units ['\n'])) := by
  have hbrace : ¬ ('\r' = '$' ∧ t.head? = some '\x7b') := fun h => absurd h.1 (by decide)
  rw [evaluate, evaluateFrom, if_neg (by decide), if_neg hbrace, if_neg (by decide), if_pos rfl]

/-- What `encode` writes is evaluated to the text with its line ends folded, without a substitution,
whatever follows the closing backtick. -/
theorem evaluate_encode (t rest : Text) :
    evaluate (encode t ++ '\x60' :: rest) = some (⟨units (foldLineEnds t), false⟩, rest) := by
  induction t using foldLineEnds.induct with
  | case1 => rfl
  | case2 t ih =>
    have hcr : ¬ Escapes '\r' ('\n' :: t) := by simp [Escapes]
    have hlf : ¬ Escapes '\n' t := by simp [Escapes]
    have hhead : ('\n' :: (encode t ++ '\x60' :: rest)).head? = some '\n' := rfl
    have hcovered : evaluateFrom 1 ('\n' :: (encode t ++ '\x60' :: rest)) =
        evaluate (encode t ++ '\x60' :: rest) := rfl
    rw [encode_plain hcr, encode_plain hlf, List.cons_append, List.cons_append,
      evaluate_carriageReturn, if_pos hhead, hcovered, ih]
    rfl
  | case3 t hlf ih =>
    have hcr : ¬ Escapes '\r' t := by simp [Escapes]
    have hhead : (encode t ++ '\x60' :: rest).head? ≠ some '\n' := by
      rw [ne_eq, head?_encode_append (by decide)]
      intro heq
      obtain ⟨u, rfl⟩ := List.head?_eq_some_iff.mp heq
      exact hlf u rfl
    rw [encode_plain hcr, List.cons_append, evaluate_carriageReturn, if_neg hhead, ← evaluate, ih,
      foldLineEnds]
    · rfl
    · exact hlf
  | case4 c t hcrlf hcr ih =>
    have hfold : foldLineEnds (c :: t) = c :: foldLineEnds t := by
      rw [foldLineEnds]
      · exact hcrlf
      · exact hcr
    rw [hfold, units_cons]
    by_cases h : Escapes c t
    · rw [encode_escaped h, List.cons_append, List.cons_append, evaluate_escaped h, ih]
      rfl
    · rw [encode_plain h, List.cons_append, evaluate_plain h hcr, ih]
      rfl

/-! ## Carriage returns -/

theorem foldLineEnds_of_not_mem (h : '\r' ∉ t) : foldLineEnds t = t := by
  induction t using foldLineEnds.induct <;> grind [foldLineEnds]

theorem not_mem_foldLineEnds (t : Text) : '\r' ∉ foldLineEnds t := by
  induction t using foldLineEnds.induct <;> grind [foldLineEnds]

/-- The units of a text show whether it has a carriage return. -/
theorem mem_units_iff : 0x0D ∈ units t ↔ '\r' ∈ t := by
  rw [units, List.mem_flatMap]
  constructor
  · rintro ⟨c, hc, hmem⟩
    have hpoint : c.toNat = 0x0D := by
      rw [pointUnits] at hmem
      split at hmem
      · exact (List.mem_singleton.mp hmem).symm
      · simp only [List.mem_cons, List.not_mem_nil, or_false] at hmem
        omega
    have heq : c = '\r' := Char.toNat_inj.mp hpoint
    rwa [← heq]
  · exact fun h => ⟨'\r', h, by decide⟩

theorem units_foldLineEnds_eq_iff : units (foldLineEnds t) = units t ↔ '\r' ∉ t := by
  refine ⟨fun h hmem => ?_, fun h => congrArg units (foldLineEnds_of_not_mem h)⟩
  rw [← mem_units_iff, ← h, mem_units_iff] at hmem
  exact not_mem_foldLineEnds t hmem

end TemplateLiteral

/-! ## Stubs -/

open TemplateLiteral (Head evaluate foldLineEnds)

/-- The head of the template literal of a stub, and what follows it. -/
def literal? (stub : Text) : Option (Head × Text) := do
  let (_, t) ← readPhase? stub
  evaluate t

/-- What stands in a stub behind its template literal. -/
def afterLiteral (s : CompiledStep) : Text :=
  ", (".toList ++ (signature s.parameters s.hasTable ++ definitionEnd s)

theorem literal?_definition (s : CompiledStep) :
    literal? (definition s) =
      some (⟨StringLiteral.units (foldLineEnds s.pattern), false⟩, afterLiteral s) := by
  have hstub := definition_append s []
  rw [List.append_nil, List.append_nil] at hstub
  rw [hstub, literal?, readPhase?_word]
  exact TemplateLiteral.evaluate_encode _ _

/-- A carriage return in a pattern comes from a line of the feature file. -/
theorem exists_line_of_mem_pattern {content : Text} {s : CompiledStep}
    (hs : s ∈ Feature.compiledSteps content) (h : '\r' ∈ s.pattern) :
    ∃ l ∈ Text.lines content, '\r' ∈ l := by
  obtain ⟨step, hstep, rfl⟩ := List.mem_map.mp hs
  rw [CompiledStep.pattern_ofStep] at h
  have htext : '\r' ∈ step.text :=
    Expression.mem_of_mem_compile (by decide) (by intro q; cases q <;> decide) h
  obtain ⟨i, hdescribes⟩ := (Feature.isExtractionOf_extract content).exists_describes hstep
  obtain ⟨l, hl, hinfix⟩ := hdescribes.exists_line
  exact ⟨l, List.mem_of_getElem? hl, hinfix.subset htext⟩

/-- The template literal of a stub ends where it was to end, has no substitution, and is evaluated
to the pattern with its line ends folded.  So its value is the pattern exactly if the pattern has no
carriage return, which is so at least if no line of the feature file has one. -/
theorem literal?_definition_iff {content : Text} {s : CompiledStep}
    (hs : s ∈ Feature.compiledSteps content) :
    literal? (definition s) =
        some (⟨StringLiteral.units (foldLineEnds s.pattern), false⟩, afterLiteral s) ∧
      (literal? (definition s) = some (⟨StringLiteral.units s.pattern, false⟩, afterLiteral s) ↔
        '\r' ∉ s.pattern) ∧
      ((∀ l ∈ Text.lines content, '\r' ∉ l) → '\r' ∉ s.pattern) := by
  refine ⟨literal?_definition s, ?_, fun hlines hmem => ?_⟩
  · rw [literal?_definition, ← TemplateLiteral.units_foldLineEnds_eq_iff]
    simp only [Option.some.injEq, Prod.mk.injEq, Head.mk.injEq, and_true]
  · obtain ⟨l, hl, hmem⟩ := exists_line_of_mem_pattern hs hmem
    exact hlines l hl hmem

/-- A dollar sign before a placeholder, and one before an escaped brace. -/
def priceStep : CompiledStep :=
  CompiledStep.ofStep
    ⟨.context, .primary .context, "pay $5 as `$\x7bx\x7d` \\o/".toList, false, 1⟩

theorem literal?_definition_priceStep :
    priceStep ∈ Feature.compiledSteps "Given pay $5 as `$\x7bx\x7d` \\o/".toList ∧
      '\r' ∉ priceStep.pattern ∧
      literal? (definition priceStep) =
        some (⟨StringLiteral.units priceStep.pattern, false⟩, afterLiteral priceStep) := by
  have hs : priceStep ∈ Feature.compiledSteps "Given pay $5 as `$\x7bx\x7d` \\o/".toList := by
    decide +kernel
  have hpattern : '\r' ∉ priceStep.pattern := by decide +kernel
  exact ⟨hs, hpattern, (literal?_definition_iff hs).2.1.mpr hpattern⟩

/-- A step with a carriage return. -/
def brokenStep : CompiledStep :=
  CompiledStep.ofStep ⟨.context, .primary .context, "a\rb".toList, false, 1⟩

/-- Its template literal stands for another text. -/
theorem literal?_definition_brokenStep :
    brokenStep ∈ Feature.compiledSteps "Given a\rb\n".toList ∧
      brokenStep.pattern = "a\rb".toList ∧
      literal? (definition brokenStep) =
        some (⟨StringLiteral.units "a\nb".toList, false⟩, afterLiteral brokenStep) ∧
      StringLiteral.units "a\nb".toList ≠ StringLiteral.units brokenStep.pattern := by
  refine ⟨by decide +kernel, by decide +kernel, by decide +kernel, by decide +kernel⟩

end Stub
end StepStubs
