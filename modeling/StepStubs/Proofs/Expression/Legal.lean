/-
Every compiled pattern is legal.

Two things hold of the draft after the last pass.  No piece is a private-use character,
since the text lost them before the first pass and no pass brings one in.  And every slash
and round bracket is escaped, with backslashes paired from the left, since the last two
passes escape them.  `patternFrom` pairs backslashes in another way: it keeps a backslash
only before a character that it may escape.  `exists_tokens` shows that the two pairings
never part: where the one pairs a backslash with a character and the other does not, that
character is neither a backslash nor a bracket nor a slash, so both go on as if nothing had
been escaped.
-/
import StepStubs.Proofs.Expression.Token
import StepStubs.Proofs.Text.Escape
import StepStubs.Proofs.Text.Segments
import StepStubs.Step.Compiled
import Mathlib.Logic.ExistsUnique

namespace StepStubs

namespace CompiledStep

theorem pattern_key (s : CompiledStep) : s.key.pattern = s.pattern := rfl

theorem pattern_ofStep (s : Feature.Step) :
    (ofStep s).pattern = (Expression.compile s.text).text := by
  rw [ofStep]

theorem parameters_ofStep (s : Feature.Step) :
    (ofStep s).parameters = (Expression.compile s.text).parameters := by
  rw [ofStep]

end CompiledStep

namespace Expression

/-! ## Pieces that a draft may hold -/

/-- Is the piece something else than a private-use character? -/
def Piece.isPublic : Piece → Bool
  | char c => !isPrivate c
  | slot _ => true

/-- Is no piece of the draft a private-use character? -/
def Draft.IsPublic (d : Draft) : Prop := ∀ p ∈ d, p.isPublic = true

theorem Draft.IsPublic.sublist {d e : Draft} (he : e.IsPublic) (h : d.Sublist e) : d.IsPublic :=
  fun p hp => he p (h.subset hp)

theorem inner_sublist (span : Draft) : (inner span).Sublist span :=
  (List.dropLast_sublist _).trans (List.tail_sublist _)

/-- What one round keeps, settling keeps. -/
theorem settle_of_step {P : Draft → Prop} {f : Draft → Draft} (hf : ∀ d, P d → P (f d)) (n : Nat)
    {d : Draft} (hd : P d) : P (settle f n d) := by
  induction n generalizing d with
  | zero => exact hd
  | succ n ih =>
    rw [settle]
    split
    · exact hd
    · exact ih (hf d hd)

/-- Does the property hold of all that the passes bring into a draft: the slots, the letters and
blanks of a few words, and the backslash? -/
structure AdmitsNew (P : Piece → Prop) : Prop where
  slot : ∀ q, P (.slot q)
  char : ∀ c ∈ "greater than or\\".toList, P (.char c)

namespace AdmitsNew

variable {P : Piece → Prop} {d : Draft}

theorem forall_mem_ofChars (hP : AdmitsNew P) {t : Text} (ht : t ⊆ "greater than or\\".toList) :
    ∀ p ∈ Draft.ofChars t, P p := by
  intro p hp
  obtain ⟨c, hc, rfl⟩ := List.mem_map.mp hp
  exact hP.char c (ht hc)

/-- A group is put together again from its own pieces, a slot, and words. -/
theorem forall_mem_regroup (hP : AdmitsNew P) (h : ∀ p ∈ d, P p) : ∀ p ∈ regroup d, P p := by
  have hlead : ∀ p ∈ (inner d).takeWhile fun p => !p.isDigit, P p := fun p hp =>
    h p ((inner_sublist d).subset ((List.takeWhile_sublist _).subset hp))
  have htail : ∀ p ∈ .slot .number :: ((inner d).drop
      ((inner d).takeWhile fun p => !p.isDigit).length).dropWhile Piece.isDigit, P p :=
    List.forall_mem_cons.mpr ⟨hP.slot .number, fun p hp => h p ((inner_sublist d).subset
      ((List.drop_sublist _ _).subset ((List.dropWhile_sublist _).subset hp)))⟩
  unfold regroup
  dsimp only
  split
  · exact List.forall_mem_append.mpr ⟨hP.forall_mem_ofChars (by decide), htail⟩
  · split
    · exact htail
    · exact List.forall_mem_append.mpr ⟨hlead, htail⟩

theorem forall_mem_readSlashes (hP : AdmitsNew P) (h : ∀ p ∈ d, P p) :
    ∀ p ∈ readSlashes d, P p := by
  intro p hp
  obtain ⟨q, hq, hp⟩ := List.mem_flatMap.mp hp
  split at hp
  · exact hP.forall_mem_ofChars (by decide) p hp
  · rw [List.mem_singleton.mp hp]
    exact h q hq

theorem forall_mem_flattenGroups (hP : AdmitsNew P) (seen : List Draft)
    (ss : List (Text.Segment Piece)) (h : ∀ s ∈ ss, ∀ p ∈ s.elements, P p) :
    ∀ p ∈ flattenGroups seen ss, P p := by
  induction ss generalizing seen with
  | nil => exact nofun
  | cons s ss ih =>
    have hs := h s List.mem_cons_self
    have hss := fun seen => ih seen fun s' hs' => h s' (List.mem_cons_of_mem s hs')
    cases s with
    | kept p => exact List.forall_mem_append.mpr ⟨hs, hss seen⟩
    | span span =>
      have hinner : ∀ p ∈ inner span, P p := fun p hp => hs p ((inner_sublist span).subset hp)
      rw [flattenGroups]
      split
      · exact List.forall_mem_append.mpr ⟨hs, hss seen⟩
      · exact List.forall_mem_append.mpr ⟨hP.forall_mem_readSlashes hinner, hss _⟩

theorem forall_mem_escape (hP : AdmitsNew P) (h : ∀ p ∈ d, P p) (special : Piece → Bool) :
    ∀ p ∈ Text.escape (.char '\\') special d, P p := by
  intro p hp
  rcases Text.mem_escapeFrom hp with rfl | hp
  · exact hP.char '\\' (by decide)
  · exact h p hp

theorem forall_mem_apply (hP : AdmitsNew P) (pass : Pass) (h : ∀ p ∈ d, P p) :
    ∀ p ∈ pass.apply d, P p := by
  have hslot : ∀ q, ∀ p ∈ [Piece.slot q], P p := fun q => List.forall_mem_singleton.mpr (hP.slot q)
  cases pass with
  | quotes => exact Text.forall_mem_replaceSpans (fun _ _ => hslot .string) h _
  | numericGroups => exact Text.forall_mem_replaceSpans (fun _ => hP.forall_mem_regroup) h _
  | slashGroups => exact hP.forall_mem_flattenGroups [] _ (Text.forall_mem_segments h _)
  | numerals => exact Text.forall_mem_replaceSpans (fun _ _ => hslot .number) h _
  | slashes =>
    refine hP.forall_mem_escape (settle_of_step (P := fun d => ∀ p ∈ d, P p) (fun d h => ?_) _ h) _
    exact Text.forall_mem_replaceSpans (fun _ => hP.forall_mem_readSlashes) h _
  | brackets => exact hP.forall_mem_escape h _

/-- What holds of the characters of a text and of all that the passes bring in holds of the draft
after the last pass. -/
theorem forall_mem_draft (hP : AdmitsNew P) {t : Text} (h : ∀ p ∈ Draft.ofText t, P p) :
    ∀ p ∈ draft t, P p := by
  have hfoldl : ∀ (ps : List Pass) {d : Draft}, (∀ p ∈ d, P p) →
      ∀ p ∈ ps.foldl (fun d p => p.apply d) d, P p := by
    intro ps
    induction ps with
    | nil => exact fun h => h
    | cons pass ps ih => exact fun h => ih (hP.forall_mem_apply pass h)
  rw [draft]
  exact hfoldl Pass.all h

end AdmitsNew

/-- No pass brings in a private-use character. -/
theorem admitsNew_isPublic : AdmitsNew fun p => p.isPublic = true :=
  ⟨fun _ => rfl, List.all_eq_true.mp (by decide)⟩

theorem isPublic_ofText (t : Text) : (Draft.ofText t).IsPublic := by
  intro p hp
  obtain ⟨c, hc, rfl⟩ := List.mem_map.mp hp
  exact (List.mem_filter.mp hc).2

theorem Pass.isPublic_apply (pass : Pass) {d : Draft} (h : d.IsPublic) :
    (pass.apply d).IsPublic := admitsNew_isPublic.forall_mem_apply pass h

theorem isPublic_draft (t : Text) : (draft t).IsPublic :=
  admitsNew_isPublic.forall_mem_draft (isPublic_ofText t)

/-! ## Brackets and slashes -/

/-- Is the piece a slash or a round bracket? -/
def Piece.isStructural (p : Piece) : Bool :=
  p == .char '/' || (p == .char '(' || p == .char ')')

/-- The last two passes escape as one. -/
theorem apply_brackets_slashes (d : Draft) :
    Pass.brackets.apply (Pass.slashes.apply d) =
      Text.escape (.char '\\') Piece.isStructural (settleAlternatives d) :=
  Text.escape_escape_eq _

/-- The last two passes leave no slash and no bracket unescaped. -/
theorem isEscaped_draft (t : Text) :
    Text.isEscaped (.char '\\') Piece.isStructural (draft t) = true := by
  simp only [draft, Pass.all, List.foldl_cons, List.foldl_nil]
  rw [apply_brackets_slashes]
  exact Text.isEscaped_escape _

theorem isStructural_of_mem_reserved {c : Char} (hc : c ∈ reserved) (hb : c ≠ '\\')
    (hl : c ≠ '\x7b') (hr : c ≠ '\x7d') : Piece.isStructural (.char c) = true := by
  simp only [reserved, List.mem_cons, List.not_mem_nil, or_false] at hc
  rcases hc with rfl | rfl | rfl | rfl | rfl | rfl
  · rfl
  · rfl
  · rfl
  · exact absurd rfl hl
  · exact absurd rfl hr
  · exact absurd rfl hb

theorem isEscapable_iff {c : Char} :
    isEscapable c = true ↔ c ∈ reserved ∨ Text.isBlank c = true := by
  simp [isEscapable, reserved, or_assoc]

/-! ## From a draft to tokens -/

theorem ne_private {c : Char} (h : Piece.isPublic (.char c) = true) :
    c ≠ '\ue000' ∧ c ≠ '\ue001' := by
  simpa [Piece.isPublic, isPrivate] using h

/-- A character that is neither reserved nor escaped is written as it is. -/
theorem patternFrom_plain {c : Char} (hc : c ∉ reserved) (d : Draft) :
    Draft.patternFrom false (.char c :: d) = c :: Draft.patternFrom false d := by
  have hb : c ≠ '\\' := fun e => hc (e ▸ by decide)
  have hl : c ≠ '\x7b' := fun e => hc (e ▸ by decide)
  have hr : c ≠ '\x7d' := fun e => hc (e ▸ by decide)
  rw [Draft.patternFrom, if_neg hb, if_neg (not_or.mpr ⟨hl, hr⟩)]

theorem patternFrom_brace {c : Char} (hc : c = '\x7b' ∨ c = '\x7d') (d : Draft) :
    Draft.patternFrom false (.char c :: d) = '\\' :: c :: Draft.patternFrom false d := by
  have hb : c ≠ '\\' := by rcases hc with rfl | rfl <;> decide
  rw [Draft.patternFrom, if_neg hb, if_pos hc]

theorem patternFrom_backslash (d : Draft) :
    Draft.patternFrom false (.char '\\' :: d) =
      if Draft.startsEscapable d then '\\' :: Draft.patternFrom true d
      else '\\' :: '\\' :: Draft.patternFrom false d := by
  rw [Draft.patternFrom, if_pos rfl]

/-- Is the text written by a row of tokens with the parameters of the draft? -/
def HasTokens (d : Draft) (t : Text) : Prop :=
  ∃ ts : List Token, Token.parameters ts = d.parameters ∧ Token.write ts = t

theorem hasTokens_slot {d : Draft} {t : Text} (h : HasTokens d t) (q : Parameter) :
    HasTokens (.slot q :: d) (q.placeholder ++ t) := by
  obtain ⟨ts, hts, hw⟩ := h
  refine ⟨.placeholder q :: ts, congrArg (q :: ·) hts, ?_⟩
  rw [Token.write_cons, hw]
  rfl

theorem hasTokens_plain {c : Char} {d : Draft} (hc : c ∉ reserved ∧ c ≠ '\ue000' ∧ c ≠ '\ue001')
    (h : HasTokens d (Draft.patternFrom false d)) :
    HasTokens (.char c :: d) (Draft.patternFrom false (.char c :: d)) := by
  obtain ⟨ts, hts, hw⟩ := h
  refine ⟨.plain c hc :: ts, hts, ?_⟩
  rw [Token.write_cons, hw, patternFrom_plain hc.1]
  rfl

theorem hasTokens_escaped {c : Char} {d : Draft} {t : Text}
    (hc : c ∈ reserved ∨ Text.isBlank c = true) (h : HasTokens d t) :
    HasTokens (.char c :: d) ('\\' :: c :: t) := by
  obtain ⟨ts, hts, hw⟩ := h
  refine ⟨.escaped c hc :: ts, hts, ?_⟩
  rw [Token.write_cons, hw]
  rfl

/-- A draft without private-use characters whose brackets and slashes are escaped is written
as a row of tokens.  `escaped` says that a backslash stands before the draft; the row has it
where it escapes the first character of the draft, and lacks it where it does not. -/
theorem exists_tokens {escaped : Bool} {d : Draft} (hp : d.IsPublic)
    (he : Text.isEscapedFrom (.char '\\') Piece.isStructural escaped d = true) :
    HasTokens d (if escaped && d.startsEscapable then '\\' :: Draft.patternFrom true d
      else Draft.patternFrom false d) := by
  -- A backslash turns `escaped` over for the pieces after it, so the induction leaves it free.
  induction d generalizing escaped with
  | nil => exact ⟨[], rfl, by cases escaped <;> rfl⟩
  | cons p d ih =>
    have hd : Draft.IsPublic d := hp.sublist (List.sublist_cons_self p d)
    cases p with
    | slot q =>
      have he' : Text.isEscapedFrom (.char '\\') Piece.isStructural false d = true := by
        cases escaped with
        | true => exact he
        | false => rwa [Text.isEscapedFrom, if_neg (fun e => Piece.noConfusion e)] at he
      have hrest := hasTokens_slot (ih hd he') q
      have hstart : Draft.startsEscapable (.slot q :: d) = false := rfl
      rw [hstart, Bool.and_false]
      cases escaped <;> exact hrest
    | char c =>
      have hc := ne_private (hp _ List.mem_cons_self)
      cases escaped with
      | true =>
        rw [Text.isEscapedFrom_true_cons] at he
        have hrest := ih hd he
        rw [Bool.false_and, if_neg Bool.false_ne_true] at hrest
        rw [Bool.true_and, Draft.startsEscapable]
        by_cases hs : isEscapable c = true
        · rw [if_pos hs]
          exact hasTokens_escaped (isEscapable_iff.mp hs) hrest
        · -- The backslash before `c` is a token of its own, and `c` is plain.
          have hres : c ∉ reserved := fun h => hs (isEscapable_iff.mpr (Or.inl h))
          rw [if_neg hs]
          exact hasTokens_plain ⟨hres, hc⟩ hrest
      | false =>
        rw [Bool.false_and, if_neg Bool.false_ne_true]
        rw [Text.isEscapedFrom] at he
        by_cases hb : c = '\\'
        · subst hb
          rw [if_pos rfl] at he
          -- What follows says whether this backslash escapes it or has to be escaped itself.
          have hrest := ih hd he
          rw [Bool.true_and] at hrest
          rw [patternFrom_backslash]
          by_cases hs : Draft.startsEscapable d = true
          · rw [if_pos hs] at hrest ⊢
            exact hrest
          · rw [if_neg hs] at hrest ⊢
            exact hasTokens_escaped (Or.inl (by decide)) hrest
        · rw [if_neg (fun e => hb (Piece.char.inj e)), Bool.and_eq_true,
            Bool.not_eq_true'] at he
          have hrest := ih hd he.2
          rw [Bool.false_and, if_neg Bool.false_ne_true] at hrest
          by_cases hbr : c = '\x7b' ∨ c = '\x7d'
          · have hres : c ∈ reserved := by rcases hbr with rfl | rfl <;> decide
            rw [patternFrom_brace hbr]
            exact hasTokens_escaped (Or.inl hres) hrest
          · have hres : c ∉ reserved := by
              intro h
              have hs := isStructural_of_mem_reserved h hb (fun e => hbr (Or.inl e))
                (fun e => hbr (Or.inr e))
              exact Bool.false_ne_true (he.1.symm.trans hs)
            exact hasTokens_plain ⟨hres, hc⟩ hrest

/-- The pattern of a text is written by a row of tokens with its parameters. -/
theorem exists_write_eq_compile (t : Text) :
    ∃ ts : List Token,
      Token.parameters ts = (compile t).parameters ∧ Token.write ts = (compile t).text := by
  have he := isEscaped_draft t
  rw [Text.isEscaped] at he
  obtain ⟨ts, hts, hw⟩ := exists_tokens (isPublic_draft t) he
  rw [Bool.false_and, if_neg Bool.false_ne_true] at hw
  refine ⟨ts, ?_, ?_⟩
  · rw [hts, compile, Draft.finish]
  · rw [hw, compile, Draft.finish, Draft.patternText]

theorem parameters_eq_of_write_eq {t : Text} {ts : List Token}
    (h : Token.write ts = (compile t).text) : Token.parameters ts = (compile t).parameters := by
  obtain ⟨us, hus, hw⟩ := exists_write_eq_compile t
  rw [Token.write_injective (h.trans hw.symm), hus]

/-- A pattern alone determines its parameters. -/
theorem parameters_eq_of_pattern_eq {t u : Text} (h : (compile t).text = (compile u).text) :
    (compile t).parameters = (compile u).parameters := by
  obtain ⟨ts, hts, hw⟩ := exists_write_eq_compile t
  rw [← hts, parameters_eq_of_write_eq (hw.trans h)]

theorem parameters_eq_of_key_eq {s s' : Feature.Step}
    (h : (CompiledStep.ofStep s).key = (CompiledStep.ofStep s').key) :
    (CompiledStep.ofStep s).parameters = (CompiledStep.ofStep s').parameters := by
  have hp := congrArg StepKey.pattern h
  rw [CompiledStep.pattern_key, CompiledStep.pattern_key, CompiledStep.pattern_ofStep,
    CompiledStep.pattern_ofStep] at hp
  rw [CompiledStep.parameters_ofStep, CompiledStep.parameters_ofStep]
  exact parameters_eq_of_pattern_eq hp

/-- Every pattern splits into tokens, in one way only, and its parameters are those of the
placeholders among them.  So the pattern alone determines the parameters, and with it the key
of a step does. -/
theorem existsUnique_tokens_compile (t : Text) :
    (∃! ts : List Token, Token.write ts = (compile t).text) ∧
      (∀ ts : List Token, Token.write ts = (compile t).text →
        Token.parameters ts = (compile t).parameters) ∧
      (∀ u : Text, (compile t).text = (compile u).text →
        (compile t).parameters = (compile u).parameters) ∧
      ∀ s s' : Feature.Step, (CompiledStep.ofStep s).key = (CompiledStep.ofStep s').key →
        (CompiledStep.ofStep s).parameters = (CompiledStep.ofStep s').parameters := by
  refine ⟨?_, fun _ => parameters_eq_of_write_eq, fun _ => parameters_eq_of_pattern_eq,
    fun _ _ => parameters_eq_of_key_eq⟩
  obtain ⟨ts, _, hw⟩ := exists_write_eq_compile t
  exact ⟨ts, hw, fun us hus => Token.write_injective (hus.trans hw.symm)⟩

end Expression
end StepStubs
