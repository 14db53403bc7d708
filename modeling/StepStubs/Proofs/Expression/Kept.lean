/-
What the passes after the first keep.

Each pass takes out brackets, slashes, digits and blanks, and puts in words, slots for numbers and
backslashes.  So a filter that passes over these sees the same pieces before and after the pass, in
the same order.  There is one lemma for each pass, with the pieces that the pass may take out or put
in as its hypothesis.  Counting a quote or a slot, and listing the parameters, are such filters.
-/
import StepStubs.Proofs.Expression.Group
import StepStubs.Proofs.Expression.Numeral

namespace StepStubs
namespace Expression

open Text (Segment segments joinSegments replaceSpans)

/-! ## What a filter sees -/

variable {keep : Piece → Bool}

theorem filter_readSlashes (h : ∀ c ∈ "/ or".toList, keep (.char c) = false) (d : Draft) :
    (readSlashes d).filter keep = d.filter keep := by
  have hor : (Draft.ofChars " or ".toList).filter keep = [] := by
    have hsub : " or ".toList ⊆ "/ or".toList := by decide
    refine List.filter_eq_nil_iff.mpr fun p hp => ?_
    obtain ⟨c, hc, rfl⟩ := List.mem_map.mp hp
    rw [h c (hsub hc)]
    exact Bool.false_ne_true
  induction d with
  | nil => rfl
  | cons p d ih =>
    rw [readSlashes, List.flatMap_cons, ← readSlashes, List.filter_append, ih]
    by_cases hp : p = .char '/'
    · rw [if_pos hp, hor, hp, List.filter_cons_of_neg (by simp [h '/' (by decide)])]
      rfl
    · rw [if_neg hp, ← List.filter_append, List.singleton_append]

theorem filter_numerals (h : ∀ p, keep p = true → p.isDigit = false ∧ p ≠ .slot .number)
    (d : Draft) : (Pass.numerals.apply d).filter keep = d.filter keep := by
  refine Text.filter_replaceSpans fun span hspan => ?_
  obtain ⟨before, a, rest, k, hrule, rfl⟩ := Text.exists_rule_of_mem_segments hspan
  have hslot : [Piece.slot .number].filter keep = [] :=
    List.filter_eq_nil_iff.mpr fun p hp hkeep => (h p hkeep).2 (List.mem_singleton.mp hp)
  have hdigits : (a :: rest.take k).filter keep = [] :=
    List.filter_eq_nil_iff.mpr fun p hp hkeep =>
      Bool.false_ne_true ((h p hkeep).1.symm.trans (numeralSpan_eq hrule p hp))
  rw [hslot, hdigits]

theorem filter_slashes (h : ∀ c ∈ "/ or\\".toList, keep (.char c) = false) (d : Draft) :
    (Pass.slashes.apply d).filter keep = d.filter keep := by
  have hsub : "/ or".toList ⊆ "/ or\\".toList := by decide
  have hsweep : ∀ e : Draft, (sweepAlternatives e).filter keep = e.filter keep := fun e =>
    Text.filter_replaceSpans fun span _ => filter_readSlashes (fun c hc => h c (hsub hc)) span
  rw [Pass.apply, Text.filter_escape (h '\\' (by decide)), settleAlternatives]
  exact settle_of_step (P := fun e => e.filter keep = d.filter keep)
    (fun e he => (hsweep e).trans he) _ rfl

theorem filter_brackets (h : keep (.char '\\') = false) (d : Draft) :
    (Pass.brackets.apply d).filter keep = d.filter keep := Text.filter_escape h d

theorem filter_group (h : ∀ c ∈ "()".toList, keep (.char c) = false) (body : Draft) :
    (group body).filter keep = body.filter keep := by
  rw [group, List.cons_append, List.filter_cons_of_neg (by simp [h '(' (by decide)]),
    List.filter_append, List.filter_cons_of_neg (by simp [h ')' (by decide)]), List.filter_nil,
    List.append_nil]

theorem filter_slashGroups (h : ∀ c ∈ "()/ or".toList, keep (.char c) = false) (d : Draft) :
    (Pass.slashGroups.apply d).filter keep = d.filter keep := by
  have hread : "/ or".toList ⊆ "()/ or".toList := by decide
  have hbrackets : "()".toList ⊆ "()/ or".toList := by decide
  have hflatten : ∀ (ss : List (Segment Piece)) (seen : List Draft),
      (∀ span, .span span ∈ ss → ∃ body, span = group body) →
      (flattenGroups seen ss).filter keep = (ss.flatMap Segment.elements).filter keep := by
    intro ss
    induction ss with
    | nil => exact fun _ _ => rfl
    | cons s ss ih =>
      intro seen hgroups
      have hss := fun seen => ih seen fun span hspan =>
        hgroups span (List.mem_cons_of_mem s hspan)
      cases s with
      | kept p =>
        rw [flattenGroups, List.flatMap_cons, List.filter_append, ← hss seen, ← List.filter_append]
        rfl
      | span span =>
        obtain ⟨body, rfl⟩ := hgroups span List.mem_cons_self
        rw [flattenGroups, List.flatMap_cons, List.filter_append]
        split
        · rw [List.filter_append, hss seen]
          rfl
        · rw [List.filter_append, hss, filter_readSlashes (fun c hc => h c (hread hc)), inner_group,
            ← filter_group (fun c hc => h c (hbrackets hc))]
          rfl
  rw [Pass.apply, hflatten, Text.flatten_segments]
  intro span hspan
  obtain ⟨body, rfl, -⟩ := exists_group_of_mem_segments hspan
  exact ⟨body, rfl⟩

/-! ## Numeric groups -/

theorem isBlank_or_mem_trimDraft {p : Piece} {d : Draft} (h : p ∈ d) :
    p.isBlank = true ∨ p ∈ trimDraft d := by
  have hdrop : ∀ {e : Draft}, p ∈ e → p.isBlank = true ∨ p ∈ e.dropWhile Piece.isBlank := by
    intro e he
    rw [← List.takeWhile_append_dropWhile (p := Piece.isBlank) (l := e)] at he
    exact (List.mem_append.mp he).imp_left List.mem_takeWhile_imp
  rw [trimDraft, List.mem_reverse]
  rcases hdrop h with hblank | h
  · exact Or.inl hblank
  · exact hdrop (List.mem_reverse.mpr h)

theorem filter_slotLead (h : ∀ p, keep p = true → p = .char '"' ∨ ∃ q, p = .slot q)
    (lead tail : Draft) : (slotLead lead tail).filter keep = lead.filter keep := by
  have hblank : ∀ {p : Piece}, p.isBlank = true → ¬ keep p = true := by
    intro p hp hkeep
    rcases h p hkeep with rfl | ⟨q, rfl⟩
    · exact absurd hp (by decide)
    · exact Bool.false_ne_true hp
  have hchars : ∀ {t : Text}, '"' ∉ t → (Draft.ofChars t).filter keep = [] := by
    refine fun ht => List.filter_eq_nil_iff.mpr fun p hp hkeep => ?_
    obtain ⟨c, hc, rfl⟩ := List.mem_map.mp hp
    rcases h _ hkeep with heq | ⟨_, heq⟩
    · exact ht (Piece.char.inj heq ▸ hc)
    · exact nomatch heq
  rw [slotLead]
  split
  · next htrim =>
    have hlead : lead.filter keep = [] := by
      refine List.filter_eq_nil_iff.mpr fun p hp hkeep => ?_
      rcases isBlank_or_mem_trimDraft hp with hp | hp
      · exact hblank hp hkeep
      · rw [htrim] at hp
        exact List.filter_eq_nil_iff.mp (hchars (t := ['>']) (by decide)) p hp hkeep
    rw [hlead, hchars (by decide)]
  · split
    · next hall =>
      rw [Bool.and_eq_true] at hall
      refine (List.filter_eq_nil_iff.mpr fun p hp => hblank ?_).symm
      exact List.all_eq_true.mp hall.1 p hp
    · rfl

theorem filter_numericGroups (h : ∀ p, keep p = true → p = .char '"' ∨ p = .slot .string)
    (d : Draft) : (Pass.numericGroups.apply d).filter keep = d.filter keep := by
  have hnot : ∀ {p : Piece}, p ≠ .char '"' → p ≠ .slot .string → ¬ keep p = true :=
    fun hquote hslot hkeep => (h _ hkeep).elim hquote hslot
  refine Text.filter_replaceSpans fun span hspan => ?_
  obtain ⟨body, rfl, -, hbody⟩ := exists_group_of_mem_segments hspan
  obtain ⟨lead, run, tail, rfl, hlead, hne, hrun, htail⟩ := exists_numeric_body hbody
  have hrun' : run.filter keep = [] := by
    refine List.filter_eq_nil_iff.mpr fun p hp hkeep => ?_
    rcases h p hkeep with rfl | rfl <;> exact absurd (hrun _ hp) (by decide)
  have hslot : ¬ keep (.slot .number) = true := hnot nofun nofun
  rw [regroup_eq hlead hne hrun htail, List.filter_append,
    filter_slotLead fun p hp => (h p hp).imp_right fun heq => ⟨_, heq⟩,
    List.filter_cons_of_neg hslot, filter_group, List.filter_append, List.filter_append, hrun',
    List.nil_append]
  intro c hc
  have hquote : '"' ∉ "()".toList := by decide
  exact Bool.eq_false_iff.mpr (hnot (fun heq => hquote (Piece.char.inj heq ▸ hc)) nofun)

/-! ## Quotes and slots for texts -/

/-- The passes after the first keep each quote and each slot for a text, in order. -/
theorem filter_draft (h : ∀ p, keep p = true → p = .char '"' ∨ p = .slot .string) (t : Text) :
    (draft t).filter keep = (quoted t).filter keep := by
  have hchar : ∀ c, c ≠ '"' → keep (.char c) = false := fun c hc =>
    Bool.eq_false_iff.mpr fun hkeep => (h _ hkeep).elim (fun heq => hc (Piece.char.inj heq)) nofun
  have hchars : ∀ {u : Text}, '"' ∉ u → ∀ c ∈ u, keep (.char c) = false := fun hu c hc =>
    hchar c fun heq => hu (heq ▸ hc)
  have hnumeral : ∀ p, keep p = true → p.isDigit = false ∧ p ≠ .slot .number := by
    intro p hkeep
    rcases h p hkeep with rfl | rfl <;> exact ⟨by decide, nofun⟩
  rw [draft_eq_opened, filter_brackets (hchar '\\' (by decide)), filter_slashes (hchars (by decide)),
    filter_numerals hnumeral, opened, filter_slashGroups (hchars (by decide)),
    filter_numericGroups h]

theorem count_draft {p : Piece} (hp : p = .char '"' ∨ p = .slot .string) (t : Text) :
    (draft t).count p = (quoted t).count p := by
  have hkeep : ∀ q, (q == p) = true → q = .char '"' ∨ q = .slot .string := fun q hq =>
    eq_of_beq hq ▸ hp
  rw [List.count_eq_length_filter, filter_draft hkeep, List.count_eq_length_filter]

/-! ## The pattern of a draft -/

theorem patternFrom_slot (escaped : Bool) (q : Parameter) (d : Draft) :
    Draft.patternFrom escaped (.slot q :: d) = q.placeholder ++ Draft.patternFrom false d := by
  cases escaped <;> rfl

/-- A character that is neither a backslash nor in a placeholder is in the pattern as often as in the
draft. -/
theorem count_finish_text {c : Char} (hc : c ≠ '\\')
    (hplaceholder : ∀ q : Parameter, c ∉ q.placeholder) (d : Draft) :
    d.finish.text.count c = d.count (.char c) := by
  have hfrom : ∀ (escaped : Bool) (d : Draft),
      (Draft.patternFrom escaped d).count c = d.count (.char c) := by
    intro escaped d
    induction d generalizing escaped with
    | nil => cases escaped <;> rfl
    | cons p d ih =>
      cases p with
      | slot q =>
        have hne : Piece.slot q ≠ .char c := nofun
        rw [patternFrom_slot, List.count_append, ih,
          List.count_eq_zero_of_not_mem (hplaceholder q), Nat.zero_add, List.count_cons_of_ne hne]
      | char c' =>
        have hcons : ∀ e, (c' :: Draft.patternFrom e d).count c =
            (Piece.char c' :: d).count (.char c) := by
          intro e
          simp [List.count_cons, ih]
        cases escaped with
        | true => exact hcons false
        | false =>
          rw [Draft.patternFrom]
          split
          · split
            · exact hcons true
            · next heq _ =>
              rw [List.count_cons_of_ne (by rw [heq]; exact hc.symm)]
              exact hcons false
          · split
            · rw [List.count_cons_of_ne hc.symm]
              exact hcons false
            · exact hcons false
  exact hfrom false d

/-- A character of a pattern that no pass and no placeholder brings in is one of the text. -/
theorem mem_of_mem_compile {c : Char} (hc : c ∉ "greater than or\\".toList)
    (hplaceholder : ∀ q : Parameter, c ∉ q.placeholder) {t : Text} (h : c ∈ (compile t).text) :
    c ∈ t := by
  by_contra hnot
  have hnew : AdmitsNew fun p => p ≠ .char c :=
    ⟨fun _ => nofun, fun d hd heq => hc (Piece.char.inj heq ▸ hd)⟩
  have hstart : ∀ p ∈ Draft.ofText t, p ≠ .char c := by
    rintro p hp rfl
    obtain ⟨d, hd, heq⟩ := List.mem_map.mp hp
    rw [Piece.char.inj heq] at hd
    exact hnot ((Text.trim_infix t).subset (List.mem_filter.mp hd).1)
  have hdraft : (draft t).count (.char c) = 0 :=
    List.count_eq_zero.mpr fun hmem => hnew.forall_mem_draft hstart _ hmem rfl
  have hbackslash : c ≠ '\\' := fun heq => hc (heq ▸ by decide)
  have hcount := count_finish_text hbackslash hplaceholder (draft t)
  rw [hdraft, ← compile] at hcount
  exact List.count_eq_zero.mp hcount h

theorem parameters_char_cons (c : Char) (d : Draft) :
    Draft.parameters (.char c :: d) = Draft.parameters d := rfl

theorem parameters_slot_cons (q : Parameter) (d : Draft) :
    Draft.parameters (.slot q :: d) = q :: Draft.parameters d := rfl

def Piece.isSlot : Piece → Bool
  | .char _ => false
  | .slot _ => true

theorem parameters_filter (d : Draft) :
    Draft.parameters (d.filter Piece.isSlot) = Draft.parameters d := by
  induction d with
  | nil => rfl
  | cons p d ih =>
    cases p with
    | char c => exact ih
    | slot q => exact congrArg (q :: ·) ih

/-- Drafts with the same slots have the same parameters. -/
theorem parameters_eq_of_filter_eq {d e : Draft}
    (h : d.filter Piece.isSlot = e.filter Piece.isSlot) : d.parameters = e.parameters := by
  rw [← parameters_filter d, h, parameters_filter]

theorem count_parameters (q : Parameter) (d : Draft) : d.parameters.count q = d.count (.slot q) := by
  induction d with
  | nil => rfl
  | cons p d ih =>
    cases p with
    | char c =>
      have hne : Piece.char c ≠ .slot q := nofun
      rw [parameters_char_cons, ih, List.count_cons_of_ne hne]
    | slot q' =>
      rw [parameters_slot_cons]
      simp only [List.count_cons, ih, beq_iff_eq, Piece.slot.injEq]

end Expression
end StepStubs
