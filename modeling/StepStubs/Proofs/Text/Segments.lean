/-
What holds of a list after its spans were replaced.

A replacement sees nothing but elements of the list, so a property that the list has, and
that every replacement keeps, is a property of the result.

The cutting goes on after a span as if the list began there, but for the element before it.  So
the segments of a list are told by an equation for an element that no span starts at
(`segmentsFrom_kept`) and one for a span (`segmentsFrom_span`), and proofs about a rule go from
span to span and never see how many elements a span still covers.
-/
import StepStubs.Text.Segments

namespace StepStubs
namespace Text

variable {α : Type}

/-! ## From span to span -/

section Steps

variable {rule : Rule α} {before : Option α} {a : α} {as bs : List α}

/-- The last element, or one before the list if it is empty. -/
theorem getLast?_cons_or (a : α) (as : List α) (before : Option α) :
    (a :: as).getLast?.or before = as.getLast?.or (some a) := by
  rw [List.getLast?_cons]
  cases as.getLast? <;> rfl

theorem segmentsFrom_covered (rule : Rule α) (before : Option α) (as bs : List α) :
    segmentsFrom rule before as.length (as ++ bs) =
      segmentsFrom rule (as.getLast?.or before) 0 bs := by
  induction as generalizing before with
  | nil => rfl
  | cons a as ih =>
    rw [List.cons_append, List.length_cons, segmentsFrom, ih, getLast?_cons_or]

/-- A span is one segment, and the next one is looked for behind it. -/
theorem segmentsFrom_span (h : rule before (a :: (as ++ bs)) = some as.length) :
    segmentsFrom rule before 0 (a :: (as ++ bs)) =
      .span (a :: as) :: segmentsFrom rule (a :: as).getLast? 0 bs := by
  have hlast := getLast?_cons_or a as none
  rw [Option.or_none] at hlast
  rw [segmentsFrom, h, hlast, ← segmentsFrom_covered]
  dsimp only
  rw [List.take_left]

/-- An element that no span starts at is kept. -/
theorem segmentsFrom_kept (h : rule before (a :: as) = none) :
    segmentsFrom rule before 0 (a :: as) = .kept a :: segmentsFrom rule (some a) 0 as := by
  rw [segmentsFrom, h]

/-- A rule that does not look back finds the same spans behind any element. -/
theorem segmentsFrom_eq_segments (hrule : ∀ b b' cs, rule b cs = rule b' cs)
    (before : Option α) (as : List α) : segmentsFrom rule before 0 as = segments rule as := by
  cases as with
  | nil => rfl
  | cons a as => rw [segments, segmentsFrom, segmentsFrom, hrule before none]

end Steps

/-! ## What is kept -/

theorem forall_mem_segments {P : α → Prop} {as : List α} (h : ∀ a ∈ as, P a) (rule : Rule α) :
    ∀ s ∈ segments rule as, ∀ a ∈ s.elements, P a := by
  intro s hs a ha
  refine h a ?_
  rw [← flatten_segments rule as]
  exact List.mem_flatMap.mpr ⟨s, hs, ha⟩

theorem joinSegments_map_kept (replacement : List α → List α) (as : List α) :
    joinSegments replacement (as.map .kept) = as := by
  induction as with
  | nil => rfl
  | cons a as ih => rw [List.map_cons, joinSegments, ih]

/-- Where no span is found, all elements are kept. -/
theorem segments_eq_map_kept {rule : Rule α} {as : List α}
    (h : ∀ span, .span span ∉ segments rule as) : segments rule as = as.map .kept := by
  have hkept : ∀ {ss : List (Segment α)}, (∀ span, .span span ∉ ss) →
      ss = (ss.flatMap Segment.elements).map .kept := by
    intro ss
    induction ss with
    | nil => exact fun _ => rfl
    | cons s ss ih =>
      intro hss
      have hrest := ih fun span hspan => hss span (List.mem_cons_of_mem s hspan)
      cases s with
      | kept a => exact congrArg (.kept a :: ·) hrest
      | span span => exact absurd List.mem_cons_self (hss span)
  have hsegments := hkept h
  rwa [flatten_segments] at hsegments

/-- A span is a part of the list. -/
theorem exists_append_of_mem_segments {rule : Rule α} {as span : List α}
    (h : .span span ∈ segments rule as) : ∃ before after, as = before ++ (span ++ after) := by
  obtain ⟨ss, ss', heq⟩ := List.append_of_mem h
  refine ⟨ss.flatMap Segment.elements, ss'.flatMap Segment.elements, ?_⟩
  rw [← flatten_segments rule as, heq, List.flatMap_append, List.flatMap_cons]
  rfl

theorem joinSegments_append (replacement : List α → List α) (ss ss' : List (Segment α)) :
    joinSegments replacement (ss ++ ss') =
      joinSegments replacement ss ++ joinSegments replacement ss' := by
  induction ss with
  | nil => rfl
  | cons s ss ih =>
    cases s with
    | kept a => rw [List.cons_append, joinSegments, ih, joinSegments, List.cons_append]
    | span span => rw [List.cons_append, joinSegments, ih, joinSegments, List.append_assoc]

theorem exists_rule_of_mem_segmentsFrom {rule : Rule α} {span : List α} :
    ∀ {as : List α} {before : Option α} {covered : Nat},
      .span span ∈ segmentsFrom rule before covered as →
        ∃ before' a rest k, rule before' (a :: rest) = some k ∧ span = a :: rest.take k := by
  intro as
  induction as with
  | nil =>
    intro before covered h
    cases covered <;> exact absurd h List.not_mem_nil
  | cons a as ih =>
    intro before covered h
    cases covered with
    | succ covered =>
      rw [segmentsFrom] at h
      exact ih h
    | zero =>
      rw [segmentsFrom] at h
      cases hrule : rule before (a :: as) with
      | none =>
        rw [hrule] at h
        rcases List.mem_cons.mp h with hspan | h
        · contradiction
        · exact ih h
      | some k =>
        rw [hrule] at h
        rcases List.mem_cons.mp h with hspan | h
        · exact ⟨before, a, as, k, hrule, Segment.span.inj hspan⟩
        · exact ih h

/-- Each span was found by the rule. -/
theorem exists_rule_of_mem_segments {rule : Rule α} {as span : List α}
    (h : .span span ∈ segments rule as) :
    ∃ before a rest k, rule before (a :: rest) = some k ∧ span = a :: rest.take k :=
  exists_rule_of_mem_segmentsFrom h

theorem forall_mem_joinSegments {P : α → Prop} {replacement : List α → List α}
    (hr : ∀ span, (∀ a ∈ span, P a) → ∀ a ∈ replacement span, P a) :
    ∀ {ss : List (Segment α)}, (∀ s ∈ ss, ∀ a ∈ s.elements, P a) →
      ∀ a ∈ joinSegments replacement ss, P a := by
  intro ss
  induction ss with
  | nil => intro _ a ha; exact absurd ha List.not_mem_nil
  | cons s ss ih =>
    intro h a ha
    have hs := h s List.mem_cons_self
    have hss := ih fun s' hs' => h s' (List.mem_cons_of_mem s hs')
    cases s with
    | kept b =>
      rw [joinSegments] at ha
      rcases List.mem_cons.mp ha with rfl | ha
      · exact hs a (List.mem_singleton.mpr rfl)
      · exact hss a ha
    | span span =>
      rw [joinSegments] at ha
      rcases List.mem_append.mp ha with ha | ha
      · exact hr span hs a ha
      · exact hss a ha

/-- A property of every element that each replacement keeps is kept by replacing spans. -/
theorem forall_mem_replaceSpans {P : α → Prop} {replacement : List α → List α}
    (hr : ∀ span, (∀ a ∈ span, P a) → ∀ a ∈ replacement span, P a) {as : List α}
    (h : ∀ a ∈ as, P a) (rule : Rule α) :
    ∀ a ∈ replaceSpans rule replacement as, P a :=
  forall_mem_joinSegments hr (forall_mem_segments h rule)

/-- What a filter keeps is kept, if each replacement has of it what the span had. -/
theorem filter_joinSegments {keep : α → Bool} {replacement : List α → List α}
    {ss : List (Segment α)}
    (h : ∀ span, .span span ∈ ss → (replacement span).filter keep = span.filter keep) :
    (joinSegments replacement ss).filter keep = (ss.flatMap Segment.elements).filter keep := by
  induction ss with
  | nil => rfl
  | cons s ss ih =>
    have hss := ih fun span hspan => h span (List.mem_cons_of_mem s hspan)
    rw [List.flatMap_cons, List.filter_append, ← hss]
    cases s with
    | kept a => rw [joinSegments, ← List.filter_append]; rfl
    | span span =>
      rw [joinSegments, List.filter_append, h span List.mem_cons_self]
      rfl

theorem filter_replaceSpans {keep : α → Bool} {replacement : List α → List α} {rule : Rule α}
    {as : List α}
    (h : ∀ span, .span span ∈ segments rule as → (replacement span).filter keep = span.filter keep) :
    (replaceSpans rule replacement as).filter keep = as.filter keep := by
  rw [replaceSpans, filter_joinSegments h, flatten_segments]

end Text
end StepStubs
