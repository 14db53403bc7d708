/-
Groups of a draft, and what takes their place.

A group goes from an opening bracket to the first closing one after it, and one rule with a
condition on the body finds the groups of both passes.  The rule does not look back, so the segments
of a draft are told by four equations: for a piece that is no opening bracket, for an opening
bracket that no closing one follows, and for a group whose body satisfies the condition or not.

The body of a numeric group is the text before its first run of digits, the run, and the text after
it; `regroup_eq` says what takes its place in these terms.
-/
import StepStubs.Expression.Pass
import StepStubs.Proofs.Text.Numeral
import StepStubs.Proofs.Text.Segments

namespace StepStubs
namespace Expression

open Text (Segment segments)

/-! ## Finding groups -/

/-- A draft in brackets. -/
def group (body : Draft) : Draft := .char '(' :: body ++ [.char ')']

section Segments

variable {condition : Draft → Bool} {body d : Draft} {p : Piece}

theorem group_append (body d : Draft) : group body ++ d = .char '(' :: (body ++ .char ')' :: d) := by
  rw [group, List.append_assoc, List.singleton_append, List.cons_append]

theorem inner_group (body : Draft) : inner (group body) = body := by
  rw [inner, group, List.cons_append, List.tail_cons, List.dropLast_concat]

theorem groupBody?_group (h : .char ')' ∉ body) (d : Draft) :
    groupBody? (.char '(' :: (body ++ .char ')' :: d)) = some body := by
  have hbody : ∀ p ∈ body, decide (p ≠ Piece.char ')') = true := fun p hp =>
    decide_eq_true fun heq => h (heq ▸ hp)
  rw [groupBody?, if_pos (by simp), List.takeWhile_append_of_pos hbody,
    List.takeWhile_cons_of_neg (by simp), List.append_nil]

theorem groupBody?_unclosed (h : .char ')' ∉ d) : groupBody? (.char '(' :: d) = none := by
  rw [groupBody?, if_neg fun hcontains => h (List.contains_iff_mem.mp hcontains)]

theorem eq_group_of_groupBody? (h : groupBody? d = some body) :
    .char ')' ∉ body ∧ ∃ rest, d = group body ++ rest := by
  have hopen : ∃ rest, d = .char '(' :: rest := by
    unfold groupBody? at h
    split at h
    · next rest => exact ⟨rest, rfl⟩
    · exact nomatch h
  obtain ⟨rest, rfl⟩ := hopen
  by_cases hclose : .char ')' ∈ rest
  · obtain ⟨body', after, rfl, hbody⟩ := List.eq_append_cons_of_mem hclose
    rw [groupBody?_group hbody] at h
    rw [← Option.some.inj h, ← group_append]
    exact ⟨hbody, after, rfl⟩
  · rw [groupBody?_unclosed hclose] at h
    exact nomatch h

theorem segmentsFrom_group (before : Option Piece) (d : Draft) :
    Text.segmentsFrom (groupSpan condition) before 0 d = segments (groupSpan condition) d :=
  Text.segmentsFrom_eq_segments (fun _ _ _ => rfl) before d

theorem segments_of_kept (h : groupSpan condition none (p :: d) = none) :
    segments (groupSpan condition) (p :: d) = .kept p :: segments (groupSpan condition) d := by
  rw [segments, Text.segmentsFrom_kept h, segmentsFrom_group]

/-- A group starts at an opening bracket. -/
theorem segments_cons_of_ne (hp : p ≠ .char '(') :
    segments (groupSpan condition) (p :: d) = .kept p :: segments (groupSpan condition) d := by
  refine segments_of_kept ?_
  have hnone : groupBody? (p :: d) = none := by
    rw [groupBody?]
    exact fun rest heq => hp (List.cons.inj heq).1
  rw [groupSpan, hnone]

theorem segments_of_not_mem (h : .char '(' ∉ d) :
    segments (groupSpan condition) d = d.map .kept := by
  induction d with
  | nil => rfl
  | cons p d ih =>
    rw [segments_cons_of_ne (List.ne_of_not_mem_cons h).symm, ih (List.not_mem_of_not_mem_cons h),
      List.map_cons]

/-- A bracket that is not closed starts no group. -/
theorem segments_unclosed (h : .char ')' ∉ d) :
    segments (groupSpan condition) (.char '(' :: d) =
      .kept (.char '(') :: segments (groupSpan condition) d := by
  refine segments_of_kept ?_
  rw [groupSpan, groupBody?_unclosed h]

/-- A group that does not satisfy the condition is passed over, but not what is in it. -/
theorem segments_group_of_not (h : .char ')' ∉ body) (hbody : condition body = false) :
    segments (groupSpan condition) (.char '(' :: (body ++ .char ')' :: d)) =
      .kept (.char '(') :: segments (groupSpan condition) (body ++ .char ')' :: d) := by
  refine segments_of_kept ?_
  rw [groupSpan, groupBody?_group h]
  exact if_neg (by rw [hbody]; exact Bool.false_ne_true)

/-- A group that satisfies the condition is a span. -/
theorem segments_group (h : .char ')' ∉ body) (hbody : condition body = true) :
    segments (groupSpan condition) (.char '(' :: (body ++ .char ')' :: d)) =
      .span (group body) :: segments (groupSpan condition) d := by
  have hspan : groupSpan condition none (.char '(' :: ((body ++ [.char ')']) ++ d)) =
      some (body ++ [Piece.char ')']).length := by
    rw [List.append_assoc, List.singleton_append, groupSpan, groupBody?_group h, List.length_append,
      List.length_singleton]
    exact if_pos hbody
  have hlist : .char '(' :: (body ++ .char ')' :: d) =
      Piece.char '(' :: ((body ++ [.char ')']) ++ d) := by
    rw [List.append_assoc, List.singleton_append]
  rw [hlist, segments, Text.segmentsFrom_span hspan, segmentsFrom_group]
  rfl

/-- Each span is a group whose body satisfies the condition. -/
theorem exists_group_of_mem_segments {span : Draft}
    (h : .span span ∈ segments (groupSpan condition) d) :
    ∃ body, span = group body ∧ .char ')' ∉ body ∧ condition body = true := by
  obtain ⟨before, a, rest, k, hrule, rfl⟩ := Text.exists_rule_of_mem_segments h
  unfold groupSpan at hrule
  split at hrule
  · next body hbody =>
    obtain ⟨hclose, after, heq⟩ := eq_group_of_groupBody? hbody
    split at hrule
    · next hcondition =>
      refine ⟨body, ?_, hclose, hcondition⟩
      rw [← Option.some.inj hrule, ← List.take_succ_cons, heq, List.take_left']
      rw [group, List.length_append, List.length_cons, List.length_singleton]
    · exact nomatch hrule
  · exact nomatch hrule

/-- Where there is a group whose body satisfies the condition, a span is found, though maybe another
one that begins before it. -/
theorem exists_span_of_group (hbody : .char ')' ∉ body) (h : condition body = true)
    (before after : Draft) :
    ∃ span, .span span ∈ segments (groupSpan condition) (before ++ (group body ++ after)) := by
  induction before with
  | nil =>
    rw [List.nil_append, group_append, segments_group hbody h]
    exact ⟨_, List.mem_cons_self⟩
  | cons p before ih =>
    obtain ⟨span, hspan⟩ := ih
    rw [List.cons_append]
    by_cases hp : p = .char '('
    · have hclose : .char ')' ∈ before ++ (group body ++ after) := by
        rw [group_append]
        simp
      obtain ⟨body', after', heq, hbody'⟩ := List.eq_append_cons_of_mem hclose
      rw [hp, heq]
      cases hcondition : condition body' with
      | true =>
        rw [segments_group hbody' hcondition]
        exact ⟨_, List.mem_cons_self⟩
      | false =>
        rw [segments_group_of_not hbody' hcondition, ← heq]
        exact ⟨span, List.mem_cons_of_mem _ hspan⟩
    · rw [segments_cons_of_ne hp]
      exact ⟨span, List.mem_cons_of_mem _ hspan⟩

end Segments

theorem flattenGroups_map_kept_append (seen : List Draft) (d : Draft) (ss : List (Segment Piece)) :
    flattenGroups seen (d.map .kept ++ ss) = d ++ flattenGroups seen ss := by
  induction d with
  | nil => rfl
  | cons p d ih => rw [List.map_cons, List.cons_append, flattenGroups, ih, List.cons_append]

theorem flattenGroups_map_kept (seen : List Draft) (d : Draft) :
    flattenGroups seen (d.map .kept) = d := by
  rw [← List.append_nil (d.map Segment.kept), flattenGroups_map_kept_append, flattenGroups,
    List.append_nil]

/-! ## What takes the place of a numeric group -/

/-- What stands before the slot of a numeric group, by what stands before and after its first run of
digits. -/
def slotLead (lead tail : Draft) : Draft :=
  if trimDraft lead = [.char '>'] then Draft.ofChars "greater than ".toList
  else if lead.all Piece.isBlank && !tail.all Piece.isBlank then [] else lead

theorem regroup_eq {lead run tail : Draft} (hlead : ∀ p ∈ lead, p.isDigit = false)
    (hne : run ≠ []) (hrun : ∀ p ∈ run, p.isDigit = true)
    (htail : tail.head?.any Piece.isDigit = false) :
    regroup (group (lead ++ (run ++ tail))) = slotLead lead tail ++ .slot .number :: tail := by
  have htake : (lead ++ (run ++ tail)).takeWhile (fun p => !p.isDigit) = lead := by
    obtain ⟨p, run, rfl⟩ := List.exists_cons_of_ne_nil hne
    rw [List.takeWhile_append_of_pos (by simpa using hlead), List.cons_append,
      List.takeWhile_cons_of_neg (by simp [hrun p List.mem_cons_self]), List.append_nil]
  have hdrop : (run ++ tail).dropWhile Piece.isDigit = tail := by
    rw [List.dropWhile_append_of_pos hrun]
    cases tail with
    | nil => rfl
    | cons p tail => exact List.dropWhile_cons_of_neg (by simpa using htail)
  rw [regroup, inner_group, htake, List.drop_left, hdrop, slotLead]
  split
  · rfl
  · split <;> rfl

/-- The body of a numeric group, cut at its first run of digits. -/
theorem exists_numeric_body {body : Draft} (h : body.any Piece.isDigit = true) :
    ∃ lead run tail, body = lead ++ (run ++ tail) ∧ (∀ p ∈ lead, p.isDigit = false) ∧ run ≠ [] ∧
      (∀ p ∈ run, p.isDigit = true) ∧ tail.head?.any Piece.isDigit = false := by
  obtain ⟨p, hp, hdigit⟩ := List.any_eq_true.mp h
  refine ⟨body.takeWhile fun p => !p.isDigit,
    (body.dropWhile fun p => !p.isDigit).takeWhile Piece.isDigit,
    (body.dropWhile fun p => !p.isDigit).dropWhile Piece.isDigit, ?_, ?_, ?_, ?_, ?_⟩
  · rw [List.takeWhile_append_dropWhile, List.takeWhile_append_dropWhile]
  · exact fun q hq => by simpa using List.mem_takeWhile_imp hq
  · intro hnil
    have hhead := List.head?_dropWhile_not (fun p => !Piece.isDigit p) body
    cases hd : body.dropWhile fun p => !p.isDigit with
    | nil =>
      have hall := List.dropWhile_eq_nil_iff.mp hd p hp
      rw [hdigit] at hall
      exact Bool.noConfusion hall
    | cons q d =>
      rw [hd] at hhead hnil
      have hq : q.isDigit = true := by simpa using hhead
      rw [List.takeWhile_cons_of_pos hq] at hnil
      exact List.cons_ne_nil _ _ hnil
  · exact fun q => List.mem_takeWhile_imp
  · exact Text.any_head?_dropWhile _ _

end Expression
end StepStubs
