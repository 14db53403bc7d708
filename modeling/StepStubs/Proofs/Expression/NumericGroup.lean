/-
How numeric groups read.

A numeric group goes from an opening bracket to the first closing one after it and has a digit
between them, and it reads by what stands before its first run of digits, its lead, and what stands
behind the run, its tail.  `Regroups` is the sweep over a draft that rewrites each of these groups
from left to right and goes on behind it: which draft comes out is told without the rule that finds
the groups, the takings and droppings that cut them, or the trimming of their leads.

`apply_numericGroups_eq_iff` says that the pass is this sweep.  Three shapes are told apart: a lead
that is `>` reads as words, a lead that is dropped, and a lead that stays.  A lead is dropped if it is
blank and the tail is not.  So blanks before digits that nothing follows stay in the draft
(`not_regroups_blank`), where dropping every blank lead would take them out.
-/
import StepStubs.Proofs.Expression.Group

namespace StepStubs
namespace Expression

open Text (segments joinSegments replaceSpans)

/-! ## Leads -/

/-- Are all pieces blank? -/
def AllBlank (d : Draft) : Prop := ∀ p ∈ d, p.isBlank = true

instance (d : Draft) : Decidable (AllBlank d) :=
  inferInstanceAs (Decidable (∀ p ∈ d, p.isBlank = true))

/-- Is the draft a `>` with nothing but blanks around it? -/
def IsGreater (d : Draft) : Prop :=
  ∃ gap gap', d = gap ++ .char '>' :: gap' ∧ AllBlank gap ∧ AllBlank gap'

theorem trimDraft_eq_greater_iff {d : Draft} : trimDraft d = [.char '>'] ↔ IsGreater d := by
  have hnot : Piece.isBlank (.char '>') = false := by decide
  constructor
  · intro h
    rw [trimDraft, List.reverse_eq_iff] at h
    -- What was trimmed off is put back, first at the end and then at the front.
    have hback := List.takeWhile_append_dropWhile (p := Piece.isBlank)
      (l := (d.dropWhile Piece.isBlank).reverse)
    rw [h] at hback
    have hrest : d.dropWhile Piece.isBlank =
        .char '>' :: ((d.dropWhile Piece.isBlank).reverse.takeWhile Piece.isBlank).reverse := by
      have hreverse := congrArg List.reverse hback
      rw [List.reverse_reverse, List.reverse_append] at hreverse
      exact hreverse.symm
    have hfront := List.takeWhile_append_dropWhile (p := Piece.isBlank) (l := d)
    rw [hrest] at hfront
    exact ⟨_, _, hfront.symm, fun p => List.mem_takeWhile_imp,
      fun p hp => List.mem_takeWhile_imp (List.mem_reverse.mp hp)⟩
  · rintro ⟨gap, gap', rfl, hgap, hgap'⟩
    have hgap'' : ∀ p ∈ gap'.reverse, p.isBlank = true := fun p hp =>
      hgap' p (List.mem_reverse.mp hp)
    rw [trimDraft, List.dropWhile_append_of_pos hgap,
      List.dropWhile_cons_of_neg (by rw [hnot]; exact Bool.false_ne_true), List.reverse_cons,
      List.dropWhile_append_of_pos hgap'',
      List.dropWhile_cons_of_neg (by rw [hnot]; exact Bool.false_ne_true)]
    rfl

/-- Is a lead with this tail dropped?  Blanks are, if something follows the digits. -/
def DropsLead (lead tail : Draft) : Prop := AllBlank lead ∧ ¬ AllBlank tail

/-! ## The sweep -/

/-- What a numeric group reads as, by its lead and its tail.  Which leads are dropped is left open. -/
inductive Reading (drops : Draft → Draft → Prop) (lead tail : Draft) : Draft → Prop where
  | comparison (h : IsGreater lead) :
    Reading drops lead tail (Draft.ofChars "greater than ".toList ++ .slot .number :: tail)
  | dropped (h : ¬ IsGreater lead) (hdrops : drops lead tail) :
    Reading drops lead tail (.slot .number :: tail)
  | kept (h : ¬ IsGreater lead) (hdrops : ¬ drops lead tail) :
    Reading drops lead tail (lead ++ .slot .number :: tail)

/-- Is this the body of a numeric group, cut around its first run of digits? -/
structure IsNumericBody (lead run tail : Draft) : Prop where
  closed : .char ')' ∉ lead ++ (run ++ tail)
  lead : ∀ p ∈ lead, p.isDigit = false
  nonempty : run ≠ []
  digits : ∀ p ∈ run, p.isDigit = true
  tail : tail.head?.any Piece.isDigit = false

/-- Does the draft begin with a numeric group? -/
def StartsNumericGroup (d : Draft) : Prop :=
  ∃ body rest, d = group body ++ rest ∧ .char ')' ∉ body ∧ ∃ p ∈ body, p.isDigit = true

/-- Is the second draft the first one with each numeric group rewritten, from left to right? -/
inductive Regroups (drops : Draft → Draft → Prop) : Draft → Draft → Prop where
  | nil : Regroups drops [] []
  | keep {p : Piece} {d e : Draft} (h : ¬ StartsNumericGroup (p :: d)) (rest : Regroups drops d e) :
    Regroups drops (p :: d) (p :: e)
  | group {lead run tail r d e : Draft} (h : IsNumericBody lead run tail)
    (hread : Reading drops lead tail r) (rest : Regroups drops d e) :
    Regroups drops (group (lead ++ (run ++ tail)) ++ d) (r ++ e)

/-! ## The pass is the sweep -/

section Pass

variable {lead run tail : Draft}

theorem slotLead_reading (lead tail : Draft) :
    Reading DropsLead lead tail (slotLead lead tail ++ .slot .number :: tail) := by
  rw [slotLead]
  split
  · next h => exact .comparison (trimDraft_eq_greater_iff.mp h)
  · next h =>
    have hlead : ¬ IsGreater lead := fun hg => h (trimDraft_eq_greater_iff.mpr hg)
    split
    · next hdrops =>
      rw [Bool.and_eq_true, Bool.not_eq_true', List.all_eq_true] at hdrops
      refine .dropped hlead ⟨hdrops.1, fun htail => ?_⟩
      rw [List.all_eq_true.mpr htail] at hdrops
      exact Bool.noConfusion hdrops.2
    · next hdrops =>
      refine .kept hlead fun hd => hdrops ?_
      rw [Bool.and_eq_true, Bool.not_eq_true']
      exact ⟨List.all_eq_true.mpr hd.1, Bool.eq_false_iff.mpr fun h => hd.2 (List.all_eq_true.mp h)⟩

/-- A group reads in one way only. -/
theorem Reading.unique {drops : Draft → Draft → Prop} {r r' : Draft} (h : Reading drops lead tail r)
    (h' : Reading drops lead tail r') : r = r' := by
  cases h <;> cases h' <;> first | rfl | contradiction

theorem apply_numericGroups_group (h : IsNumericBody lead run tail) (d : Draft) :
    Pass.numericGroups.apply (group (lead ++ (run ++ tail)) ++ d) =
      slotLead lead tail ++ .slot .number :: tail ++ Pass.numericGroups.apply d := by
  have hdigit : (lead ++ (run ++ tail)).any Piece.isDigit = true := by
    obtain ⟨p, hp⟩ := List.exists_mem_of_ne_nil run h.nonempty
    exact List.any_eq_true.mpr ⟨p, by simp [hp], h.digits p hp⟩
  rw [Pass.apply, replaceSpans, numericGroupSpan, group_append, segments_group h.closed hdigit,
    joinSegments, regroup_eq h.lead h.nonempty h.digits h.tail]
  rfl

theorem apply_numericGroups_keep {p : Piece} {d : Draft} (h : ¬ StartsNumericGroup (p :: d)) :
    Pass.numericGroups.apply (p :: d) = p :: Pass.numericGroups.apply d := by
  have hnone : groupSpan (fun body => body.any Piece.isDigit) none (p :: d) = none := by
    unfold groupSpan
    split
    · next body hbody =>
      obtain ⟨hclose, rest, heq⟩ := eq_group_of_groupBody? hbody
      exact if_neg fun hdigit => h ⟨body, rest, heq, hclose, List.any_eq_true.mp hdigit⟩
    · rfl
  rw [Pass.apply, replaceSpans, numericGroupSpan, segments_of_kept hnone]
  rfl

theorem StartsNumericGroup.exists_body {d : Draft} (h : StartsNumericGroup d) :
    ∃ lead run tail rest, IsNumericBody lead run tail ∧
      d = group (lead ++ (run ++ tail)) ++ rest := by
  obtain ⟨body, rest, rfl, hclose, hdigit⟩ := h
  obtain ⟨lead, run, tail, rfl, hlead, hne, hrun, htail⟩ :=
    exists_numeric_body (List.any_eq_true.mpr hdigit)
  exact ⟨lead, run, tail, rest, ⟨hclose, hlead, hne, hrun, htail⟩, rfl⟩

theorem regroups_apply_numericGroups (d : Draft) :
    Regroups DropsLead d (Pass.numericGroups.apply d) := by
  -- The sweep goes on behind a group, so the induction is on the length.
  generalize hn : d.length = n
  induction n using Nat.strongRecOn generalizing d with
  | _ n ih =>
    by_cases hstart : StartsNumericGroup d
    · obtain ⟨lead, run, tail, rest, hbody, rfl⟩ := hstart.exists_body
      have hlength : rest.length < n := by
        rw [← hn, group_append, List.length_cons, List.length_append, List.length_cons]
        omega
      rw [apply_numericGroups_group hbody]
      exact .group hbody (slotLead_reading lead tail) (ih _ hlength rest rfl)
    · cases d with
      | nil => exact .nil
      | cons p d =>
        rw [List.length_cons] at hn
        rw [apply_numericGroups_keep hstart]
        exact .keep hstart (ih d.length (by omega) d rfl)

theorem Regroups.apply_eq {d e : Draft} (h : Regroups DropsLead d e) :
    Pass.numericGroups.apply d = e := by
  induction h with
  | nil => rfl
  | keep h _ ih => rw [apply_numericGroups_keep h, ih]
  | group h hread _ ih =>
    rw [apply_numericGroups_group h, ih, (slotLead_reading _ _).unique hread]

end Pass

/-- The pass is one sweep that rewrites each numeric group by its lead and its tail, and keeps every
other piece. -/
theorem apply_numericGroups_eq_iff (d e : Draft) :
    Pass.numericGroups.apply d = e ↔ Regroups DropsLead d e :=
  ⟨fun h => h ▸ regroups_apply_numericGroups d, Regroups.apply_eq⟩

/-- A blank before digits that nothing follows is not dropped. -/
theorem not_regroups_blank :
    ¬ Regroups (fun lead _ => AllBlank lead) (Draft.ofChars "( 5)".toList)
      (Pass.numericGroups.apply (Draft.ofChars "( 5)".toList)) := by
  have happly : Pass.numericGroups.apply (Draft.ofChars "( 5)".toList) =
      [.char ' ', .slot .number] := by decide +kernel
  rw [happly]
  generalize hd : Draft.ofChars "( 5)".toList = d
  generalize he : [Piece.char ' ', .slot .number] = e
  intro h
  -- What comes out begins with the blank, so the group was read with its lead.
  cases h with
  | nil => exact nomatch he
  | keep _ _ =>
    rw [← (List.cons.inj he).1] at hd
    exact absurd (List.cons.inj hd).1 (by decide)
  | @group lead run tail r d e hbody hread _ =>
    cases hread with
    | comparison _ => exact absurd (List.cons.inj he).1 (by decide)
    | dropped _ _ => exact absurd (List.cons.inj he).1 (by decide)
    | kept _ hdrops =>
      refine hdrops fun p hp => ?_
      rw [group_append] at hd
      have hmem : p ∈ Draft.ofChars " 5)".toList := by
        have htail : Draft.ofChars " 5)".toList = lead ++ (run ++ tail) ++ .char ')' :: d :=
          (List.cons.inj hd).2
        rw [htail]
        simp [hp]
      have hcases : p = .char ' ' ∨ p = .char '5' ∨ p = .char ')' := by
        simpa [Draft.ofChars] using hmem
      rcases hcases with rfl | rfl | rfl
      · rfl
      · exact absurd (hbody.lead _ hp) (by decide)
      · exact absurd (List.mem_append_left _ hp) hbody.closed

end Expression
end StepStubs
