/-
What a set of steps holds after any history.

A set is collected from a list of steps, the empty one from no steps, and then changed by inserting
steps one at a time or in a row.  Whatever the history, the set is the one that would be collected
from all steps that were offered to it, one after the other: this is `History.set_eq_ofList`.  So
what a set of a list holds (`StepSet.toList_ofList`) says what any set holds.

A set keeps its keys apart from its steps and looks at the keys only when it is asked or is offered
a step.  That the two agree (`Agrees`) is what each insertion keeps.  It makes the answers true of
the steps, and it makes what a set does from then on depend on its steps alone, which is what the
laws of `dedup` rest on.
-/
import StepStubs.Proofs.Step.Set
import Mathlib.Data.List.Nodup
import Mathlib.Data.List.Perm.Basic

namespace StepStubs

/-! ## The first step with each key -/

theorem firstOfEachKey_sublist (ts : List CompiledStep) : (firstOfEachKey ts).Sublist ts := by
  generalize hn : ts.length = n
  induction n using Nat.strongRecOn generalizing ts with
  | _ n ih =>
    cases ts with
    | nil => exact List.Sublist.slnil
    | cons t ts =>
      have hle : (withoutKey t.key ts).length ≤ ts.length := List.length_filter_le _ _
      rw [List.length_cons] at hn
      have hrest := ih (withoutKey t.key ts).length (by omega) (withoutKey t.key ts) rfl
      rw [firstOfEachKey_cons]
      exact (hrest.trans List.filter_sublist).cons_cons t

/-- A step that no step with its key comes before is the first with its key. -/
theorem mem_firstOfEachKey_of_first {before after : List CompiledStep} {t : CompiledStep}
    (h : ∀ u ∈ before, u.key ≠ t.key) : t ∈ firstOfEachKey (before ++ t :: after) := by
  have hfind : firstWithKey? (before ++ t :: after) t.key = some t := by
    rw [firstWithKey?, List.find?_append, List.find?_eq_none.mpr (by simpa using h), Option.none_or]
    exact List.find?_cons_of_pos (decide_eq_true rfl)
  refine List.mem_filterMap.mpr ⟨t.key, mem_distinctKeys.mpr ⟨t, ?_, rfl⟩, hfind⟩
  exact List.mem_append_right _ List.mem_cons_self

/-- Steps with distinct keys are all first. -/
theorem firstOfEachKey_of_nodup {ts : List CompiledStep} (h : (ts.map CompiledStep.key).Nodup) :
    firstOfEachKey ts = ts := by
  induction ts with
  | nil => rfl
  | cons t ts ih =>
    rw [List.map_cons, List.nodup_cons] at h
    have hall : withoutKey t.key ts = ts := List.filter_eq_self.mpr fun u hu =>
      decide_eq_true fun hkey => h.1 (hkey ▸ List.mem_map_of_mem hu)
    rw [firstOfEachKey_cons, hall, ih h.2]

namespace StepSet

variable {s s' : StepSet}

/-! ## The keys and the steps -/

/-- Are the keys that the set has seen those of its steps, and is none of them there twice? -/
structure Agrees (s : StepSet) : Prop where
  seen_nodup : s.seen.Nodup
  keys_nodup : s.keys.Nodup
  mem_seen_iff : ∀ k, k ∈ s.seen ↔ k ∈ s.keys

theorem agrees_empty : empty.Agrees := ⟨List.nodup_nil, List.nodup_nil, fun _ => Iff.rfl⟩

theorem toList_insert (s : StepSet) (t : CompiledStep) :
    (s.insert t).toList = if s.contains t.key then s.toList else s.toList ++ [t] := by
  by_cases h : s.contains t.key = true
  · rw [insert_of_contains h, if_pos h]
  · rw [insert_of_not_contains h, if_neg h, toList, List.reverse_cons, toList]

/-- A new step puts its key on both sides, and another one on neither. -/
theorem Agrees.insert (h : s.Agrees) (t : CompiledStep) : (s.insert t).Agrees := by
  by_cases hseen : s.contains t.key = true
  · rw [insert_of_contains hseen]
    exact h
  · have hnew : t.key ∉ s.seen := fun hmem => hseen (List.contains_iff_mem.mpr hmem)
    have hkeys : (s.insert t).keys = s.keys ++ [t.key] := by
      rw [keys, toList_insert, if_neg hseen, List.map_append, keys]
      rfl
    have hkey : t.key ∉ s.keys := fun hmem => hnew ((h.mem_seen_iff _).mpr hmem)
    refine ⟨?_, ?_, fun k => ?_⟩
    · rw [insert_of_not_contains hseen]
      exact h.seen_nodup.insert
    · rw [hkeys]
      exact List.nodup_append.mpr ⟨h.keys_nodup, List.nodup_singleton _, fun k hk k' hk' heq =>
        hkey (List.mem_singleton.mp hk' ▸ heq ▸ hk)⟩
    · rw [hkeys, insert_of_not_contains hseen, List.mem_insert_iff, List.mem_append,
        List.mem_singleton, h.mem_seen_iff, or_comm]

theorem Agrees.insertAll (h : s.Agrees) (ts : List CompiledStep) : (s.insertAll ts).Agrees := by
  induction ts generalizing s with
  | nil => exact h
  | cons t ts ih => exact ih (h.insert t)

theorem agrees_ofList (ts : List CompiledStep) : (ofList ts).Agrees := agrees_empty.insertAll ts

theorem Agrees.contains_iff (h : s.Agrees) {k : StepKey} :
    s.contains k = true ↔ ∃ t ∈ s.toList, t.key = k := by
  rw [contains, List.contains_iff_mem, h.mem_seen_iff, keys, List.mem_map]

/-- What sets with the same steps become is the same. -/
theorem Agrees.toList_insertAll_eq (h : s.Agrees) (h' : s'.Agrees) (heq : s.toList = s'.toList)
    (ts : List CompiledStep) : (s.insertAll ts).toList = (s'.insertAll ts).toList := by
  have hcontains : ∀ k, s.contains k = s'.contains k := by
    intro k
    rw [Bool.eq_iff_iff, h.contains_iff, h'.contains_iff, heq]
  have hoffered : s.offered ts = s'.offered ts :=
    List.filter_congr fun t _ => by rw [hcontains]
  rw [toList_insertAll, toList_insertAll, hoffered, heq]

theorem insertAll_append (s : StepSet) (ts us : List CompiledStep) :
    s.insertAll (ts ++ us) = (s.insertAll ts).insertAll us := by
  rw [insertAll, List.foldl_append]
  rfl

theorem ofList_append (ts us : List CompiledStep) :
    ofList (ts ++ us) = (ofList ts).insertAll us := insertAll_append empty ts us

/-! ## The steps of the phases -/

/-- Each step of the set belongs to one phase. -/
theorem perm_ofPhase (s : StepSet) : (Phase.all.flatMap s.ofPhase).Perm s.toList := by
  have hcount : ∀ (p : Phase) (t : CompiledStep),
      (s.ofPhase p).count t = if t.phase = p then s.toList.count t else 0 := by
    intro p t
    by_cases hp : t.phase = p
    · rw [if_pos hp, ofPhase]
      exact List.count_filter (decide_eq_true hp)
    · rw [if_neg hp, ofPhase]
      exact List.count_eq_zero_of_not_mem fun hmem =>
        hp (of_decide_eq_true (List.mem_filter.mp hmem).2)
  rw [List.perm_iff_count]
  intro t
  rw [Phase.all]
  simp only [List.flatMap_cons, List.flatMap_nil, List.count_append, List.count_nil, hcount]
  cases t.phase <;> simp

theorem count_add_count_add_count (s : StepSet) :
    s.count .context + s.count .action + s.count .outcome = s.size := by
  have hlength := s.perm_ofPhase.length_eq
  rw [toList, List.length_reverse, Phase.all] at hlength
  simp only [List.flatMap_cons, List.flatMap_nil, List.length_append, List.length_nil] at hlength
  rw [count, count, count, size]
  omega

/-! ## Histories -/

/-- A change of a set. -/
inductive Operation where
  | insert (t : CompiledStep)
  | extend (ts : List CompiledStep)
  deriving Repr, DecidableEq

/-- The steps that an operation offers to the set. -/
def Operation.steps : Operation → List CompiledStep
  | .insert t => [t]
  | .extend ts => ts

def perform (s : StepSet) : Operation → StepSet
  | .insert t => (s.offer t).2
  | .extend ts => s.insertAll ts

/-- How a set came about. -/
structure History where
  /-- The steps that it was collected from.  A new set is collected from none. -/
  start : List CompiledStep
  operations : List Operation

namespace History

def set (h : History) : StepSet := h.operations.foldl perform (ofList h.start)

/-- All steps that were offered to the set, in order. -/
def offered (h : History) : List CompiledStep := h.start ++ h.operations.flatMap Operation.steps

end History

theorem perform_eq_insertAll (s : StepSet) (o : Operation) :
    s.perform o = s.insertAll o.steps := by
  cases o with
  | insert t => rfl
  | extend ts => rfl

/-- A set is the one that is collected from all steps offered to it. -/
theorem History.set_eq_ofList (h : History) : h.set = ofList h.offered := by
  obtain ⟨start, operations⟩ := h
  rw [History.set, History.offered]
  induction operations generalizing start with
  | nil => rw [List.flatMap_nil, List.append_nil, List.foldl_nil]
  | cons o os ih =>
    rw [List.foldl_cons, perform_eq_insertAll, ← ofList_append, ih, List.flatMap_cons,
      List.append_assoc]

/-! ## What a set remembers -/

/-- Does the set hold of the steps in the list the first with each key, and answer for them?  Its
keys agree with its steps. -/
structure Remembers (s : StepSet) (offered : List CompiledStep) : Prop extends Agrees s where
  /-- The keys are those that were offered. -/
  mem_keys : ∀ k, k ∈ s.keys ↔ ∃ t ∈ offered, t.key = k
  /-- The set answers for a key exactly if it has a step with the key. -/
  contains : ∀ k, s.contains k = true ↔ ∃ t ∈ s.toList, t.key = k
  /-- Nothing is reordered or made up. -/
  sublist : s.toList.Sublist offered
  /-- The first step with each key is there as it was offered. -/
  first : ∀ before t after, offered = before ++ t :: after → (∀ u ∈ before, u.key ≠ t.key) →
    t ∈ s.toList
  /-- A step is taken in exactly if no step with its key was offered. -/
  offer_iff : ∀ t, (s.offer t).1 = true ↔ ∀ u ∈ offered, u.key ≠ t.key
  /-- A step that is taken in comes last. -/
  offer_new : ∀ t, (s.offer t).1 = true → (s.offer t).2.toList = s.toList ++ [t]
  /-- Another step changes nothing. -/
  offer_taken : ∀ t, (s.offer t).1 = false → (s.offer t).2 = s
  /-- The steps of a phase keep their order. -/
  phase_sublist : ∀ p, (s.ofPhase p).Sublist s.toList
  /-- Each step is among those of its own phase only. -/
  mem_phase : ∀ p t, t ∈ s.ofPhase p ↔ t ∈ s.toList ∧ t.phase = p
  /-- Together the steps of the phases are the steps of the set. -/
  phases : (s.ofPhase .context ++ s.ofPhase .action ++ s.ofPhase .outcome).Perm s.toList
  counts : s.count .context + s.count .action + s.count .outcome = s.size

theorem mem_keys_ofList {ts : List CompiledStep} {k : StepKey} :
    k ∈ (ofList ts).keys ↔ ∃ t ∈ ts, t.key = k := by
  rw [keys, toList_ofList, map_key_firstOfEachKey, mem_distinctKeys]

/-- A step is taken in if its key was not seen. -/
theorem fst_offer (s : StepSet) (t : CompiledStep) : (s.offer t).1 = !s.contains t.key := by
  by_cases h : s.contains t.key = true
  · rw [offer_of_contains h, h]
    rfl
  · rw [offer_of_not_contains h, Bool.not_eq_true _ |>.mp h]
    rfl

theorem remembers_ofList (ts : List CompiledStep) : (ofList ts).Remembers ts where
  toAgrees := agrees_ofList ts
  mem_keys _ := mem_keys_ofList
  contains _ := (agrees_ofList ts).contains_iff
  sublist := by
    rw [toList_ofList]
    exact firstOfEachKey_sublist ts
  first before t after heq hfirst := by
    rw [toList_ofList, heq]
    exact mem_firstOfEachKey_of_first hfirst
  offer_iff t := by
    have hcontains : (ofList ts).contains t.key = true ↔ ∃ u ∈ ts, u.key = t.key := by
      rw [contains, List.contains_iff_mem, (agrees_ofList ts).mem_seen_iff, mem_keys_ofList]
    rw [fst_offer, Bool.not_eq_true', ← Bool.not_eq_true, hcontains]
    simp only [not_exists, not_and, ne_eq]
  offer_new t hnew := by
    rw [fst_offer, Bool.not_eq_true', ← Bool.not_eq_true] at hnew
    rw [← insert, toList_insert, if_neg hnew]
  offer_taken t htaken := by
    rw [fst_offer, Bool.not_eq_false'] at htaken
    rw [← insert, insert_of_contains htaken]
  phase_sublist _ := List.filter_sublist
  mem_phase p t := by
    rw [ofPhase, List.mem_filter, decide_eq_true_eq]
  phases := by
    have hperm := (ofList ts).perm_ofPhase
    rwa [Phase.all, List.flatMap_cons, List.flatMap_cons, List.flatMap_cons, List.flatMap_nil,
      List.append_nil, ← List.append_assoc] at hperm
  counts := (ofList ts).count_add_count_add_count

/-- The steps that are left when repeats are dropped have distinct keys, so none of them is dropped
again. -/
theorem toList_ofList_dedup (ts : List CompiledStep) :
    (ofList (dedup ts)).toList = (ofList ts).toList := by
  rw [toList_ofList, dedup, firstOfEachKey_of_nodup (agrees_ofList ts).keys_nodup]

theorem dedup_dedup_append (ts us : List CompiledStep) :
    dedup (dedup ts ++ us) = dedup (ts ++ us) := by
  rw [dedup, ofList_append, dedup.eq_def (ts ++ us), ofList_append]
  exact (agrees_ofList _).toList_insertAll_eq (agrees_ofList ts) (toList_ofList_dedup ts) us

/-- After any history a set remembers all steps that were offered to it.  So extending it by two
lists one after the other is extending it by both at once, and repeats can be dropped early. -/
theorem remembers_history :
    (∀ h : History, h.set.Remembers h.offered) ∧
      (∀ (h : History) (ts us : List CompiledStep),
        (h.set.perform (.extend ts)).perform (.extend us) = h.set.perform (.extend (ts ++ us))) ∧
      (∀ ts, dedup (dedup ts) = dedup ts) ∧
      ∀ ts us, dedup (ts ++ us) = dedup (dedup ts ++ us) := by
  refine ⟨fun h => ?_, fun h ts us => ?_, fun ts => ?_, fun ts us => ?_⟩
  · rw [h.set_eq_ofList]
    exact remembers_ofList h.offered
  · exact (insertAll_append h.set ts us).symm
  · have hnil := dedup_dedup_append ts []
    rwa [List.append_nil, List.append_nil] at hnil
  · exact (dedup_dedup_append ts us).symm

end StepSet
end StepStubs
