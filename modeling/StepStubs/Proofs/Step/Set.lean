/-
What a set of steps holds, said without the set.

The steps of the set of a list are, for each key of the list in the order of first
appearance, the first step with that key.  `eraseDups` keeps of equal elements the first, so
it lists the keys in that order.
-/
import StepStubs.Step.Set

namespace StepStubs

theorem filterMap_congr {α β : Type} {f g : α → Option β} {as : List α}
    (h : ∀ a ∈ as, f a = g a) : as.filterMap f = as.filterMap g := by
  induction as with
  | nil => rfl
  | cons a as ih =>
    rw [List.filterMap_cons, List.filterMap_cons, h a List.mem_cons_self,
      ih fun b hb => h b (List.mem_cons_of_mem a hb)]

/-- The keys of the steps, each once, in the order of first appearance. -/
def distinctKeys (ts : List CompiledStep) : List StepKey := (ts.map CompiledStep.key).eraseDups

/-- The first of the steps with a key. -/
def firstWithKey? (ts : List CompiledStep) (k : StepKey) : Option CompiledStep :=
  ts.find? fun t => t.key = k

/-- The first step with each key, in the order of first appearance. -/
def firstOfEachKey (ts : List CompiledStep) : List CompiledStep :=
  (distinctKeys ts).filterMap (firstWithKey? ts)

def withoutKey (k : StepKey) (ts : List CompiledStep) : List CompiledStep :=
  ts.filter fun t => t.key ≠ k

theorem distinctKeys_cons (t : CompiledStep) (ts : List CompiledStep) :
    distinctKeys (t :: ts) = t.key :: distinctKeys (withoutKey t.key ts) := by
  have hfilter : (ts.map CompiledStep.key).filter (fun k => !k == t.key) =
      (withoutKey t.key ts).map CompiledStep.key := by
    rw [List.filter_map, withoutKey]
    exact congrArg _ (List.filter_congr fun s _ => (decide_not).symm)
  rw [distinctKeys, List.map_cons, List.eraseDups_cons, hfilter, distinctKeys]

theorem firstWithKey?_withoutKey {k k' : StepKey} (h : k' ≠ k) (ts : List CompiledStep) :
    firstWithKey? (withoutKey k ts) k' = firstWithKey? ts k' := by
  rw [firstWithKey?, withoutKey, List.find?_filter, firstWithKey?]
  refine congrArg (List.find? · ts) (funext fun t => ?_)
  by_cases ht : t.key = k'
  · simp [ht, h]
  · simp [ht]

theorem firstWithKey?_cons_of_ne {t : CompiledStep} {k : StepKey} (h : k ≠ t.key)
    (ts : List CompiledStep) : firstWithKey? (t :: ts) k = firstWithKey? ts k := by
  rw [firstWithKey?, List.find?_cons_of_neg (by simpa using h.symm), firstWithKey?]

theorem mem_distinctKeys {k : StepKey} {ts : List CompiledStep} :
    k ∈ distinctKeys ts ↔ ∃ t ∈ ts, t.key = k := by
  rw [distinctKeys, List.mem_eraseDups, List.mem_map]

theorem firstOfEachKey_cons (t : CompiledStep) (ts : List CompiledStep) :
    firstOfEachKey (t :: ts) = t :: firstOfEachKey (withoutKey t.key ts) := by
  rw [firstOfEachKey, distinctKeys_cons,
    List.filterMap_cons_some (b := t) (by simp [firstWithKey?]),
    firstOfEachKey]
  have hsame : ∀ k ∈ distinctKeys (withoutKey t.key ts),
      firstWithKey? (t :: ts) k = firstWithKey? (withoutKey t.key ts) k := by
    intro k hk
    obtain ⟨s, hs, rfl⟩ := mem_distinctKeys.mp hk
    have hne : s.key ≠ t.key := by simpa using (List.mem_filter.mp hs).2
    rw [firstWithKey?_withoutKey hne, firstWithKey?_cons_of_ne hne]
  rw [filterMap_congr hsame]

theorem nodup_distinctKeys (ts : List CompiledStep) : (distinctKeys ts).Nodup := by
  generalize hn : ts.length = n
  induction n using Nat.strongRecOn generalizing ts with
  | _ n ih =>
    cases ts with
    | nil => exact List.nodup_nil
    | cons t ts =>
      have hlt : (withoutKey t.key ts).length < n := by
        have hle : (withoutKey t.key ts).length ≤ ts.length := List.length_filter_le _ _
        rw [List.length_cons] at hn
        omega
      rw [distinctKeys_cons, List.nodup_cons]
      refine ⟨fun h => ?_, ih _ hlt _ rfl⟩
      obtain ⟨s, hs, hkey⟩ := mem_distinctKeys.mp h
      exact of_decide_eq_true (List.mem_filter.mp hs).2 hkey

theorem key_of_firstWithKey? {t : CompiledStep} {k : StepKey} {ts : List CompiledStep}
    (h : firstWithKey? ts k = some t) : t.key = k := by
  rw [firstWithKey?] at h
  simpa using List.find?_some h

theorem mem_of_firstWithKey? {t : CompiledStep} {k : StepKey} {ts : List CompiledStep}
    (h : firstWithKey? ts k = some t) : t ∈ ts := by
  rw [firstWithKey?] at h
  exact List.mem_of_find?_eq_some h

theorem firstWithKey?_eq_some {ts : List CompiledStep} {k : StepKey} (h : k ∈ distinctKeys ts) :
    ∃ t, firstWithKey? ts k = some t ∧ t.key = k := by
  obtain ⟨s, hs, hk⟩ := mem_distinctKeys.mp h
  have hfound : (firstWithKey? ts k).isSome = true :=
    List.find?_isSome.mpr ⟨s, hs, decide_eq_true hk⟩
  obtain ⟨t, ht⟩ := Option.isSome_iff_exists.mp hfound
  exact ⟨t, ht, key_of_firstWithKey? ht⟩

theorem firstWithKey?_of_mem_firstOfEachKey {t : CompiledStep} {ts : List CompiledStep}
    (h : t ∈ firstOfEachKey ts) : firstWithKey? ts t.key = some t := by
  obtain ⟨k, -, hk⟩ := List.mem_filterMap.mp h
  rw [key_of_firstWithKey? hk, hk]

theorem map_key_firstOfEachKey (ts : List CompiledStep) :
    (firstOfEachKey ts).map CompiledStep.key = distinctKeys ts := by
  have hkey : ∀ k ∈ distinctKeys ts, (firstWithKey? ts k).map CompiledStep.key = some k := by
    intro k hk
    obtain ⟨t, ht, rfl⟩ := firstWithKey?_eq_some hk
    rw [ht, Option.map_some]
  rw [firstOfEachKey, List.map_filterMap, filterMap_congr hkey, List.filterMap_some]

namespace StepSet

/-! ## Collecting steps -/

theorem offer_of_contains {s : StepSet} {t : CompiledStep} (h : s.contains t.key = true) :
    s.offer t = (false, s) := if_pos h

theorem offer_of_not_contains {s : StepSet} {t : CompiledStep} (h : ¬ s.contains t.key = true) :
    s.offer t = (true, ⟨s.seen.insert t.key, t :: s.latestFirst⟩) := if_neg h

theorem insert_of_contains {s : StepSet} {t : CompiledStep} (h : s.contains t.key = true) :
    s.insert t = s := by
  rw [insert, offer_of_contains h]

theorem insert_of_not_contains {s : StepSet} {t : CompiledStep} (h : ¬ s.contains t.key = true) :
    s.insert t = ⟨s.seen.insert t.key, t :: s.latestFirst⟩ := by
  rw [insert, offer_of_not_contains h]

theorem contains_insert (s : StepSet) (t : CompiledStep) (k : StepKey) :
    (s.insert t).contains k = (decide (k = t.key) || s.contains k) := by
  by_cases h : s.contains t.key = true
  · rw [insert_of_contains h]
    by_cases hk : k = t.key
    · rw [hk, h, Bool.or_true]
    · rw [decide_eq_false hk, Bool.false_or]
  · rw [insert_of_not_contains h, contains, contains, Bool.eq_iff_iff, Bool.or_eq_true,
      decide_eq_true_eq, List.contains_iff_mem, List.contains_iff_mem, List.mem_insert_iff]

/-- The steps of a list whose keys a set has not seen. -/
def offered (s : StepSet) (ts : List CompiledStep) : List CompiledStep :=
  ts.filter fun t => !s.contains t.key

theorem offered_insert (s : StepSet) (t : CompiledStep) (ts : List CompiledStep) :
    (s.insert t).offered ts = withoutKey t.key (s.offered ts) := by
  rw [offered, withoutKey, offered, List.filter_filter]
  refine List.filter_congr fun u _ => ?_
  rw [contains_insert, Bool.not_or, ← decide_not]

theorem toList_insertAll (s : StepSet) (ts : List CompiledStep) :
    (s.insertAll ts).toList = s.toList ++ firstOfEachKey (s.offered ts) := by
  induction ts generalizing s with
  | nil => exact (List.append_nil _).symm
  | cons t ts ih =>
    rw [insertAll, List.foldl_cons, ← insertAll, ih]
    by_cases h : s.contains t.key = true
    · rw [insert_of_contains h, offered, offered, List.filter_cons_of_neg (by simp [h])]
    · have hnew : s.offered (t :: ts) = t :: s.offered ts := List.filter_cons_of_pos (by simp [h])
      rw [offered_insert, insert_of_not_contains h, hnew, firstOfEachKey_cons, toList,
        List.reverse_cons, List.append_assoc]
      rfl

/-- The steps of the set of a list are the first steps with each key. -/
theorem toList_ofList (ts : List CompiledStep) : (ofList ts).toList = firstOfEachKey ts := by
  rw [ofList, toList_insertAll, offered]
  have hall : (ts.filter fun t => !empty.contains t.key) = ts :=
    List.filter_eq_self.mpr fun _ _ => rfl
  rw [hall]
  rfl

theorem size_ofList (ts : List CompiledStep) : (ofList ts).size = (distinctKeys ts).length := by
  rw [← map_key_firstOfEachKey, List.length_map, ← toList_ofList, toList, List.length_reverse,
    size]

end StepSet
end StepStubs
