/-
What a summary says about its reports.

A summary is kept up to date one report at a time, and two of its fields are there for counting
only: the keys and the outputs seen so far.  `Accounts` says of each field what it is in terms of
the reports that were recorded, `Accounts.record` that one more report keeps that so, and
`accounts_ofReports` that it holds of every summary of a row of reports.

The totals then follow from the reports as a collection.  Only the list of outputs that were
written again depends on the order of the reports, and it does so by its order alone: each output
is in it once less than it was written (`count_repeated`).
-/
import Mathlib
import StepStubs.Proofs.Run.Reported
import StepStubs.Proofs.Step.History

namespace StepStubs
namespace Run

/-! ## Elements that occurred before -/

section Repeated

variable {α : Type} [DecidableEq α]

/-- The elements of a list at the places where an equal element stands before them. -/
def repeated (as : List α) : List α :=
  (as.zipIdx.filter fun a => a.1 ∈ as.take a.2).map Prod.fst

theorem repeated_concat (as : List α) (a : α) :
    repeated (as ++ [a]) = repeated as ++ if a ∈ as then [a] else [] := by
  have hbefore : (as.zipIdx.filter fun b => b.1 ∈ (as ++ [a]).take b.2) =
      as.zipIdx.filter fun b => b.1 ∈ as.take b.2 := by
    refine List.filter_congr fun b hb => ?_
    have hlt := List.snd_lt_of_mem_zipIdx hb
    rw [List.take_append_of_le_length (by omega)]
  rw [repeated, List.zipIdx_append, List.filter_append, hbefore, List.map_append, repeated]
  congr 1
  by_cases ha : a ∈ as <;> simp [ha]

theorem count_repeated (a : α) (as : List α) : (repeated as).count a = as.count a - 1 := by
  induction as using List.reverseRecOn with
  | nil => rfl
  | append_singleton as b ih =>
    rw [repeated_concat, List.count_append, List.count_append, ih]
    by_cases hb : b ∈ as
    · by_cases hab : b = a
      · subst hab
        have hpos := List.count_pos_iff.mpr hb
        rw [if_pos hb, List.count_singleton_self]
        omega
      · simp [hb, hab]
    · by_cases hab : b = a
      · subst hab
        simp [hb, List.count_eq_zero_of_not_mem hb]
      · simp [hb, hab]

/-- In another order the same elements are repeated. -/
theorem repeated_perm {as bs : List α} (h : as.Perm bs) : (repeated as).Perm (repeated bs) := by
  rw [List.perm_iff_count]
  intro a
  rw [count_repeated, count_repeated, h.count_eq]

/-- Each element is the first of its kind or repeated. -/
theorem length_eq_card_add_length_repeated (as : List α) :
    as.length = as.toFinset.card + (repeated as).length := by
  induction as using List.reverseRecOn with
  | nil => rfl
  | append_singleton as a ih =>
    rw [repeated_concat, List.length_append, List.length_append, List.toFinset_append, ih]
    by_cases ha : a ∈ as
    · simp [ha]
      omega
    · simp [ha]
      omega

theorem repeated_eq_nil_iff {as : List α} : repeated as = [] ↔ as.Nodup := by
  rw [List.nodup_iff_count_le_one, List.eq_nil_iff_forall_not_mem]
  refine forall_congr' fun a => ?_
  rw [← List.count_eq_zero, count_repeated, Nat.sub_eq_zero_iff_le]

/-- Elements that are told apart by a function are repeated where their values are. -/
theorem repeated_map {β : Type} [DecidableEq β] {g : α → β} {as : List α}
    (hg : ∀ a ∈ as, ∀ b ∈ as, g a = g b → a = b) : repeated (as.map g) = (repeated as).map g := by
  induction as using List.reverseRecOn with
  | nil => rfl
  | append_singleton as a ih =>
    have hrest := ih fun b hb c hc =>
      hg b (List.mem_append_left _ hb) c (List.mem_append_left _ hc)
    have hmem : g a ∈ as.map g ↔ a ∈ as := by
      refine ⟨fun h => ?_, List.mem_map_of_mem⟩
      obtain ⟨b, hb, hab⟩ := List.mem_map.mp h
      rwa [← hg b (List.mem_append_left _ hb) a (List.mem_append_right _ List.mem_cons_self) hab]
    rw [List.map_append, List.map_singleton, repeated_concat, repeated_concat, List.map_append,
      hrest]
    by_cases ha : a ∈ as
    · rw [if_pos ha, if_pos (hmem.mpr ha), List.map_singleton]
    · rw [if_neg ha, if_neg fun h => ha (hmem.mp h), List.map_nil]

end Repeated

/-! ## Recording reports -/

namespace Summary

/-- Is the summary that of the reports? -/
structure Accounts (s : Summary) (rs : List Report) : Prop where
  files : s.files = rs
  filesProcessed : s.filesProcessed = rs.length
  filesGenerated : s.filesGenerated = rs.length
  totalSteps : s.totalSteps = (rs.map Report.totalSteps).sum
  skippedLines : s.skippedLines = (rs.map Report.skippedLines).sum
  distinctPatterns : s.distinctPatterns = (rs.flatMap Report.keys).toFinset.card
  overwritten : s.overwritten = repeated (rs.map Report.output)
  seen : s.seen.Nodup ∧ s.seen.toFinset = (rs.flatMap Report.keys).toFinset
  outputs : s.outputs.toFinset = (rs.map Report.output).toFinset

variable {s : Summary} {rs rs' : List Report} {r : Report}

theorem accounts_empty : empty.Accounts [] where
  files := rfl
  filesProcessed := rfl
  filesGenerated := rfl
  totalSteps := rfl
  skippedLines := rfl
  distinctPatterns := rfl
  overwritten := rfl
  seen := ⟨List.nodup_nil, rfl⟩
  outputs := rfl

theorem nodup_foldl_insert {seen : List StepKey} (h : seen.Nodup) (ks : List StepKey) :
    (ks.foldl (fun seen k => seen.insert k) seen).Nodup := by
  induction ks generalizing seen with
  | nil => exact h
  | cons k ks ih => exact ih h.insert

theorem toFinset_foldl_insert (seen ks : List StepKey) :
    (ks.foldl (fun seen k => seen.insert k) seen).toFinset = seen.toFinset ∪ ks.toFinset := by
  induction ks generalizing seen with
  | nil => simp
  | cons k ks ih =>
    rw [List.foldl_cons, ih]
    ext a
    simp [or_assoc]

theorem Accounts.hasOutput_iff (h : s.Accounts rs) (output : Text) :
    s.hasOutput output = true ↔ output ∈ rs.map Report.output := by
  rw [hasOutput, List.contains_iff_mem, ← List.mem_toFinset, h.outputs, List.mem_toFinset]

theorem Accounts.record (h : s.Accounts rs) (r : Report) : (s.record r).Accounts (rs ++ [r]) := by
  have hseen : (r.keys.foldl (fun ks k => ks.insert k) s.seen).toFinset =
      ((rs ++ [r]).flatMap Report.keys).toFinset := by
    rw [toFinset_foldl_insert, h.seen.2]
    simp
  have hnodup := nodup_foldl_insert h.seen.1 r.keys
  refine ⟨?_, ?_, ?_, ?_, ?_, ?_, ?_, ⟨hnodup, hseen⟩, ?_⟩
  · simp [Summary.record, h.files]
  · simp [Summary.record, h.filesProcessed]
  · simp [Summary.record, h.filesGenerated]
  · simp [Summary.record, h.totalSteps]
  · simp [Summary.record, h.skippedLines]
  · show (r.keys.foldl (fun ks k => ks.insert k) s.seen).length = _
    rw [← hseen, List.toFinset_card_of_nodup hnodup]
  · have hagain := h.hasOutput_iff r.output
    rw [List.map_append, List.map_singleton, repeated_concat, ← h.overwritten]
    by_cases houtput : r.output ∈ rs.map Report.output
    · rw [if_pos houtput]
      exact if_pos (hagain.mpr houtput)
    · rw [if_neg houtput, List.append_nil]
      exact if_neg fun ho => houtput (hagain.mp ho)
  · show (s.outputs.insert r.output).toFinset = _
    ext o
    have ho := Finset.ext_iff.mp h.outputs o
    simp only [List.mem_toFinset] at ho
    simp [ho]

theorem accounts_ofReports (rs : List Report) : (ofReports rs).Accounts rs := by
  induction rs using List.reverseRecOn with
  | nil => exact accounts_empty
  | append_singleton rs r ih =>
    rw [ofReports, List.foldl_append]
    exact ih.record r

/-- Do the summaries agree but for the order of what they list? -/
structure SameTotals (s s' : Summary) : Prop where
  filesProcessed : s.filesProcessed = s'.filesProcessed
  filesGenerated : s.filesGenerated = s'.filesGenerated
  totalSteps : s.totalSteps = s'.totalSteps
  skippedLines : s.skippedLines = s'.skippedLines
  distinctPatterns : s.distinctPatterns = s'.distinctPatterns
  overwritten : s.overwritten.Perm s'.overwritten
  files : s.files.Perm s'.files

theorem Accounts.sameTotals {s' : Summary} (h : s.Accounts rs) (h' : s'.Accounts rs')
    (hperm : rs.Perm rs') : s.SameTotals s' where
  filesProcessed := by rw [h.filesProcessed, h'.filesProcessed, hperm.length_eq]
  filesGenerated := by rw [h.filesGenerated, h'.filesGenerated, hperm.length_eq]
  totalSteps := by rw [h.totalSteps, h'.totalSteps, (hperm.map _).sum_nat]
  skippedLines := by rw [h.skippedLines, h'.skippedLines, (hperm.map _).sum_nat]
  distinctPatterns := by
    rw [h.distinctPatterns, h'.distinctPatterns,
      List.toFinset_eq_of_perm _ _ (hperm.flatMap_right _)]
  overwritten := by
    rw [h.overwritten, h'.overwritten]
    exact repeated_perm (hperm.map _)
  files := by rwa [h.files, h'.files]

end Summary

/-! ## Reports about feature files -/

/-- Is it what processing some feature file of some project reports? -/
def Report.IsProcessed (r : Report) : Prop :=
  ∃ (p : Project) (f : Path) (w w' : World), p.process f w = (.ok r, w')

/-- Do the counts of the report fit together? -/
structure Report.Fits (r : Report) : Prop where
  phases : r.context + r.action + r.outcome = r.uniqueSteps
  uniqueSteps : r.uniqueSteps = r.keys.length
  totalSteps : r.uniqueSteps ≤ r.totalSteps
  keys : r.keys.Nodup

theorem fits_ofSteps (source output : Text) (skipped : Nat) (ts : List CompiledStep) :
    (Report.ofSteps source output ts.length skipped (StepSet.ofList ts)).Fits where
  phases := StepSet.count_add_count_add_count _
  uniqueSteps := by
    show (StepSet.ofList ts).size = (StepSet.ofList ts).keys.length
    rw [StepSet.keys, List.length_map, StepSet.toList, List.length_reverse, StepSet.size]
  totalSteps := by
    show (StepSet.ofList ts).size ≤ ts.length
    have hsub : distinctKeys ts ⊆ ts.map CompiledStep.key := fun k hk =>
      List.mem_map.mpr (mem_distinctKeys.mp hk)
    have hle := ((nodup_distinctKeys ts).subperm hsub).length_le
    rwa [List.length_map, ← StepSet.size_ofList] at hle
  keys := (StepSet.agrees_ofList ts).keys_nodup

theorem Report.IsProcessed.fits {r : Report} (h : r.IsProcessed) : r.Fits := by
  obtain ⟨p, f, w, w', hprocess⟩ := h
  obtain ⟨content, output, -, rfl⟩ := Project.exists_reportOf_of_process_ok hprocess
  exact fits_ofSteps _ _ _ _

namespace Summary

variable {s : Summary} {rs : List Report} {r : Report}

theorem Accounts.uniqueSteps_le (h : s.Accounts rs) (hr : r ∈ rs) (hfits : r.Fits) :
    r.uniqueSteps ≤ s.distinctPatterns := by
  rw [h.distinctPatterns, hfits.uniqueSteps, ← List.toFinset_card_of_nodup hfits.keys]
  refine Finset.card_le_card fun k hk => ?_
  rw [List.mem_toFinset] at hk ⊢
  exact List.mem_flatMap.mpr ⟨r, hr, hk⟩

theorem Accounts.distinctPatterns_le (h : s.Accounts rs) (hfits : ∀ r ∈ rs, r.Fits) :
    s.distinctPatterns ≤ (rs.map Report.uniqueSteps).sum := by
  have hlengths : rs.map Report.uniqueSteps = rs.map fun r => r.keys.length :=
    List.map_congr_left fun r hr => (hfits r hr).uniqueSteps
  rw [h.distinctPatterns, hlengths, ← List.length_flatMap]
  exact List.toFinset_card_le _

/-- The summary of reports that were recorded in a row: what it says of them, that it says the
same of them in any order, and how the counts fit together when the reports are about feature
files. -/
theorem summary_accounts_for_reports (rs : List Report) :
    (ofReports rs).Accounts rs ∧
      (ofReports rs).files.length =
        (rs.map Report.output).toFinset.card + (ofReports rs).overwritten.length ∧
      (∀ rs', rs.Perm rs' → (ofReports rs).SameTotals (ofReports rs')) ∧
      ((∀ r ∈ rs, r.IsProcessed) →
        (∀ r ∈ rs, r.Fits ∧ r.uniqueSteps ≤ (ofReports rs).distinctPatterns) ∧
          (ofReports rs).distinctPatterns ≤ (rs.map Report.uniqueSteps).sum) := by
  have h := accounts_ofReports rs
  refine ⟨h, ?_, fun rs' hperm => h.sameTotals (accounts_ofReports rs') hperm, fun hrs => ?_⟩
  · rw [h.files, h.overwritten, ← length_eq_card_add_length_repeated, List.length_map]
  · have hfits : ∀ r ∈ rs, r.Fits := fun r hr => (hrs r hr).fits
    exact ⟨fun r hr => ⟨hfits r hr, h.uniqueSteps_le hr (hfits r hr)⟩,
      h.distinctPatterns_le hfits⟩

/-- Two projects report on one feature file, and their reports are recorded in both orders. -/
theorem summary_accounts_for_login :
    ∃ r r' : Report, (∀ t ∈ [r, r'], t.IsProcessed) ∧ [r, r'].Perm [r', r] ∧
      r.output ≠ r'.output ∧ (ofReports [r, r']).SameTotals (ofReports [r', r]) ∧ r.Fits ∧ r'.Fits ∧
      r.uniqueSteps ≤ (ofReports [r, r']).distinctPatterns ∧
      (ofReports [r, r']).distinctPatterns ≤ r.uniqueSteps + r'.uniqueSteps := by
  have hprocessed : ∀ suffix ∈ [".steps.ts".toList, ".stubs.ts".toList],
      ∃ r : Report, r.IsProcessed ∧ r.output = "tests/steps/login".toList ++ suffix := by
    intro suffix hsuffix
    have hshown : ((Project.mk ⟨['/']⟩ { Config.default with outputSuffix := suffix }).process
        (.ofString "/tests/features/login.feature")
        (.start Project.loginTree)).1.toOption.map Report.output =
          some ("tests/steps/login".toList ++ suffix) := by
      revert suffix
      decide +kernel
    obtain ⟨r, hr, houtput⟩ := exists_of_map_toOption hshown
    exact ⟨r, ⟨_, _, _, _, Prod.ext hr rfl⟩, houtput⟩
  obtain ⟨r, hr, houtput⟩ := hprocessed ".steps.ts".toList (by decide)
  obtain ⟨r', hr', houtput'⟩ := hprocessed ".stubs.ts".toList (by decide)
  have hboth : ∀ t ∈ [r, r'], t.IsProcessed := by
    simp [hr, hr']
  have hne : r.output ≠ r'.output := by
    rw [houtput, houtput']
    decide
  have hswap : [r, r'].Perm [r', r] := .swap r' r []
  obtain ⟨-, -, horder, hfits⟩ := summary_accounts_for_reports [r, r']
  obtain ⟨heach, hsum⟩ := hfits hboth
  refine ⟨r, r', hboth, hswap, hne, horder _ hswap, (heach r (by simp)).1,
    (heach r' (by simp)).1, (heach r (by simp)).2, ?_⟩
  simpa using hsum

end Summary
end Run
end StepStubs
