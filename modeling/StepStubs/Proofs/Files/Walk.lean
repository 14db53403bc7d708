/-
Walking a tree.

A walk finds the locations of all files, each once.  They come in the order of their names,
compared name by name, so the order follows from the locations alone: two trees with the same
files give the same walk, however their directories list their entries.
-/
import StepStubs.Proofs.Files.Tree

namespace StepStubs
namespace Files

namespace Node

/-! ## The order of names -/

theorem nameLe_trans {a b c : Name} (hab : nameLe a b = true) (hbc : nameLe b c = true) :
    nameLe a c = true := by
  induction a generalizing b c with
  | nil => rfl
  | cons x a ih =>
    cases b with
    | nil => exact nomatch hab
    | cons y b =>
      cases c with
      | nil => exact nomatch hbc
      | cons z c =>
        rw [nameLe] at hab hbc ⊢
        by_cases hxy : x = y
        · by_cases hyz : y = z
          · rw [if_pos hxy] at hab
            rw [if_pos hyz] at hbc
            rw [if_pos (hxy.trans hyz)]
            exact ih hab hbc
          · rw [if_neg hyz] at hbc
            rw [hxy, if_neg hyz]
            exact hbc
        · rw [if_neg hxy] at hab
          have hlt : x.toNat < y.toNat := of_decide_eq_true hab
          by_cases hyz : y = z
          · rw [← hyz, if_neg hxy]
            exact hab
          · rw [if_neg hyz] at hbc
            have hlt' : y.toNat < z.toNat := of_decide_eq_true hbc
            have hxz : x ≠ z := by
              rintro rfl
              omega
            rw [if_neg hxz]
            exact decide_eq_true (by omega)

theorem nameLe_total (a b : Name) : (nameLe a b || nameLe b a) = true := by
  induction a generalizing b with
  | nil => rfl
  | cons x a ih =>
    cases b with
    | nil => rfl
    | cons y b =>
      rw [nameLe, nameLe]
      by_cases hxy : x = y
      · rw [if_pos hxy, if_pos hxy.symm]
        exact ih b
      · rw [if_neg hxy, if_neg (Ne.symm hxy)]
        have hne : x.toNat ≠ y.toNat := fun h => hxy (Char.toNat_inj.mp h)
        simp only [Bool.or_eq_true, decide_eq_true_eq]
        omega

theorem nameLe_antisymm {a b : Name} (hab : nameLe a b = true) (hba : nameLe b a = true) :
    a = b := by
  induction a generalizing b with
  | nil =>
    cases b with
    | nil => rfl
    | cons y b => exact nomatch hba
  | cons x a ih =>
    cases b with
    | nil => exact nomatch hab
    | cons y b =>
      rw [nameLe] at hab hba
      by_cases hxy : x = y
      · rw [if_pos hxy] at hab
        rw [if_pos hxy.symm] at hba
        rw [hxy, ih hab hba]
      · rw [if_neg hxy] at hab
        rw [if_neg (Ne.symm hxy)] at hba
        have h₁ : x.toNat < y.toNat := of_decide_eq_true hab
        have h₂ : y.toNat < x.toNat := of_decide_eq_true hba
        omega

end Node

/-- Does the first location come before the second?  Locations are compared name by name. -/
def Location.Before : Location → Location → Prop
  | _, [] => False
  | [], _ :: _ => True
  | a :: as, b :: bs => if a = b then Location.Before as bs else Node.nameLe a b = true

theorem Location.not_before_self (l : Location) : ¬ l.Before l := by
  induction l with
  | nil => exact id
  | cons a l ih =>
    rw [Before, if_pos rfl]
    exact ih

theorem Location.not_before_of_before {l l' : Location} (h : l.Before l') : ¬ l'.Before l := by
  induction l generalizing l' with
  | nil => cases l' <;> exact id
  | cons a l ih =>
    cases l' with
    | nil => exact fun _ => h
    | cons b l' =>
      rw [Before] at h ⊢
      by_cases hab : a = b
      · rw [if_pos hab] at h
        rw [if_pos hab.symm]
        exact ih h
      · rw [if_neg hab] at h
        rw [if_neg (Ne.symm hab)]
        exact fun h' => hab (Node.nameLe_antisymm h h')

namespace Node

/-! ## What a walk finds -/

theorem entryFileLocations_eq (es : List (Name × Node)) :
    entryFileLocations es = es.map fun e => (e.1, e.2.fileLocations) := by
  induction es with
  | nil => rfl
  | cons e es ih => rw [entryFileLocations, ih, List.map_cons]

theorem mem_inNameOrder {found : List (Name × List Location)} {l : Location} :
    l ∈ inNameOrder found ↔ ∃ e ∈ found, ∃ t ∈ e.2, e.1 :: t = l := by
  rw [inNameOrder, List.mem_flatMap]
  simp only [List.mem_mergeSort, List.mem_map]

/-- A statement about trees follows for a directory from the statement for its entries. -/
theorem induction {P : Node → Prop} (file : ∀ b, P (file b))
    (directory : ∀ es, (∀ e ∈ es, P e.2) → P (directory es)) (n : Node) : P n := by
  refine @Node.rec P (fun es => ∀ e ∈ es, P e.2) (fun e => P e.2) file directory ?_ ?_ ?_ n
  · exact fun e he => absurd he List.not_mem_nil
  · intro e es he hes d hd
    rcases List.mem_cons.mp hd with rfl | hd
    · exact he
    · exact hes d hd
  · exact fun _ _ h => h

theorem at?_cons_eq_file_iff {es : List (Name × Node)} (hes : (es.map Prod.fst).Nodup)
    {name : Name} {t : Location} {b : ByteArray} :
    (directory es).at? (name :: t) = some (file b) ↔
      ∃ n, (name, n) ∈ es ∧ n.at? t = some (file b) := by
  show ((directory es).child? name).bind (at? t) = _ ↔ _
  rw [Option.bind_eq_some_iff]
  exact exists_congr fun n => and_congr_left' (entry?_eq_some_iff hes)

theorem mem_fileLocations {n : Node} (hn : n.WellFormed) {l : Location} :
    l ∈ n.fileLocations ↔ ∃ b, n.at? l = some (file b) := by
  induction n using induction generalizing l with
  | file b =>
    rw [fileLocations, List.mem_singleton]
    constructor
    · rintro rfl
      exact ⟨b, rfl⟩
    · rintro ⟨b', h⟩
      cases l with
      | nil => rfl
      | cons name t => exact nomatch h
  | directory es ih =>
    obtain ⟨hnodup, hforms⟩ := wellFormed_directory_iff.mp hn
    rw [fileLocations, entryFileLocations_eq, mem_inNameOrder]
    constructor
    · rintro ⟨_, he, t, ht, rfl⟩
      obtain ⟨e, hes, rfl⟩ := List.mem_map.mp he
      obtain ⟨b, hb⟩ := (ih e hes (hforms e hes)).mp ht
      exact ⟨b, (at?_cons_eq_file_iff hnodup).mpr ⟨e.2, hes, hb⟩⟩
    · rintro ⟨b, h⟩
      cases l with
      | nil => exact nomatch Option.some.inj h
      | cons name t =>
        obtain ⟨m, hm, hb⟩ := (at?_cons_eq_file_iff hnodup).mp h
        have ht := (ih (name, m) hm (hforms (name, m) hm)).mpr ⟨b, hb⟩
        exact ⟨(name, m.fileLocations), List.mem_map.mpr ⟨(name, m), hm, rfl⟩, t, ht, rfl⟩

theorem pairwise_fileLocations {n : Node} (hn : n.WellFormed) :
    n.fileLocations.Pairwise Location.Before := by
  induction n using induction with
  | file b => exact List.pairwise_singleton _ _
  | directory es ih =>
    obtain ⟨hnodup, hforms⟩ := wellFormed_directory_iff.mp hn
    rw [fileLocations, entryFileLocations_eq, inNameOrder, List.pairwise_flatMap]
    constructor
    · intro e he
      rw [List.mem_mergeSort] at he
      obtain ⟨d, hd, rfl⟩ := List.mem_map.mp he
      rw [List.pairwise_map]
      refine (ih d hd (hforms d hd)).imp fun {t t'} h => ?_
      rw [Location.Before, if_pos rfl]
      exact h
    · -- Entries differ in their names, so two files of different entries stand in the names' order.
      have hsorted := @List.pairwise_mergeSort _ (fun a b : Name × List Location => nameLe a.1 b.1)
        (fun _ _ _ => nameLe_trans) (fun a b => nameLe_total a.1 b.1)
        (es.map fun e => (e.1, e.2.fileLocations))
      have hdistinct : ((es.map fun e => (e.1, e.2.fileLocations)).mergeSort
          fun a b => nameLe a.1 b.1).Pairwise fun a b => a.1 ≠ b.1 := by
        rw [← List.pairwise_map, ← List.nodup_iff_pairwise_ne]
        refine ((List.mergeSort_perm _ _).map Prod.fst).nodup_iff.mpr ?_
        rw [List.map_map]
        exact hnodup
      refine (hsorted.and hdistinct).imp fun {a b} h l hl l' hl' => ?_
      obtain ⟨t, -, rfl⟩ := List.mem_map.mp hl
      obtain ⟨t', -, rfl⟩ := List.mem_map.mp hl'
      rw [Location.Before, if_neg h.2]
      exact h.1

/-- A walk depends on the files only. -/
theorem fileLocations_eq_of_view {n m : Node} (hn : n.WellFormed) (hm : m.WellFormed)
    (h : ∀ l, (∃ b, n.view l = some (some b)) ↔ ∃ b, m.view l = some (some b)) :
    n.fileLocations = m.fileLocations := by
  have hnodup : ∀ {k : Node}, k.WellFormed → k.fileLocations.Nodup := by
    intro k hk
    rw [List.nodup_iff_pairwise_ne]
    refine (pairwise_fileLocations hk).imp fun {l l'} hb he => ?_
    rw [he] at hb
    exact Location.not_before_self l' hb
  refine List.Perm.eq_of_pairwise (fun l l' _ _ hb hb' => ?_) (pairwise_fileLocations hn)
    (pairwise_fileLocations hm) ?_
  · exact absurd hb' (Location.not_before_of_before hb)
  · refine (List.perm_ext_iff_of_nodup (hnodup hn) (hnodup hm)).mpr fun l => ?_
    have hl := h l
    simp only [view_eq_file_iff] at hl
    rw [mem_fileLocations hn, mem_fileLocations hm, hl]

end Node
end Files
end StepStubs
