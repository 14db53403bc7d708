/-
What a change does to a tree.

A tree is looked at through its view: what stands at each location, a directory, a file with
its bytes, or nothing.  `view_alter` says what a change at a location does to the view.  All
changes that are made are changes of a leaf: a file, an empty directory or nothing takes the
place of what has nothing below it.  Such a change is seen at its own location only, which is
`view_alter_leaf`.
-/
import StepStubs.Files.Changes

namespace StepStubs
namespace Files

/-! ## Entries -/

theorem entry?_nil (name : Name) : entry? name [] = none := rfl

theorem entry?_cons (name : Name) (e : Name × Node) (es : List (Name × Node)) :
    entry? name (e :: es) = if e.1 = name then some e.2 else entry? name es := rfl

theorem entry?_eq_none {name : Name} {es : List (Name × Node)} (h : name ∉ es.map Prod.fst) :
    entry? name es = none := by
  induction es with
  | nil => rfl
  | cons e es ih =>
    rw [List.map_cons, List.mem_cons, not_or] at h
    rw [entry?_cons, if_neg (Ne.symm h.1), ih h.2]

theorem mem_of_entry?_eq_some {name : Name} {es : List (Name × Node)} {n : Node}
    (h : entry? name es = some n) : (name, n) ∈ es := by
  induction es with
  | nil => exact nomatch h
  | cons e es ih =>
    rw [entry?_cons] at h
    by_cases he : e.1 = name
    · rw [if_pos he] at h
      rw [← Option.some.inj h, ← he]
      exact List.mem_cons_self
    · rw [if_neg he] at h
      exact List.mem_cons_of_mem e (ih h)

theorem entry?_eq_some_iff {name : Name} {es : List (Name × Node)} {n : Node}
    (hes : (es.map Prod.fst).Nodup) : entry? name es = some n ↔ (name, n) ∈ es := by
  refine ⟨mem_of_entry?_eq_some, fun h => ?_⟩
  induction es with
  | nil => exact absurd h List.not_mem_nil
  | cons e es ih =>
    rw [List.map_cons, List.nodup_cons] at hes
    rw [entry?_cons]
    rcases List.mem_cons.mp h with rfl | h
    · rw [if_pos rfl]
    · have hne : e.1 ≠ name := fun he =>
        hes.1 (he ▸ List.mem_map.mpr ⟨(name, n), h, rfl⟩)
      rw [if_neg hne, ih hes.2 h]

theorem entry?_alterEntry_self {name : Name} {f : Option Node → Option Node}
    {es : List (Name × Node)} {o : Option Node} (h : (es.map Prod.fst).Nodup)
    (ho : entry? name es = o) : entry? name (alterEntry name f es) = f o := by
  subst ho
  induction es with
  | nil =>
    rw [alterEntry, entry?_nil]
    cases f none with
    | none => rfl
    | some new => simp [entry?_cons]
  | cons e es ih =>
    rw [List.map_cons, List.nodup_cons] at h
    rw [alterEntry, entry?_cons]
    by_cases he : e.1 = name
    · rw [if_pos he, if_pos he]
      cases f (some e.2) with
      | none => exact entry?_eq_none (he ▸ h.1)
      | some new => simp [entry?_cons]
    · rw [if_neg he, if_neg he, entry?_cons, if_neg he, ih h.2]

theorem entry?_alterEntry_of_ne {name name' : Name} {f : Option Node → Option Node}
    (h : name' ≠ name) (es : List (Name × Node)) :
    entry? name' (alterEntry name f es) = entry? name' es := by
  have hnew : ∀ (o : Option Node) (es : List (Name × Node)),
      entry? name' ((o.map fun new => (name, new)).toList ++ es) = entry? name' es := by
    intro o es
    cases o with
    | none => rfl
    | some new => simp [entry?_cons, Ne.symm h]
  induction es with
  | nil =>
    have h0 := hnew (f none) []
    rw [List.append_nil] at h0
    rw [alterEntry, h0]
  | cons e es ih =>
    rw [alterEntry, entry?_cons]
    by_cases he : e.1 = name
    · rw [if_pos he, hnew, if_neg fun h' => h (h'.symm.trans he)]
    · rw [if_neg he, entry?_cons, ih]

/-- An entry after a change was there before, or is what the change put there. -/
theorem mem_alterEntry {name : Name} {f : Option Node → Option Node} {es : List (Name × Node)}
    {e : Name × Node} (h : e ∈ alterEntry name f es) :
    e ∈ es ∨ e.1 = name ∧ ∃ o, f o = some e.2 ∧ ∀ c ∈ o, (name, c) ∈ es := by
  have hnew : ∀ {o : Option Node}, e ∈ ((f o).map fun new => (name, new)).toList →
      e.1 = name ∧ f o = some e.2 := by
    intro o he
    rw [Option.mem_toList, Option.map_eq_some_iff] at he
    obtain ⟨new, hf, rfl⟩ := he
    exact ⟨rfl, hf⟩
  induction es with
  | nil => exact Or.inr ⟨(hnew h).1, none, (hnew h).2, nofun⟩
  | cons d es ih =>
    rw [alterEntry] at h
    by_cases hd : d.1 = name
    · rw [if_pos hd, List.mem_append] at h
      rcases h with h | h
      · refine Or.inr ⟨(hnew h).1, some d.2, (hnew h).2, fun c hc => ?_⟩
        rw [← Option.some.inj hc, ← hd]
        exact List.mem_cons_self
      · exact Or.inl (List.mem_cons_of_mem d h)
    · rw [if_neg hd] at h
      rcases List.mem_cons.mp h with rfl | h
      · exact Or.inl List.mem_cons_self
      · rcases ih h with h | ⟨hn, o, ho, hc⟩
        · exact Or.inl (List.mem_cons_of_mem d h)
        · exact Or.inr ⟨hn, o, ho, fun c h => List.mem_cons_of_mem d (hc c h)⟩

theorem nodup_alterEntry {name : Name} {f : Option Node → Option Node} {es : List (Name × Node)}
    (h : (es.map Prod.fst).Nodup) : ((alterEntry name f es).map Prod.fst).Nodup := by
  induction es with
  | nil =>
    rw [alterEntry]
    cases f none <;> simp
  | cons d es ih =>
    rw [List.map_cons, List.nodup_cons] at h
    rw [alterEntry]
    by_cases hd : d.1 = name
    · rw [if_pos hd]
      cases f (some d.2) with
      | none => exact h.2
      | some new =>
        show (name :: es.map Prod.fst).Nodup
        rw [← hd, List.nodup_cons]
        exact h
    · rw [if_neg hd, List.map_cons, List.nodup_cons]
      refine ⟨fun hmem => ?_, ih h.2⟩
      obtain ⟨e, he, hed⟩ := List.mem_map.mp hmem
      rcases mem_alterEntry he with he | ⟨hn, -⟩
      · exact h.1 (List.mem_map.mpr ⟨e, he, hed⟩)
      · exact hd (hed.symm.trans hn)

namespace Node

/-! ## Well-formed trees stay well-formed -/

theorem entriesWellFormed_iff {es : List (Name × Node)} :
    EntriesWellFormed es ↔ ∀ e ∈ es, e.2.WellFormed := by
  induction es with
  | nil => simp [EntriesWellFormed]
  | cons e es ih => rw [EntriesWellFormed, ih, List.forall_mem_cons]

theorem wellFormed_directory_iff {es : List (Name × Node)} :
    (directory es).WellFormed ↔ (es.map Prod.fst).Nodup ∧ ∀ e ∈ es, e.2.WellFormed := by
  rw [WellFormed, entriesWellFormed_iff]

/-- Does the change make nothing but well-formed nodes of well-formed ones? -/
def KeepsForm (f : Option Node → Option Node) : Prop :=
  ∀ o n, (∀ c ∈ o, c.WellFormed) → f o = some n → n.WellFormed

theorem wellFormed_alterEntry {name : Name} {f : Option Node → Option Node} (hf : KeepsForm f)
    {es : List (Name × Node)} (h : (directory es).WellFormed) :
    (directory (alterEntry name f es)).WellFormed := by
  rw [wellFormed_directory_iff] at h ⊢
  refine ⟨nodup_alterEntry h.1, fun e he => ?_⟩
  rcases mem_alterEntry he with he | ⟨-, o, ho, hc⟩
  · exact h.2 e he
  · exact hf o e.2 (fun c hco => h.2 (name, c) (hc c hco)) ho

theorem wellFormed_alter {f : Option Node → Option Node} (hf : KeepsForm f) {l : Location}
    {n : Node} (h : n.WellFormed) : (alter f l n).WellFormed := by
  induction l generalizing n with
  | nil =>
    rw [alter]
    cases hn : f (some n) with
    | none => exact h
    | some m =>
      refine hf (some n) m (fun c hc => ?_) hn
      rw [← Option.some.inj hc]
      exact h
  | cons name rest ih =>
    cases n with
    | file b => cases rest <;> exact h
    | directory es =>
      cases rest with
      | nil => exact wellFormed_alterEntry hf h
      | cons name' rest =>
        refine wellFormed_alterEntry (fun o m ho hm => ?_) h
        obtain ⟨c, rfl, rfl⟩ := Option.map_eq_some_iff.mp hm
        exact ih (ho c rfl)

theorem wellFormed_of_at? {l : Location} {n m : Node} (h : n.WellFormed)
    (hm : n.at? l = some m) : m.WellFormed := by
  induction l generalizing n with
  | nil =>
    rw [← Option.some.inj hm]
    exact h
  | cons name rest ih =>
    rw [at?] at hm
    obtain ⟨c, hc, hrest⟩ := Option.bind_eq_some_iff.mp hm
    cases n with
    | file b => exact nomatch hc
    | directory es =>
      rw [wellFormed_directory_iff] at h
      exact ih (h.2 (name, c) (mem_of_entry?_eq_some hc)) hrest

/-! ## The view of a tree -/

/-- What stands at a location: a file with its bytes, a directory, for which there are no
bytes, or nothing. -/
def view (n : Node) (l : Location) : Option (Option ByteArray) := (n.at? l).map bytes?

theorem view_eq_none_iff {n : Node} {l : Location} : n.view l = none ↔ n.at? l = none := by
  rw [view, Option.map_eq_none_iff]

theorem view_eq_directory_iff {n : Node} {l : Location} :
    n.view l = some none ↔ ∃ es, n.at? l = some (directory es) := by
  rw [view]
  cases n.at? l with
  | none => simp
  | some m => cases m <;> simp [bytes?]

theorem view_eq_file_iff {n : Node} {l : Location} {b : ByteArray} :
    n.view l = some (some b) ↔ n.at? l = some (file b) := by
  rw [view]
  cases n.at? l with
  | none => simp
  | some m => cases m <;> simp [bytes?]

theorem at?_append (l t : Location) (n : Node) : n.at? (l ++ t) = (n.at? l).bind (at? t) := by
  induction l generalizing n with
  | nil => rfl
  | cons name rest ih =>
    rw [List.cons_append, at?, at?, Option.bind_assoc]
    exact congrArg _ (funext fun c => ih c)

/-- Only a directory has something below it. -/
theorem view_eq_directory_of_append {n : Node} {l t : Location} (ht : t ≠ [])
    (h : n.view (l ++ t) ≠ none) : n.view l = some none := by
  rw [Ne, view_eq_none_iff, at?_append] at h
  cases hl : n.at? l with
  | none => simp [hl] at h
  | some m =>
    cases m with
    | directory es => exact view_eq_directory_iff.mpr ⟨es, hl⟩
    | file b =>
      cases t with
      | nil => exact absurd rfl ht
      | cons name rest =>
        rw [hl, Option.bind_some, at?] at h
        exact absurd rfl h

/-! ## The view after a change -/

theorem child?_alterEntry_self {name : Name} {f : Option Node → Option Node}
    {es : List (Name × Node)} (h : (es.map Prod.fst).Nodup) :
    (directory (alterEntry name f es)).child? name = f ((directory es).child? name) :=
  entry?_alterEntry_self h rfl

theorem child?_alterEntry_of_ne {name name' : Name} {f : Option Node → Option Node}
    (h : name' ≠ name) (es : List (Name × Node)) :
    (directory (alterEntry name f es)).child? name' = (directory es).child? name' :=
  entry?_alterEntry_of_ne h es

/-- What stands at each location after a change at `l`, if there is a directory for `l` to be
in. -/
theorem view_alter {n : Node} (hn : n.WellFormed) {l : Location} (hl : l ≠ [])
    (hdir : n.view l.dropLast = some none) (f : Option Node → Option Node) (l' : Location) :
    (alter f l n).view l' =
      if l <+: l' then ((f (n.at? l)).bind (at? (l'.drop l.length))).map bytes?
      else n.view l' := by
  induction l generalizing n l' with
  | nil => exact absurd rfl hl
  | cons name rest ih =>
    have hes : ∃ es, n = directory es := by
      cases n with
      | directory es => exact ⟨es, rfl⟩
      | file b =>
        cases rest with
        | nil => exact nomatch hdir
        | cons name' rest => exact nomatch hdir
    obtain ⟨es, rfl⟩ := hes
    obtain ⟨hnodup, hforms⟩ := wellFormed_directory_iff.mp hn
    -- The way to `l'` starts with the same name as that to `l`, or the change is not met.
    cases l' with
    | nil =>
      rw [if_neg (by simp)]
      cases rest <;> rfl
    | cons name' t =>
      cases rest with
      | nil =>
        show (((directory (alterEntry name f es)).child? name').bind (at? t)).map bytes? = _
        by_cases hname : name' = name
        · rw [hname, child?_alterEntry_self hnodup, if_pos (by simp)]
          show _ = ((f (((directory es).child? name).bind some)).bind (at? t)).map bytes?
          cases (directory es).child? name <;> rfl
        · rw [child?_alterEntry_of_ne hname, if_neg (by simpa using Ne.symm hname)]
          rfl
      | cons name₂ rest =>
        show (((directory (alterEntry name (Option.map (alter f (name₂ :: rest))) es)).child?
          name').bind (at? t)).map bytes? = _
        by_cases hname : name' = name
        · -- The change happens inside the entry `c`, where the induction knows it.
          subst hname
          obtain ⟨ds, hds⟩ := view_eq_directory_iff.mp hdir
          rw [List.dropLast_cons_cons, at?] at hds
          obtain ⟨c, hc, hds⟩ := Option.bind_eq_some_iff.mp hds
          have hchild := ih (hforms (name', c) (mem_of_entry?_eq_some hc)) (List.cons_ne_nil _ _)
            (view_eq_directory_iff.mpr ⟨ds, hds⟩) t
          have hat : (directory es).at? (name' :: name₂ :: rest) = c.at? (name₂ :: rest) := by
            show ((directory es).child? name').bind _ = _
            rw [hc, Option.bind_some]
          have hview : (directory es).view (name' :: t) = c.view t := by
            show (((directory es).child? name').bind _).map _ = _
            rw [hc, Option.bind_some, view]
          rw [child?_alterEntry_self hnodup, hc, hat, hview, Option.map_some, Option.bind_some,
            ← view, hchild]
          simp only [List.cons_prefix_cons, true_and, List.length_cons, List.drop_succ_cons]
        · rw [child?_alterEntry_of_ne hname, if_neg (by simp [Ne.symm hname])]
          rfl

/-- Has the node, if it is one, nothing below it? -/
def IsLeaf (o : Option Node) : Prop := ∀ t : Location, t ≠ [] → o.bind (at? t) = none

theorem isLeaf_none : IsLeaf none := fun _ _ => rfl

theorem isLeaf_file (b : ByteArray) : IsLeaf (some (file b)) := by
  intro t ht
  cases t with
  | nil => exact absurd rfl ht
  | cons name rest => rfl

theorem isLeaf_emptyDirectory : IsLeaf (some emptyDirectory) := by
  intro t ht
  cases t with
  | nil => exact absurd rfl ht
  | cons name rest => rfl

/-- A change of a leaf is seen at its own location only. -/
theorem view_alter_leaf {n : Node} (hn : n.WellFormed) {l : Location} (hl : l ≠ [])
    (hdir : n.view l.dropLast = some none) (hold : n.view l ≠ some none) {o : Option Node}
    (ho : IsLeaf o) (l' : Location) :
    (alter (fun _ => o) l n).view l' = if l' = l then o.map bytes? else n.view l' := by
  rw [view_alter hn hl hdir]
  by_cases hprefix : l <+: l'
  · obtain ⟨t, rfl⟩ := hprefix
    rw [if_pos (List.prefix_append l t), List.drop_left]
    by_cases ht : t = []
    · rw [ht, List.append_nil, if_pos rfl]
      cases o <;> rfl
    · have hnone : n.view (l ++ t) = none := by
        cases hsome : n.view (l ++ t) with
        | none => rfl
        | some v =>
          have hne : n.view (l ++ t) ≠ none := by simp [hsome]
          exact absurd (view_eq_directory_of_append ht hne) hold
      rw [ho t ht, if_neg (by simpa using ht), hnone, Option.map_none]
  · rw [if_neg hprefix, if_neg]
    rintro rfl
    exact hprefix (List.prefix_refl _)

/-! ## Contents -/

theorem mem_entryContents {name : Name} {c : Node} {es : List (Name × Node)}
    {r : Location × Option ByteArray} (hc : (name, c) ∈ es) (hr : r ∈ c.contents) :
    (name :: r.1, r.2) ∈ entryContents es := by
  induction es with
  | nil => exact absurd hc List.not_mem_nil
  | cons e es ih =>
    rw [entryContents, List.mem_append]
    rcases List.mem_cons.mp hc with rfl | hc
    · exact Or.inl (List.mem_map.mpr ⟨r, hr, rfl⟩)
    · exact Or.inr (ih hc)

theorem mem_contents_of_at? {n m : Node} {l : Location} (h : n.at? l = some m) :
    (l, m.bytes?) ∈ n.contents := by
  induction l generalizing n with
  | nil =>
    rw [← Option.some.inj h]
    cases n with
    | file b => exact List.mem_cons_self
    | directory es => exact List.mem_cons_self
  | cons name rest ih =>
    rw [at?] at h
    obtain ⟨c, hc, hm⟩ := Option.bind_eq_some_iff.mp h
    cases n with
    | file b => exact nomatch hc
    | directory es =>
      exact List.mem_cons_of_mem _ (mem_entryContents (mem_of_entry?_eq_some hc) (ih hm))

end Node
end Files
end StepStubs
