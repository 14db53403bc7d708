/-
The characters of a shown path.

What the path functions put together has no characters but those of the paths that they start from,
slashes and dots.  So a property of characters that slashes and dots have is kept by all of them;
for the way that reports and stub files show this is `forall_mem_displayRelative`.
-/
import StepStubs.Proofs.Path.Normal

namespace StepStubs
namespace Path

variable {P : Char → Prop}

/-! ## Parts and what is joined of them -/

theorem mem_join {x : Char} {part : Text} {ts : List Text} (hpart : part ∈ ts) (hx : x ∈ part) :
    x ∈ Text.join ['/'] ts := by
  induction ts with
  | nil => exact absurd hpart List.not_mem_nil
  | cons t ts ih =>
    cases ts with
    | nil =>
      obtain ⟨u, hu⟩ := exists_join_cons t []
      rw [List.mem_singleton.mp hpart] at hx
      rw [hu]
      exact List.mem_append_left u hx
    | cons t' ts =>
      rw [join_cons_cons]
      rcases List.mem_cons.mp hpart with rfl | hpart
      · exact List.mem_append_left _ hx
      · exact List.mem_append_right _ (List.mem_cons_of_mem '/' (ih hpart))

theorem forall_mem_join (hslash : P '/') {ts : List Text} (h : ∀ t ∈ ts, ∀ x ∈ t, P x) :
    ∀ x ∈ Text.join ['/'] ts, P x := by
  induction ts with
  | nil => exact fun x hx => absurd hx List.not_mem_nil
  | cons t ts ih =>
    obtain ⟨ht, hts⟩ := List.forall_mem_cons.mp h
    cases ts with
    | nil => simpa [Text.join] using ht
    | cons u ts =>
      rw [join_cons_cons]
      exact List.forall_mem_append.mpr ⟨ht, List.forall_mem_cons.mpr ⟨hslash, ih hts⟩⟩

/-! ## Components -/

/-- Do the characters of all the components have the property? -/
def AllChars (P : Char → Prop) (cs : List Component) : Prop := ∀ c ∈ cs, ∀ x ∈ c.text, P x

theorem AllChars.append {cs ds : List Component} (hcs : AllChars P cs) (hds : AllChars P ds) :
    AllChars P (cs ++ ds) := List.forall_mem_append.mpr ⟨hcs, hds⟩

theorem AllChars.subset {cs ds : List Component} (h : AllChars P ds) (hsub : cs ⊆ ds) :
    AllChars P cs := fun c hc => h c (hsub hc)

theorem text_of_innerComponent? {part : Text} {c : Component} (h : innerComponent? part = some c) :
    c.text = part := by
  rw [innerComponent?] at h
  split at h
  · contradiction
  · split at h
    · next hdots =>
      rw [← Option.some.inj h, hdots]
      rfl
    · rw [← Option.some.inj h]
      rfl

theorem allChars_components (hslash : P '/') (hdot : P '.') {p : Path} (h : ∀ x ∈ p.text, P x) :
    AllChars P p.components := by
  refine AllChars.append (fun c hc => ?_) fun c hc => ?_
  · rw [Option.mem_toList, frontComponent?] at hc
    split at hc
    · rw [← Option.some.inj hc]
      simpa [Component.text] using hslash
    · split at hc
      · rw [← Option.some.inj hc]
        simpa [Component.text] using hdot
      · contradiction
  · obtain ⟨part, hpart, hc⟩ := List.mem_filterMap.mp hc
    rw [text_of_innerComponent? hc]
    intro x hx
    refine h x ?_
    have hmem := mem_join hpart hx
    rwa [parts, Text.join, List.intercalate_splitOn] at hmem

theorem forall_mem_join_path (hslash : P '/') {p q : Path} (hp : ∀ x ∈ p.text, P x)
    (hq : ∀ x ∈ q.text, P x) : ∀ x ∈ (p.join q).text, P x := by
  rw [join]
  split
  · exact hq
  · split
    · exact List.forall_mem_append.mpr ⟨hp, hq⟩
    · exact List.forall_mem_append.mpr ⟨hp, List.forall_mem_cons.mpr ⟨hslash, hq⟩⟩

theorem forall_mem_foldl_join (hslash : P '/') {cs : List Component} (hcs : AllChars P cs)
    {p : Path} (hp : ∀ x ∈ p.text, P x) :
    ∀ x ∈ (cs.foldl (fun p c => p.join ⟨c.text⟩) p).text, P x := by
  induction cs generalizing p with
  | nil => exact hp
  | cons c cs ih =>
    exact ih (fun d hd => hcs d (List.mem_cons_of_mem c hd))
      (forall_mem_join_path hslash hp (hcs c List.mem_cons_self))

theorem forall_mem_ofComponentsOrDot (hslash : P '/') (hdot : P '.') {cs : List Component}
    (h : AllChars P cs) : ∀ x ∈ (ofComponentsOrDot cs).text, P x := by
  rw [ofComponentsOrDot]
  split
  · simpa using hdot
  · exact forall_mem_foldl_join hslash h fun x hx => absurd hx List.not_mem_nil

/-! ## Normal and shown paths -/

theorem allChars_components_normalize (hslash : P '/') (hdot : P '.') {p : Path}
    (h : ∀ x ∈ p.text, P x) : AllChars P p.normalize.components := by
  refine allChars_components hslash hdot (forall_mem_ofComponentsOrDot hslash hdot ?_)
  refine (allChars_components hslash hdot h).subset fun c hc => ?_
  exact (mem_foldl_push (List.mem_reverse.mp hc)).resolve_right List.not_mem_nil

/-- The way to a path is shown with the characters of the path, slashes and dots. -/
theorem forall_mem_displayRelative (hslash : P '/') (hdot : P '.') {p : Path}
    (h : ∀ x ∈ p.text, P x) (base : Path) : ∀ x ∈ p.displayRelative base, P x := by
  have hway : AllChars P (p.relativeTo base).components := by
    rw [relativeTo_eq]
    refine allChars_components hslash hdot (forall_mem_ofComponentsOrDot hslash hdot ?_)
    refine AllChars.append (fun c hc => ?_) ?_
    · rw [List.eq_of_mem_replicate hc]
      simpa [Component.text] using hdot
    · obtain ⟨common, hdown, -⟩ :=
        exists_partsAt_dropCommon p.normalize.components base.normalize.components
      refine (allChars_components_normalize hslash hdot h).subset fun c hc => ?_
      rw [hdown]
      exact List.mem_append_right common hc
  refine forall_mem_join hslash fun t ht => ?_
  obtain ⟨c, hc, rfl⟩ := List.mem_map.mp ht
  exact hway c hc

end Path
end StepStubs
