/-
Stems and extensions.

A name that has an extension is a stem, a dot and the extension.  The stem is not empty and the
extension has no dot, so there is one way only to take a name apart (`splitName_eq_iff`).  In
particular a name that is nothing but a dot and a word has no extension, and stem and extension
together tell the name.
-/
import StepStubs.Path.Basic

namespace StepStubs
namespace Path

variable {name stem before after extension : Text}

/-! ## The last dot -/

theorem cutAtLastDot?_append (h : '.' ∉ after) (before : Text) :
    cutAtLastDot? (before ++ '.' :: after) = some (before, after) := by
  have hcontains : (before ++ '.' :: after).contains '.' = true :=
    List.contains_iff_mem.mpr (List.mem_append_right _ List.mem_cons_self)
  have hreverse : (before ++ '.' :: after).reverse = after.reverse ++ '.' :: before.reverse := by
    rw [List.reverse_append, List.reverse_cons, List.append_assoc, List.singleton_append]
  have hafter : ∀ c ∈ after.reverse, decide (c ≠ '.') = true := fun c hc =>
    decide_eq_true fun hdot => h (hdot ▸ List.mem_reverse.mp hc)
  have htake : (before ++ '.' :: after).reverse.takeWhile (· ≠ '.') = after.reverse := by
    rw [hreverse, List.takeWhile_append_of_pos hafter, List.takeWhile_cons_of_neg (by decide),
      List.append_nil]
  have hlength : (before ++ '.' :: after).length - after.length - 1 = before.length := by
    rw [List.length_append, List.length_cons]
    omega
  rw [cutAtLastDot?, if_pos hcontains, htake, List.reverse_reverse]
  dsimp only
  rw [hlength, List.take_left]

theorem cutAtLastDot?_eq_none (h : '.' ∉ name) : cutAtLastDot? name = none := by
  rw [cutAtLastDot?, if_neg fun hdot => h (List.contains_iff_mem.mp hdot)]

/-- A name with a dot is cut at its last one. -/
theorem exists_append_of_mem (h : '.' ∈ name) :
    ∃ before after, name = before ++ '.' :: after ∧ '.' ∉ after := by
  obtain ⟨after, before, hname, hafter⟩ := List.eq_append_cons_of_mem (List.mem_reverse.mpr h)
  refine ⟨before.reverse, after.reverse, ?_, fun hdot => hafter (List.mem_reverse.mp hdot)⟩
  rw [List.reverse_eq_iff, List.reverse_append, List.reverse_cons, List.append_assoc] at hname
  exact hname

/-! ## Names taken apart -/

/-- A name has a stem and an extension exactly if it is the stem, a dot and the extension. -/
theorem splitName_eq_iff :
    splitName name = (stem, some extension) ↔
      stem ≠ [] ∧ name = stem ++ '.' :: extension ∧ '.' ∉ extension := by
  constructor
  · intro h
    by_cases hdot : '.' ∈ name
    · obtain ⟨before, after, rfl, hafter⟩ := exists_append_of_mem hdot
      rw [splitName, cutAtLastDot?_append hafter] at h
      dsimp only at h
      by_cases hbefore : before = []
      · rw [if_pos hbefore] at h
        exact nomatch (Prod.mk.inj h).2
      · rw [if_neg hbefore] at h
        obtain ⟨rfl, hextension⟩ := Prod.mk.inj h
        obtain rfl := Option.some.inj hextension
        exact ⟨hbefore, rfl, hafter⟩
    · rw [splitName, cutAtLastDot?_eq_none hdot] at h
      exact nomatch (Prod.mk.inj h).2
  · rintro ⟨hstem, rfl, hextension⟩
    rw [splitName, cutAtLastDot?_append hextension]
    exact if_neg hstem

/-- Stem and extension of a path are those of its file name. -/
theorem stem?_extension?_eq_iff {p : Path} :
    p.stem? = some stem ∧ p.extension? = some extension ↔
      p.fileName? = some (stem ++ '.' :: extension) ∧ stem ≠ [] ∧ '.' ∉ extension := by
  rw [stem?, extension?]
  cases p.fileName? with
  | none => exact iff_of_false (fun h => nomatch h.1) fun h => nomatch h.1
  | some name =>
    have hsplit : splitName name = (stem, some extension) ↔
        stem ≠ [] ∧ name = stem ++ '.' :: extension ∧ '.' ∉ extension := splitName_eq_iff
    rw [Prod.ext_iff] at hsplit
    rw [Option.map_some, Option.bind_some, Option.some_inj, Option.some_inj, hsplit]
    exact ⟨fun ⟨hstem, hname, hextension⟩ => ⟨hname, hstem, hextension⟩,
      fun ⟨hname, hstem, hextension⟩ => ⟨hstem, hname, hextension⟩⟩

theorem extension?_eq_some_iff {p : Path} :
    p.extension? = some extension ↔
      ∃ stem, p.fileName? = some (stem ++ '.' :: extension) ∧ stem ≠ [] ∧ '.' ∉ extension := by
  simp only [← stem?_extension?_eq_iff]
  refine ⟨fun h => ?_, fun ⟨_, _, h⟩ => h⟩
  obtain ⟨name, hname, -⟩ := Option.bind_eq_some_iff.mp h
  exact ⟨(splitName name).1, by rw [stem?, hname, Option.map_some], h⟩

end Path
end StepStubs
