/-
Where the stub file of a feature file goes.

A stub file and its temporary file are entries of the steps directory, under names that
follow from the stem of the feature file.  There is one exception: a stem and a suffix that
are a dot each make `..`, which names the directory above; no file can be written there.
-/
import StepStubs.Proofs.Files.Temporary
import StepStubs.Proofs.Run.Action

namespace StepStubs

open StepStubs.Path (IsName)

namespace Run
namespace Project

variable {p : Project} {f : Path}

/-! ## Output names -/

/-- The name of the stub file of a feature file. -/
def outputName? (p : Project) (f : Path) : Option Files.Name :=
  f.stem?.map fun stem => stem ++ p.config.outputSuffix

def outputAt (p : Project) (name : Files.Name) : Path := p.stepsDir.join ⟨name⟩

theorem outputPath_eq_ok_iff {output : Path} :
    p.outputPath f = .ok output ↔ ∃ n, p.outputName? f = some n ∧ output = p.outputAt n := by
  rw [outputPath, FeatureFile.stemOf, outputName?]
  cases f.stem? with
  | none =>
    constructor
    · exact nofun
    · rintro ⟨_, h, -⟩
      exact nomatch h
  | some stem =>
    constructor
    · intro h
      exact ⟨_, rfl, (Except.ok.inj h).symm⟩
    · rintro ⟨n, hn, rfl⟩
      rw [← Option.some.inj hn]
      rfl

/-- An output name can be the name of a file, or is `..`. -/
theorem isName_or_eq_dots {stem suffix : Text} (hstem : stem ≠ []) (hsuffix : suffix ≠ [])
    (hstem' : '/' ∉ stem) (hsuffix' : '/' ∉ suffix) :
    IsName (stem ++ suffix) ∨ stem ++ suffix = ['.', '.'] := by
  by_cases hdots : stem ++ suffix = ['.', '.']
  · exact Or.inr hdots
  · refine Or.inl ⟨?_, ?_, hdots, ?_⟩
    · exact fun h => hstem (List.append_eq_nil_iff.mp h).1
    · intro h
      have hlength := congrArg List.length h
      rw [List.length_append, List.length_singleton] at hlength
      have h₁ := List.length_pos_iff.mpr hstem
      have h₂ := List.length_pos_iff.mpr hsuffix
      omega
    · rw [List.mem_append]
      rintro (h | h)
      · exact hstem' h
      · exact hsuffix' h

end Project
end Run
end StepStubs
