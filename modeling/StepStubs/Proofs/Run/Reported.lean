/-
The paths that a report shows.

A report names a feature file and its stub file as they are seen from the project.  From the
project they lead back to the two files, with one exception: a project that is the directory the
program runs in, written `.`, is left once more than it was entered, and what is shown names a file
beside the project (`process_shows_paths_iff`).
-/
import StepStubs.Proofs.Path.Normal
import StepStubs.Proofs.Run.Result

namespace StepStubs

open StepStubs.Path (Component innerOf IsName)

namespace Path

/-- Does the path start where the other starts, and lead through all its components first? -/
def IsBelow (p directory : Path) : Prop :=
  p.isAbsolute = directory.isAbsolute ∧ innerOf directory.text <+: innerOf p.text

instance (p directory : Path) : Decidable (p.IsBelow directory) :=
  inferInstanceAs (Decidable (_ ∧ _))

theorem isBelow_join {q : Path} (hq : q.isAbsolute = false) (p : Path) : (p.join q).IsBelow p :=
  ⟨isAbsolute_join hq p, innerOf_join hq p ▸ List.prefix_append _ _⟩

/-- What lies below a directory of the project can be told from the project. -/
theorem IsBelow.isAbsolute_or {p root directory : Path} (h : p.IsBelow (root.join directory)) :
    p.isAbsolute = true ∨ root.isAbsolute = false ∧ innerOf root.text <+: innerOf p.text := by
  obtain ⟨habs, hstarts⟩ := h
  cases hdirectory : directory.isAbsolute with
  | true =>
    rw [join_of_isAbsolute hdirectory] at habs
    exact Or.inl (habs.trans hdirectory)
  | false =>
    rw [isAbsolute_join hdirectory] at habs
    rw [innerOf_join hdirectory] at hstarts
    cases hroot : root.isAbsolute with
    | true => exact Or.inl (habs.trans hroot)
    | false => exact Or.inr ⟨rfl, (List.prefix_append _ _).trans hstarts⟩

/-- A path that starts with the stem of a file starts at no root. -/
theorem isAbsolute_stem_append {p : Path} {stem : Text} (h : p.stem? = some stem) (suffix : Text) :
    (⟨stem ++ suffix⟩ : Path).isAbsolute = false := by
  obtain ⟨name, hname, rfl⟩ := Option.map_eq_some_iff.mp h
  have hvalid := isName_of_fileName? hname
  obtain ⟨hne, hstarts⟩ := splitName_stem hvalid.1
  obtain ⟨c, t, hc⟩ := List.exists_cons_of_ne_nil hne
  have hslash : c ≠ '/' := by
    rintro rfl
    exact hvalid.2.2.2 (hstarts.subset (hc ▸ List.mem_cons_self))
  rw [hc]
  simp [isAbsolute, hslash]

end Path

namespace Run

theorem exists_of_map_toOption {ε α β : Type} {r : Except ε α} {g : α → β} {b : β}
    (h : r.toOption.map g = some b) : ∃ a, r = .ok a ∧ g a = b := by
  cases r with
  | error e => exact nomatch h
  | ok a => exact ⟨a, rfl, Option.some.inj h⟩

namespace Project

variable {p : Project} {f : Path} {w w' : World} {r : Report}

theorem reportOf_paths (p : Project) (f output : Path) (content : Text) :
    (p.reportOf f content output).source = p.relative f ∧
      (p.reportOf f content output).output = p.relative output := by
  simp only [reportOf, Report.ofSteps, and_self]

theorem shown_of_process_ok (h : p.process f w = (.ok r, w')) :
    r.source = p.relative f ∧ ∃ output, p.outputPath f = .ok output ∧
      r.output = p.relative output := by
  obtain ⟨content, output, houtput, rfl⟩ := exists_reportOf_of_process_ok h
  obtain ⟨hsource, hshown⟩ := p.reportOf_paths f output content
  exact ⟨hsource, output, houtput, hshown⟩

theorem isBelow_stepsDir {output : Path} (h : p.outputPath f = .ok output) :
    output.IsBelow p.stepsDir := by
  obtain ⟨n, hn, rfl⟩ := outputPath_eq_ok_iff.mp h
  obtain ⟨stem, hstem, rfl⟩ := Option.map_eq_some_iff.mp hn
  exact Path.isBelow_join (Path.isAbsolute_stem_append hstem p.config.outputSuffix) p.stepsDir

/-- Put behind the project, the two paths that a report shows lead to the feature file and to its
stub file, unless the project is `.` and the paths are relative. -/
theorem process_shows_paths_iff (hf : f.IsBelow p.featuresDir)
    (h : p.process f w = (.ok r, w')) :
    ∃ output, p.outputPath f = .ok output ∧
      ((p.root.join ⟨r.source⟩).normalize = f.normalize ↔
        (p.root.normalize = ⟨['.']⟩ → f.isAbsolute = true ∨ f.normalize = ⟨['.']⟩)) ∧
      ((p.root.join ⟨r.output⟩).normalize = output.normalize ↔
        (p.root.normalize = ⟨['.']⟩ → output.isAbsolute = true ∨ output.normalize = ⟨['.']⟩)) := by
  -- Both are shown by the same way from the project, so one statement about the way is enough.
  obtain ⟨hsource, output, houtput, hshown⟩ := shown_of_process_ok h
  refine ⟨output, houtput, ?_, ?_⟩
  · rw [hsource]
    exact Path.normalize_join_displayRelative_iff hf.isAbsolute_or
  · rw [hshown]
    exact Path.normalize_join_displayRelative_iff (isBelow_stepsDir houtput).isAbsolute_or

/-- In a project with an absolute path, what is shown leads to the files. -/
theorem process_loginTree_shows_paths :
    (Path.ofString "/tests/features/login.feature").IsBelow
        (Project.mk ⟨['/']⟩ .default).featuresDir ∧
      ∃ r w', (Project.mk ⟨['/']⟩ .default).process (.ofString "/tests/features/login.feature")
          (.start loginTree) = (.ok r, w') ∧
        ((⟨['/']⟩ : Path).join ⟨r.source⟩).normalize =
          (Path.ofString "/tests/features/login.feature").normalize := by
  have hf : (Path.ofString "/tests/features/login.feature").IsBelow
      (Project.mk ⟨['/']⟩ .default).featuresDir := by decide
  have hok : ((Project.mk ⟨['/']⟩ .default).process (.ofString "/tests/features/login.feature")
      (.start loginTree)).1.isOk = true := by decide +kernel
  rcases h : (Project.mk ⟨['/']⟩ .default).process (.ofString "/tests/features/login.feature")
      (.start loginTree) with ⟨e | r, w'⟩
  · rw [h] at hok
    exact absurd hok Bool.false_ne_true
  · obtain ⟨-, -, hsource, -⟩ := process_shows_paths_iff hf h
    exact ⟨hf, r, w', rfl, hsource.mpr fun hdot => absurd hdot (by decide)⟩

/-- In the directory that the program runs in, what is shown has one `..` too many. -/
theorem process_loginTree_shows_other_paths :
    (Path.ofString "./tests/features/login.feature").IsBelow
        (Project.mk ⟨['.']⟩ .default).featuresDir ∧
      ∃ r w', (Project.mk ⟨['.']⟩ .default).process (.ofString "./tests/features/login.feature")
          (.start loginTree) = (.ok r, w') ∧
        r.source = "../tests/features/login.feature".toList ∧
        r.output = "../tests/steps/login.steps.ts".toList ∧
        ((⟨['.']⟩ : Path).join ⟨r.source⟩).normalize ≠
          (Path.ofString "./tests/features/login.feature").normalize := by
  have hf : (Path.ofString "./tests/features/login.feature").IsBelow
      (Project.mk ⟨['.']⟩ .default).featuresDir := by decide
  have hshown : ((Project.mk ⟨['.']⟩ .default).process (.ofString "./tests/features/login.feature")
      (.start loginTree)).1.toOption.map (fun r => (r.source, r.output)) =
        some ("../tests/features/login.feature".toList,
          "../tests/steps/login.steps.ts".toList) := by
    decide +kernel
  rcases h : (Project.mk ⟨['.']⟩ .default).process (.ofString "./tests/features/login.feature")
      (.start loginTree) with ⟨e | r, w'⟩
  · rw [h] at hshown
    exact nomatch hshown
  · rw [h] at hshown
    obtain ⟨hsource, houtput⟩ := Prod.mk.inj (Option.some.inj hshown)
    refine ⟨hf, r, w', rfl, hsource, houtput, ?_⟩
    rw [hsource]
    decide

end Project
end Run
end StepStubs
