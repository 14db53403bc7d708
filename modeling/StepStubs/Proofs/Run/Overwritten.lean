/-
Stub files that are written again.

A stub file has its name from the stem of the feature file, wherever below the features directory
that lies, so feature files with one stem have one stub file, and the last of them decides what is
in it.  What a summary lists as overwritten is exactly this: each stem that occurred before, by the
stub file that it stands for (`run_reports_overwritten`).  Stub files are told apart by how they are
shown, so it has to be known that two of them are never shown alike.

In one directory no stem occurs twice, since all feature files have the same extension.
-/
import StepStubs.Proofs.Files.Canonical
import StepStubs.Proofs.Path.Relative
import StepStubs.Proofs.Run.ReadOnly
import StepStubs.Proofs.Run.Summary

namespace StepStubs
namespace Run
namespace Project

open StepStubs.Path (IsName)
open Files (FileSystem)

variable {p : Project} {fs t t' : FileSystem} {features todo : List Path} {f g : Path}
  {w w' : World} {s s' : Summary}

/-! ## Stub files of stems -/

/-- The stub file of the feature files with a stem, as a report shows it. -/
def shownOutput (p : Project) (stem : Text) : Text :=
  p.relative (p.outputAt (stem ++ p.config.outputSuffix))

theorem outputName?_eq_some_iff {n : Files.Name} :
    p.outputName? f = some n ↔ ∃ stem, f.stem? = some stem ∧ stem ++ p.config.outputSuffix = n :=
  Option.map_eq_some_iff

/-- Stems have different stub files, and these are shown differently. -/
theorem eq_of_shownOutput_eq {stem stem' : Text} (h : IsName (stem ++ p.config.outputSuffix))
    (h' : IsName (stem' ++ p.config.outputSuffix))
    (heq : p.shownOutput stem = p.shownOutput stem') : stem = stem' := by
  rw [shownOutput, shownOutput, relative, relative] at heq
  have hname := Path.eq_of_displayRelative_join_eq h h' heq
  exact List.append_cancel_right hname

/-- Two names stand at different places in the steps directory. -/
theorem spot_outputAt_ne {n m : Files.Name} (hn : IsName n ∨ n = ['.', '.'])
    (hm : IsName m ∨ m = ['.', '.']) (hne : n ≠ m) :
    fs.spot (p.outputAt n) ≠ fs.spot (p.outputAt m) := by
  have hlength : ∀ a : Files.Name, (fs.spot p.stepsDir).dropLast ≠ fs.spot p.stepsDir ++ [a] := by
    intro a heq
    have hlengths := congrArg List.length heq
    rw [List.length_dropLast, List.length_append, List.length_singleton] at hlengths
    omega
  rcases hn with hn | rfl
  · rcases hm with hm | rfl
    · rw [outputAt, outputAt, FileSystem.spot_join hn, FileSystem.spot_join hm]
      exact fun heq => hne (List.cons.inj (List.append_cancel_left heq)).1
    · rw [outputAt, outputAt, FileSystem.spot_join hn, FileSystem.spot_join_dots]
      exact (hlength n).symm
  · rcases hm with hm | rfl
    · rw [outputAt, outputAt, FileSystem.spot_join_dots, FileSystem.spot_join hm]
      exact hlength m
    · exact absurd rfl hne

/-! ## What a run reports -/

/-- Do the reports show the stub files of the stems, which are the stems of the feature files? -/
structure ShowsStems (p : Project) (features : List Path) (stems : List Text)
    (reports : List Report) : Prop where
  stem : features.map Path.stem? = stems.map some
  names : ∀ stem ∈ stems, IsName (stem ++ p.config.outputSuffix)
  outputs : reports.map Report.output = stems.map p.shownOutput

theorem processAll_ok (ht : t.root.WellFormed) (hdirectory : t.isDirectory p.stepsDir = true)
    (houtput : ∀ f ∈ todo, ∃ n, p.outputName? f = some n ∧ (IsName n ∨ n = ['.', '.']))
    (hrun : p.processAll todo s t = (.ok s', t')) :
    ∃ stems reports, p.ShowsStems todo stems reports ∧ s' = reports.foldl Summary.record s := by
  induction todo generalizing s t with
  | nil =>
    rw [processAll_nil] at hrun
    exact ⟨[], [], ⟨rfl, nofun, rfl⟩, (Except.ok.inj (Prod.mk.inj hrun).1).symm⟩
  | cons f todo ih =>
    rw [processAll_cons] at hrun
    have hkeeps := p.processFiles_keepsFilesBut (List.mem_singleton_self f) ht
    rcases hstep : p.processFiles f t with ⟨e | r, t₁⟩
    · rw [hstep] at hrun
      exact nomatch (Prod.mk.inj hrun).1
    · rw [hstep] at hrun hkeeps
      obtain ⟨content, n, hprocesses, rfl, -⟩ :=
        processFiles_ok ht hdirectory (houtput f List.mem_cons_self) hstep
      obtain ⟨stem, hstem, rfl⟩ := outputName?_eq_some_iff.mp hprocesses.output
      obtain ⟨stems, reports, ⟨hstems, hnames, houtputs⟩, hs'⟩ :=
        ih hkeeps.wellFormed (hkeeps.directories.isDirectory hdirectory)
          (fun g hg => houtput g (List.mem_cons_of_mem f hg)) hrun
      refine ⟨stem :: stems, _ :: reports, ⟨?_, ?_, ?_⟩, hs'⟩
      · rw [List.map_cons, hstem, hstems, List.map_cons]
      · exact List.forall_mem_cons.mpr ⟨hprocesses.name, hnames⟩
      · rw [List.map_cons, (p.reportOf_paths f _ content).2, houtputs, List.map_cons, shownOutput]

theorem ShowsStems.overwritten_eq {stems : List Text} {reports : List Report}
    (h : p.ShowsStems features stems reports) :
    (Summary.ofReports reports).overwritten = (repeated stems).map p.shownOutput := by
  rw [(Summary.accounts_ofReports reports).overwritten, h.outputs]
  exact repeated_map fun stem hstem stem' hstem' =>
    eq_of_shownOutput_eq (h.names stem hstem) (h.names stem' hstem')

/-- A run that succeeds has gone through the feature files that were found. -/
theorem run_ok (htree : IsTree w.files) (haccepted : p.config.problem? = none)
    (hsuffix : '/' ∉ p.config.outputSuffix) (hrun : p.run w = (.ok s, w')) :
    (∃ w₀, p.discover w = (.ok (p.features w.files), w₀)) ∧
      ∃ stems reports, p.ShowsStems (p.features w.files) stems reports ∧
        s = .ofReports reports := by
  have hacts := p.run_actsAs w
  rw [hrun] at hacts
  obtain ⟨hne, fs₁, hensure, hloop⟩ := runFiles_ok hacts.symm
  have hadds := Files.ensureDirectory_adds p.stepsDir htree.wellFormed
  rw [hensure] at hadds
  obtain ⟨w₀, hdiscover, -⟩ := p.discover_eq w
  rw [if_neg fun hempty => hne (List.isEmpty_iff.mp hempty)] at hdiscover
  exact ⟨⟨w₀, hdiscover⟩, processAll_ok hadds.wellFormed
    (Files.ensureDirectory_ok htree.wellFormed (stepsDir_text_ne_nil haccepted) hensure)
    (fun f hf => exists_outputName_of_mem_features htree haccepted hsuffix hf) hloop⟩

/-- Two feature files in one directory have different stub files. -/
theorem exists_outputs_ne (htree : IsTree fs) (haccepted : p.config.problem? = none)
    (hsuffix : '/' ∉ p.config.outputSuffix) (hf : f ∈ p.features fs) (hg : g ∈ p.features fs)
    (hsame : (fs.spot f).dropLast = (fs.spot g).dropLast) (hne : f ≠ g) :
    ∃ output output', p.outputPath f = .ok output ∧ p.outputPath g = .ok output' ∧
      fs.spot output ≠ fs.spot output' := by
  obtain ⟨n, hn, hn'⟩ := exists_outputName_of_mem_features htree haccepted hsuffix hf
  obtain ⟨m, hm, hm'⟩ := exists_outputName_of_mem_features htree haccepted hsuffix hg
  have hdirectory := isDirectory_of_mem_features hf
  rw [Project.features, if_pos hdirectory] at hf hg
  have hnm : n ≠ m := by
    rintro rfl
    exact hne (FileSystem.eq_of_stem?_eq htree.wellFormed htree.names hdirectory hf hg hsame
      (stem?_eq_of_outputName?_eq hn hm))
  exact ⟨_, _, outputPath_eq_ok_iff.mpr ⟨n, hn, rfl⟩, outputPath_eq_ok_iff.mpr ⟨m, hm, rfl⟩,
    spot_outputAt_ne hn' hm' hnm⟩

/-- The stub files that a run lists as overwritten are those of the stems that occurred before among
the feature files, so there are none if the stems are all different, and else as many as there are
feature files more than stems.  Feature files in one directory never share a stub file. -/
theorem run_reports_overwritten (htree : IsTree w.files) (haccepted : p.config.problem? = none)
    (hsuffix : '/' ∉ p.config.outputSuffix) :
    (∀ s w', p.run w = (.ok s, w') → ∃ features stems w₀,
      p.discover w = (.ok features, w₀) ∧ features.map Path.stem? = stems.map some ∧
      s.overwritten = (repeated stems).map p.shownOutput ∧
      (s.overwritten = [] ↔ stems.Nodup) ∧
      s.overwritten.length + stems.toFinset.card = features.length) ∧
    ∀ features w₀, p.discover w = (.ok features, w₀) → ∀ f ∈ features, ∀ g ∈ features,
      (w.files.spot f).dropLast = (w.files.spot g).dropLast → f ≠ g →
        ∃ output output', p.outputPath f = .ok output ∧ p.outputPath g = .ok output' ∧
          w.files.spot output ≠ w.files.spot output' := by
  constructor
  · intro s w' hrun
    obtain ⟨⟨w₀, hdiscover⟩, stems, reports, hshows, rfl⟩ := run_ok htree haccepted hsuffix hrun
    have hoverwritten := hshows.overwritten_eq
    refine ⟨_, stems, w₀, hdiscover, hshows.stem, hoverwritten, ?_, ?_⟩
    · rw [hoverwritten, List.map_eq_nil_iff, repeated_eq_nil_iff]
    · have hlength := congrArg List.length hshows.stem
      rw [List.length_map, List.length_map] at hlength
      rw [hoverwritten, List.length_map, hlength, length_eq_card_add_length_repeated stems,
        add_comm]
  · intro features w₀ hdiscover f hf g hg
    rw [← features_eq_of_discover hdiscover] at hf hg
    exact exists_outputs_ne htree haccepted hsuffix hf hg

/-- A tree with two feature files of one name, in two directories. -/
def twoLoginsTree : FileSystem :=
  ⟨.directory [("tests".toList, .directory [("features".toList, .directory
    [("b".toList, .directory [("login.feature".toList, .file .empty)]),
     ("a".toList, .directory [("logout.feature".toList, .file .empty),
       ("login.feature".toList, .file .empty)])])])], []⟩

def twoLogins : List Path :=
  [.ofString "/tests/features/a/login.feature", .ofString "/tests/features/a/logout.feature",
    .ofString "/tests/features/b/login.feature"]

theorem features_twoLoginsTree :
    (Project.mk ⟨['/']⟩ .default).features twoLoginsTree = twoLogins := by
  have hdirectory : twoLoginsTree.isDirectory (Project.mk ⟨['/']⟩ .default).featuresDir = true := by
    decide +kernel
  rw [Project.features, if_pos hdirectory]
  cbv

theorem exists_run_twoLoginsTree :
    ∃ s w', (Project.mk ⟨['/']⟩ .default).run (.start twoLoginsTree) = (.ok s, w') := by
  have hensured : (Files.ensureDirectory (Project.mk ⟨['/']⟩ .default).stepsDir
      twoLoginsTree).1.isOk = true := by decide +kernel
  have hprocessed : ((Project.mk ⟨['/']⟩ .default).processAll twoLogins .empty
      (Files.ensureDirectory (Project.mk ⟨['/']⟩ .default).stepsDir twoLoginsTree).2).1.isOk =
        true := by decide +kernel
  rcases hensure : Files.ensureDirectory (Project.mk ⟨['/']⟩ .default).stepsDir twoLoginsTree with
    ⟨e | _, fs₁⟩
  · rw [hensure] at hensured
    exact absurd hensured Bool.false_ne_true
  rw [hensure] at hprocessed
  rcases hloop : (Project.mk ⟨['/']⟩ .default).processAll twoLogins .empty fs₁ with ⟨e | s, t⟩
  · rw [hloop] at hprocessed
    exact absurd hprocessed Bool.false_ne_true
  have hfiles := (runFiles_eq features_twoLoginsTree (List.cons_ne_nil _ _) hensure).trans hloop
  obtain ⟨w', hrun, -⟩ := run_eq_of_runFiles_eq (w := .start twoLoginsTree) hfiles
  exact ⟨s, w', hrun⟩

/-- A run over that tree reports the stub file of that name, and only that one. -/
theorem run_twoLoginsTree_reports :
    IsTree twoLoginsTree ∧ Config.default.problem? = none ∧ '/' ∉ Config.default.outputSuffix ∧
      ∃ s w', (Project.mk ⟨['/']⟩ .default).run (.start twoLoginsTree) = (.ok s, w') ∧
        s.overwritten = ["tests/steps/login.steps.ts".toList] := by
  have htree : IsTree twoLoginsTree := by
    refine ⟨?_, ?_⟩
    · simp only [twoLoginsTree, Files.Node.WellFormed, Files.Node.EntriesWellFormed]
      decide
    · rw [FileSystem.NamesValid]
      decide +kernel
  obtain ⟨s, w', hrun⟩ := exists_run_twoLoginsTree
  refine ⟨htree, by decide, by decide, s, w', hrun, ?_⟩
  obtain ⟨features, stems, w₀, hdiscover, hstems, hoverwritten, -, -⟩ :=
    (run_reports_overwritten (p := ⟨⟨['/']⟩, .default⟩) (w := .start twoLoginsTree) htree
      (by decide) (by decide)).1 s w' hrun
  have hfeatures : twoLogins = features :=
    features_twoLoginsTree.symm.trans (features_eq_of_discover hdiscover)
  have hnames : twoLogins.map Path.stem? =
      ["login".toList, "logout".toList, "login".toList].map some := by decide
  rw [← hfeatures, hnames] at hstems
  rw [hoverwritten, ← List.map_injective_iff.mpr (Option.some_injective Text) hstems]
  decide +kernel

end Project
end Run
end StepStubs
