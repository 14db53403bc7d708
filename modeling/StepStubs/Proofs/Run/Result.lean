/-
The result of a run.

A run that succeeds leaves the stub files of all feature files, where the last feature file
with a stem decides, and has reported of each feature file what processing it alone would
have reported.  A run that fails leaves the stub files of the feature files before the one
it failed at.  Nothing else changes but temporary files and the directories on the way to the
stub files, and running once more changes nothing.

For that, the feature files and the stub files have to be in different parts of the tree, and
no stub file may have the name of another's temporary file.
-/
import StepStubs.Config.Problem
import StepStubs.Proofs.Files.Making
import StepStubs.Proofs.Run.Loop

namespace StepStubs
namespace Run

open StepStubs.Path (IsName)
open Files (FileSystem Location Name temporaryName temporaryPath)

/-- Are the names in each directory of the tree different, and can they be names of files? -/
structure IsTree (fs : FileSystem) : Prop where
  wellFormed : fs.root.WellFormed
  names : fs.NamesValid

namespace Project

variable {p : Project} {fs fs₁ t : FileSystem} {features done : List Path} {f : Path}

/-! ## Projects whose stub files stay apart -/

/-- Can the configuration be used, and do the stub files stay apart from the feature files and
from each other's temporary files? -/
structure IsApart (p : Project) (fs : FileSystem) : Prop where
  accepted : p.config.problem? = none
  suffix : '/' ∉ p.config.outputSuffix
  features_steps : ¬ fs.spot p.featuresDir <+: fs.spot p.stepsDir
  steps_features : ¬ fs.spot p.stepsDir <+: fs.spot p.featuresDir
  names : ∀ f ∈ p.features fs, ∀ g ∈ p.features fs, ∀ n m,
    p.outputName? f = some n → p.outputName? g = some m → n ≠ temporaryName m

theorem suffix_ne_nil (h : p.config.problem? = none) : p.config.outputSuffix ≠ [] := by
  intro hempty
  rw [Config.problem?, hempty] at h
  split at h
  · exact nomatch h
  · split at h <;> exact nomatch h

theorem stepsDir_text_ne_nil (h : p.config.problem? = none) : p.stepsDir.text ≠ [] := by
  have hsteps : p.config.stepsDir.text ≠ [] := by
    intro hempty
    rw [Config.problem?, if_pos (Or.inr hempty)] at h
    repeat' split at h
    all_goals exact nomatch h
  rw [stepsDir, Config.stepsIn, Path.join]
  split
  · exact hsteps
  · split
    · exact List.append_ne_nil_of_right_ne_nil _ hsteps
    · exact List.append_ne_nil_of_right_ne_nil _ (List.cons_ne_nil _ _)

theorem isDirectory_of_mem_features (hf : f ∈ p.features fs) :
    fs.isDirectory p.featuresDir = true := by
  rw [features] at hf
  by_cases h : fs.isDirectory p.featuresDir = true
  · exact h
  · rw [if_neg h] at hf
    exact absurd hf List.not_mem_nil

theorem isFound_of_mem_features (hfs : IsTree fs) (hf : f ∈ p.features fs) :
    fs.IsFound p.featuresDir f := by
  have hdir := isDirectory_of_mem_features hf
  rw [features, if_pos hdir] at hf
  exact FileSystem.isFound_of_mem hfs.wellFormed hfs.names hdir hf

/-- The stub file of each feature file that is found has a name, if only `..`. -/
theorem exists_outputName_of_mem_features (hfs : IsTree fs) (haccepted : p.config.problem? = none)
    (hsuffix : '/' ∉ p.config.outputSuffix) (hf : f ∈ p.features fs) :
    ∃ n, p.outputName? f = some n ∧ (IsName n ∨ n = ['.', '.']) := by
  obtain ⟨stem, hstem, hne, hslash⟩ := (isFound_of_mem_features hfs hf).stem
  exact ⟨_, by rw [outputName?, hstem, Option.map_some],
    isName_or_eq_dots hne (suffix_ne_nil haccepted) hslash hsuffix⟩

/-! ## The tree that the loop starts with -/

/-- The tree `fs₁` that the loop starts with, if `fs` was the tree before the run and feature
files were found in it. -/
structure Prepared (p : Project) (fs fs₁ : FileSystem) : Prop where
  tree : IsTree fs
  apart : p.IsApart fs
  featuresDir : fs.isDirectory p.featuresDir = true
  adds : fs.AddsDirectories p.stepsDir fs₁
  stepsDir : fs₁.isDirectory p.stepsDir = true

theorem Prepared.spot (h : p.Prepared fs fs₁) (q : Path) : fs₁.spot q = fs.spot q :=
  h.adds.keepsDirectories.spot q

theorem Prepared.view_spot (h : p.Prepared fs fs₁) (hf : fs.IsFound p.featuresDir f) :
    fs₁.view (fs.spot f) = fs.view (fs.spot f) := by
  obtain ⟨b, hb⟩ := hf.view
  rw [hb]
  exact h.adds.view_eq_file_iff.mpr hb

theorem Prepared.isFound (h : p.Prepared fs fs₁) (hf : fs.IsFound p.featuresDir f) :
    fs₁.IsFound p.featuresDir f := by
  obtain ⟨b, hb⟩ := hf.view
  have hview := h.view_spot hf
  refine ⟨?_, ⟨b, by rw [h.spot, hview, hb]⟩, ?_, hf.stem⟩
  · rw [h.spot, h.spot]
    exact hf.below
  · exact h.adds.keepsDirectories.reaches hf.reaches (by rw [hview, hb]; exact nofun)

theorem Prepared.isReady (h : p.Prepared fs fs₁) : p.IsReady (p.features fs) fs₁ where
  wellFormed := h.adds.wellFormed
  stepsDir := h.stepsDir
  featuresDir := by
    obtain ⟨-, -, hview⟩ := FileSystem.isDirectory_iff.mp h.featuresDir
    rw [h.spot]
    exact h.adds.keepsDirectories.directory _ hview
  apart := by
    rw [h.spot, h.spot]
    exact h.apart.features_steps
  found := fun _ hf => h.isFound (isFound_of_mem_features h.tree hf)
  output := fun _ hf =>
    exists_outputName_of_mem_features h.tree h.apart.accepted h.apart.suffix hf
  names := h.apart.names

/-- The feature files are the same after any part of the loop. -/
theorem Prepared.features_eq (h : p.Prepared fs fs₁) (hdone : ∀ f ∈ done, f ∈ p.features fs)
    (ht : fs₁.KeepsBut (p.Touched fs₁ done) t) : p.features t = p.features fs := by
  have hkeeps := h.adds.keepsDirectories.trans ht.keepsDirectories
  rw [features, features, if_pos h.featuresDir, if_pos (hkeeps.isDirectory h.featuresDir)]
  refine FileSystem.filesWithExtension_eq _ h.tree.wellFormed ht.wellFormed h.featuresDir hkeeps
    fun l b => ?_
  by_cases hl : l = []
  · obtain ⟨-, -, hview⟩ := FileSystem.isDirectory_iff.mp h.featuresDir
    rw [hl, List.append_nil, hview, hkeeps.directory _ hview]
  · have hnot := h.isReady.not_touched hdone hl
    rw [h.spot] at hnot
    rw [ht.view_of_not hnot]
    exact h.adds.view_eq_file_iff

/-- The feature files are read as they were before the run. -/
theorem Prepared.read (h : p.Prepared fs fs₁) (hf : f ∈ p.features fs) {content : Text} {n : Name}
    (hprocesses : p.Processes fs₁ f content n) : fs.readText f maxFeatureSize = .ok content := by
  have hfound := isFound_of_mem_features h.tree hf
  exact (hfound.readText_eq_ok_iff h.adds.keepsDirectories (h.view_spot hfound)).mp hprocesses.read

/-! ## A feature file alone -/

/-- A feature file that can be processed once the steps directory is there can be processed in
the tree before the run, and reports the same. -/
theorem Prepared.exists_processFiles (h : p.Prepared fs fs₁) (hf : f ∈ p.features fs)
    {content : Text} {n : Name} (hprocesses : p.Processes fs₁ f content n) :
    ∃ fs', p.processFiles f fs = (.ok (p.reportOf f content (p.outputAt n)), fs') := by
  obtain ⟨r, hr, hinner, habs, hprefix, hends⟩ :=
    (FileSystem.isEntryOf_join (Or.inl hprocesses.name) p.stepsDir).exists_parent
  obtain ⟨fs₂, hensure, hadds, hview⟩ := h.adds.exists_ensureDirectory h.tree.wellFormed h.stepsDir
    habs hinner (fun hne =>
      FileSystem.checkPath_of_prefix hprefix hne hprocesses.place.check) hends
  -- The tree with the directory for the stub file is the one that the loop starts with.
  have hsame : fs₁.KeepsBut (fun _ => False) fs₂ :=
    ⟨hadds.workingDirectory.trans h.adds.workingDirectory.symm, hadds.wellFormed,
      fun l => Or.inl (hview l)⟩
  have hprocesses₂ := hprocesses.of_keepsBut hsame
    (h.isFound (isFound_of_mem_features h.tree hf)) id
  obtain ⟨fs', hfs'⟩ := Files.exists_replaceIn hadds.wellFormed hprocesses₂.temporary
    hprocesses₂.place hprocesses₂.size
  have hfor : Files.directoryFor (p.outputAt n) = r := by
    rw [Files.directoryFor, outputAt, hr]
    rfl
  refine ⟨fs', ?_⟩
  rw [processFiles_of_read (h.read hf hprocesses) hprocesses.output, Files.writeAtomically_run,
    hfor, hensure]
  simp only [hfs']

/-- Processing a feature file in a world is processing it in the tree of the world. -/
theorem process_eq_of_processFiles_eq {w : World} {r : Report} {fs' : FileSystem}
    (h : p.processFiles f w.files = (.ok r, fs')) : ∃ w', p.process f w = (.ok r, w') := by
  obtain ⟨w', hrun, -⟩ := (p.process_actsAs f).exists_run w
  rw [h] at hrun
  exact ⟨w', hrun⟩

/-! ## What a run leaves -/

/-- Does the tree `fs'` hold the stub file of a feature file of `fs`, and no temporary file for
it? -/
def HasStubs (p : Project) (fs : FileSystem) (f : Path) (fs' : FileSystem) : Prop :=
  ∃ content output, fs.readText f maxFeatureSize = .ok content ∧ p.outputPath f = .ok output ∧
    fs'.contentOf output =
      .ok (Text.utf8 (Stub.file (StepSet.ofList (Feature.compiledSteps content))
        (Feature.compiledSteps content).length (p.relative f) p.config.cucumberModule)) ∧
    fs'.view (fs'.spot (temporaryPath output)) = none

/-- Does the tree `fs'` hold the stub files of feature files of `fs`?  Where several have the
same stem, the last one counts. -/
def IsComplete (p : Project) (fs : FileSystem) (done : List Path) (fs' : FileSystem) : Prop :=
  ∀ before f after, done = before ++ f :: after → (∀ g ∈ after, g.stem? ≠ f.stem?) →
    p.HasStubs fs f fs'

/-- Is the tree `fs'` the same as `fs` but for files at some locations and the directories that
were missing on the way to the stub files? -/
structure ChangesOnly (p : Project) (fs : FileSystem) (touched : Location → Prop)
    (fs' : FileSystem) : Prop where
  workingDirectory : fs'.workingDirectory = fs.workingDirectory
  view : ∀ l, fs'.view l = fs.view l ∨
    touched l ∧ fs.view l ≠ some none ∧ fs'.view l ≠ some none ∨
    fs.OnWay p.stepsDir l ∧ fs.view l = none ∧ fs'.view l = some none

theorem ChangesOnly.mono {touched touched' : Location → Prop} (h : p.ChangesOnly fs touched t)
    (hsub : ∀ l, touched l → touched' l) : p.ChangesOnly fs touched' t :=
  ⟨h.workingDirectory, fun l => (h.view l).imp_right (Or.imp_left fun ht => ⟨hsub l ht.1, ht.2⟩)⟩

theorem HoldsStubs.hasStubs {touched : Location → Prop} {content : Text} {n : Name}
    (h : p.HoldsStubs fs₁ f content n t) (hkeeps : fs₁.KeepsBut touched t)
    (hprocesses : p.Processes fs₁ f content n)
    (hread : fs.readText f maxFeatureSize = .ok content) : p.HasStubs fs f t := by
  obtain ⟨hview, htemporary⟩ := h
  have hspot : ∀ q, t.spot q = fs₁.spot q := hkeeps.keepsDirectories.spot
  refine ⟨content, p.outputAt n, hread, outputPath_eq_ok_iff.mpr ⟨n, hprocesses.output, rfl⟩,
    ?_, ?_⟩
  · refine (hprocesses.place.of_keepsDirectories hkeeps.keepsDirectories ?_).contentOf_eq ?_
    · rw [hview]
      exact nofun
    · rw [hspot]
      exact hview
  · rw [hspot]
    exact htemporary

theorem Prepared.changesOnly {touched : Location → Prop} (h : p.Prepared fs fs₁)
    (hkeeps : fs₁.KeepsBut touched t) : p.ChangesOnly fs touched t := by
  refine ⟨hkeeps.workingDirectory.trans h.adds.workingDirectory, fun l => ?_⟩
  rcases hkeeps.view l with hsame | ⟨ht, hold, hnew⟩
  · rw [hsame]
    exact (h.adds.view l).imp_right Or.inr
  · rcases h.adds.view l with hsame | ⟨-, -, hdir⟩
    · exact Or.inr (Or.inl ⟨ht, hsame ▸ hold, hnew⟩)
    · exact absurd hdir hold

theorem Prepared.touched_iff (h : p.Prepared fs fs₁) {l : Location} :
    p.Touched fs₁ done l ↔ p.Touched fs done l := by
  have htemporary : ∀ q, fs₁.temporarySpot q = fs.temporarySpot q := fun q => h.spot _
  simp only [Touched, h.spot, htemporary]

/-- The stub files of the feature files that were processed are complete. -/
theorem Reached.isComplete (h : p.Reached fs₁ done t) (hprepared : p.Prepared fs fs₁)
    (hdone : ∀ f ∈ done, f ∈ p.features fs) : p.IsComplete fs done t := by
  intro before f after heq hlast
  have hf : f ∈ done := heq ▸ List.mem_append_right _ List.mem_cons_self
  obtain ⟨content, n, hprocesses⟩ := h.processes f hf
  exact (h.written before f after content n heq hprocesses hlast).hasStubs h.keeps hprocesses
    (hprepared.read (hdone f hf) hprocesses)

/-! ## A run that succeeds -/

/-- What a run that succeeds has done to the world `w`, if `w'` is the world after it. -/
structure Completes (p : Project) (w : World) (s : Summary) (w' : World) : Prop where
  found : ∃ w₀, p.discover w = (.ok (p.features w.files), w₀)
  isComplete : p.IsComplete w.files (p.features w.files) w'.files
  changes : p.ChangesOnly w.files (p.Touched w.files (p.features w.files)) w'.files
  /-- Each report is the one that processing the feature file alone gives. -/
  reports : List.Forall₂ (fun f r => ∃ w₁, p.process f w = (.ok r, w₁))
    (p.features w.files) s.files
  summary : s = .ofReports s.files
  /-- Another run has the same summary and leaves the tree as it is. -/
  again : ∃ w'', p.run w' = (.ok s, w'') ∧
    w''.files.workingDirectory = w'.files.workingDirectory ∧
    ∀ l, w''.files.view l = w'.files.view l

theorem discover_eq (p : Project) (w : World) :
    ∃ w₀, p.discover w =
        (if (p.features w.files).isEmpty then
          .error (.noFeatureFiles p.featuresDir p.config.featureExtension)
        else .ok (p.features w.files), w₀) ∧ w₀.files = w.files := by
  obtain ⟨w₀, hrun, hfiles⟩ := p.discover_actsAs.exists_run w
  refine ⟨w₀, hrun.trans ?_, hfiles.trans ?_⟩
  · simp only [apply_ite Prod.fst]
  · simp only [apply_ite Prod.snd, ite_self]

theorem features_eq_of_discover {w w₀ : World} (h : p.discover w = (.ok features, w₀)) :
    p.features w.files = features := by
  obtain ⟨w₁, hw₁, -⟩ := p.discover_eq w
  rw [h] at hw₁
  have hresult := (Prod.mk.inj hw₁).1
  split at hresult
  · exact nomatch hresult
  · exact (Except.ok.inj hresult).symm

theorem files_foldl_record (rs : List Report) (s : Summary) :
    (rs.foldl Summary.record s).files = s.files ++ rs := by
  induction rs generalizing s with
  | nil => exact (List.append_nil _).symm
  | cons r rs ih =>
    rw [List.foldl_cons, ih]
    show (s.files ++ [r]) ++ rs = _
    rw [List.append_assoc, List.singleton_append]

theorem prepared_of_ensureDirectory (htree : IsTree fs) (hapart : p.IsApart fs)
    (hne : p.features fs ≠ []) (h : Files.ensureDirectory p.stepsDir fs = (.ok (), fs₁)) :
    p.Prepared fs fs₁ := by
  obtain ⟨f, hf⟩ := List.exists_mem_of_ne_nil _ hne
  have hadds := Files.ensureDirectory_adds p.stepsDir htree.wellFormed
  rw [h] at hadds
  exact ⟨htree, hapart, isDirectory_of_mem_features hf, hadds,
    Files.ensureDirectory_ok htree.wellFormed (stepsDir_text_ne_nil hapart.accepted) h⟩

theorem runFiles_eq {found : List Path} (hfeatures : p.features fs = found) (hne : found ≠ [])
    (h : Files.ensureDirectory p.stepsDir fs = (.ok (), fs₁)) :
    p.runFiles fs = p.processAll found .empty fs₁ := by
  have hempty : ¬ found.isEmpty = true := fun he => hne (List.isEmpty_iff.mp he)
  rw [runFiles, hfeatures, if_neg hempty, h]

theorem runFiles_ok {s : Summary} (h : p.runFiles fs = (.ok s, t)) :
    p.features fs ≠ [] ∧ ∃ fs₁, Files.ensureDirectory p.stepsDir fs = (.ok (), fs₁) ∧
      p.processAll (p.features fs) .empty fs₁ = (.ok s, t) := by
  unfold runFiles at h
  by_cases hempty : (p.features fs).isEmpty = true
  · rw [if_pos hempty] at h
    exact nomatch (Prod.mk.inj h).1
  · rw [if_neg hempty] at h
    rcases hensure : Files.ensureDirectory p.stepsDir fs with ⟨e | _, fs₁⟩
    · rw [hensure] at h
      exact nomatch (Prod.mk.inj h).1
    · rw [hensure] at h
      exact ⟨fun hnil => hempty (List.isEmpty_iff.mpr hnil), fs₁, rfl, h⟩

theorem run_eq_of_runFiles_eq {w : World} {s : Summary} (h : p.runFiles w.files = (.ok s, t)) :
    ∃ w', p.run w = (.ok s, w') ∧ w'.files = t := by
  obtain ⟨w', hrun, hfiles⟩ := p.run_actsAs.exists_run w
  rw [h] at hrun hfiles
  exact ⟨w', hrun, hfiles⟩

theorem completes_of_run_ok {w w' : World} {s : Summary} (htree : IsTree w.files)
    (hapart : p.IsApart w.files) (h : p.run w = (.ok s, w')) : p.Completes w s w' := by
  have hacts := p.run_actsAs w
  rw [h] at hacts
  obtain ⟨hne, fs₁, hensure, hloop⟩ := runFiles_ok hacts.symm
  have hprepared := prepared_of_ensureDirectory htree hapart hne hensure
  have hready := hprepared.isReady
  obtain ⟨hreached, reports, hreports, hs⟩ :=
    (Reached.start hready.wellFormed).processAll_ok hready (fun _ hg => hg) hloop
  rw [List.nil_append] at hreached
  have hfiles : s.files = reports := by
    rw [hs, files_foldl_record]
    rfl
  obtain ⟨w₀, hdiscover, -⟩ := p.discover_eq w
  rw [if_neg fun hempty => hne (List.isEmpty_iff.mp hempty)] at hdiscover
  refine ⟨⟨w₀, hdiscover⟩, hreached.isComplete hprepared fun _ hf => hf, ?_, ?_,
    by rw [hfiles]; exact hs, ?_⟩
  · exact (hprepared.changesOnly hreached.keeps).mono fun l => hprepared.touched_iff.mp
  · rw [hfiles]
    refine ((List.forall₂_and_left _ _).mpr ⟨fun _ hf => hf, hreports⟩).imp fun f r h => ?_
    obtain ⟨hf, content, n, hprocesses, rfl⟩ := h
    obtain ⟨fs', hfs'⟩ := hprepared.exists_processFiles hf hprocesses
    exact process_eq_of_processFiles_eq hfs'
  · -- The second run starts where the first one ended.
    obtain ⟨t', hloop', hworking, hview⟩ :=
      hreached.processAll_again (s := .empty) hready hreports
    have hfeatures := hprepared.features_eq (fun _ hf => hf) hreached.keeps
    have hrun := runFiles_eq hfeatures hne
      (Files.ensureDirectory_of_isDirectory (hreached.isDirectory hready))
    obtain ⟨w'', hrun', hfiles'⟩ := run_eq_of_runFiles_eq (hrun.trans hloop')
    refine ⟨w'', ?_, ?_, ?_⟩
    · rw [hrun', hs]
    · rw [hfiles', hworking]
    · rw [hfiles']
      exact hview

/-! ## A run that fails -/

/-- What a run that fails has done to the world `w`, if `w'` is the world after it. -/
inductive BreaksOff (p : Project) (w : World) (e : Failure) (w' : World) : Prop where
  | notFound (features : p.features w.files = [])
      (failure : e = .noFeatureFiles p.featuresDir p.config.featureExtension)
      (files : w'.files = w.files)
  | unprepared (cause : Files.Failure) (failure : e = .files cause)
      (prepare : Files.ensureDirectory p.stepsDir w.files = (.error cause, w'.files))
      (changes : p.ChangesOnly w.files (fun _ => False) w'.files)
  /-- The run got through the feature files `before`, which left the world `w₁`, and failed at
  `f`. -/
  | at (before : List Path) (f : Path) (after : List Path) (w₀ w₁ : World) (s : Summary)
      (features : p.features w.files = before ++ f :: after)
      (found : p.discover w = (.ok (p.features w.files), w₀))
      (passes : p.runOver before w₀ = (.ok s, w₁))
      (fails : p.process f w₁ = (.error e, w'))
      (isComplete : p.IsComplete w.files before w'.files)
      (changes : p.ChangesOnly w.files
        (fun l => p.Touched w.files before l ∨
          ∃ output, p.outputPath f = .ok output ∧ l = w.files.temporarySpot output) w'.files)

/-- Losing a temporary file takes nothing away from the stub file of another feature file. -/
theorem HoldsStubs.of_losesTemporary {g : Path} {t' : FileSystem} {content : Text} {m n : Name}
    (h : p.HoldsStubs fs g content m t) (hdirs : fs.KeepsDirectories t)
    (hlost : t.LosesTemporary (p.outputAt n) t')
    (hne : fs.spot (p.outputAt m) ≠ fs.temporarySpot (p.outputAt n)) :
    p.HoldsStubs fs g content m t' := by
  obtain ⟨hview, htemporary⟩ := h
  have hspot : t.temporarySpot (p.outputAt n) = fs.temporarySpot (p.outputAt n) := hdirs.spot _
  obtain ⟨hkeeps, hgone⟩ := hlost
  rw [hspot] at hkeeps hgone
  refine ⟨by rw [hkeeps.view_of_not hne, hview], ?_⟩
  by_cases hsame : fs.temporarySpot (p.outputAt m) = fs.temporarySpot (p.outputAt n)
  · rw [hsame] at htemporary ⊢
    rcases hgone with hgone | hgone
    · rw [hgone, htemporary]
    · exact hgone
  · rw [hkeeps.view_of_not hsame, htemporary]

/-- No output stands where another's temporary file would stand. -/
theorem spot_outputAt_ne_temporarySpot {m n : Name} (hsteps : fs.spot p.stepsDir ≠ [])
    (hm : IsName m) (hn : IsName n ∨ n = ['.', '.']) (hmn : m ≠ temporaryName n) :
    fs.spot (p.outputAt m) ≠ fs.temporarySpot (p.outputAt n) := by
  rw [outputAt, outputAt, FileSystem.spot_join hm]
  rcases hn with hn | rfl
  · rw [FileSystem.temporarySpot_join hn]
    exact fun heq => hmn (List.cons.inj (List.append_cancel_left heq)).1
  · -- The one is a level deeper in the tree than the other.
    rw [FileSystem.temporarySpot_join_dots]
    intro heq
    have hlength := congrArg List.length heq
    have hpos := List.length_pos_iff.mpr hsteps
    rw [List.length_append, List.length_append, List.length_dropLast, List.length_singleton,
      List.length_singleton] at hlength
    omega

theorem runOver_run (p : Project) (features : List Path) (w : World) :
    p.runOver features w =
      match p.prepare w with
      | (.ok (), w') => features.foldlM p.step .empty w'
      | (.error e, w') => (.error e, w') := by
  rw [runOver, Files.run_bind]
  rcases p.prepare w with ⟨_ | _, _⟩ <;> rfl

theorem process_of_step_error {s : Summary} {w w' : World} {e : Failure}
    (h : p.step s f w = (.error e, w')) : p.process f w = (.error e, w') := by
  rw [step, Files.run_bind] at h
  rcases hprocess : p.process f w with ⟨e' | r, w₁⟩
  · rw [hprocess] at h
    obtain ⟨he, hw⟩ := Prod.mk.inj h
    rw [Except.error.inj he, hw]
  · rw [hprocess] at h
    obtain ⟨w₂, hrecord, -⟩ := (record_actsAs s r).exists_run w₁
    exact nomatch (Prod.mk.inj (h.symm.trans hrecord)).1

/-- The stub files of the feature files before the one that a run fails at. -/
theorem Reached.isComplete_of_losesTemporary {t' : FileSystem} {n : Name}
    (h : p.Reached fs₁ done t) (hprepared : p.Prepared fs fs₁)
    (hdone : ∀ g ∈ done, g ∈ p.features fs) (hf : f ∈ p.features fs)
    (hn : p.outputName? f = some n) (hlost : t.LosesTemporary (p.outputAt n) t') :
    p.IsComplete fs done t' ∧
      fs₁.KeepsBut (fun l => p.Touched fs₁ done l ∨ l = fs₁.temporarySpot (p.outputAt n)) t' := by
  have hready := hprepared.isReady
  obtain ⟨n', hn', hname⟩ := hready.output f hf
  rw [← Option.some.inj (hn.symm.trans hn')] at hname
  have hdirs := h.keeps.keepsDirectories
  have htemporary : t.temporarySpot (p.outputAt n) = fs₁.temporarySpot (p.outputAt n) :=
    hdirs.spot _
  have hsteps : fs₁.spot p.stepsDir ≠ [] := by
    intro hnil
    rw [hprepared.spot] at hnil
    exact hprepared.apart.steps_features (hnil ▸ List.nil_prefix)
  have hkeeps : fs₁.KeepsBut
      (fun l => p.Touched fs₁ done l ∨ l = fs₁.temporarySpot (p.outputAt n)) t' := by
    refine (h.keeps.mono fun l hl => Or.inl hl).trans (hlost.keeps.mono fun l hl => Or.inr ?_)
    rw [hl, htemporary]
  refine ⟨?_, hkeeps⟩
  intro before g after heq hlast
  have hg : g ∈ done := heq ▸ List.mem_append_right _ List.mem_cons_self
  obtain ⟨content, m, hprocesses⟩ := h.processes g hg
  have hholds := h.written before g after content m heq hprocesses hlast
  refine (hholds.of_losesTemporary hdirs hlost ?_).hasStubs hkeeps hprocesses
    (hprepared.read (hdone g hg) hprocesses)
  exact spot_outputAt_ne_temporarySpot hsteps hprocesses.name hname
    (hready.names g (hdone g hg) f hf m n hprocesses.output hn)

/-- A run that fails at a feature file, after those before it. -/
theorem breaksOff_of_process_error {before after : List Path} {w w₀ w₁ w₂ w' : World}
    {s : Summary} {e : Failure} (hprepared : p.Prepared w.files w₁.files)
    (hfeatures : p.features w.files = before ++ f :: after)
    (hfound : p.discover w = (.ok (p.features w.files), w₀))
    (hprepare : p.prepare w₀ = (.ok (), w₁))
    (hbefore : before.foldlM p.step .empty w₁ = (.ok s, w₂))
    (hfails : p.process f w₂ = (.error e, w')) : p.BreaksOff w e w' := by
  have hready := hprepared.isReady
  have hmem : ∀ g ∈ before, g ∈ p.features w.files := fun g hg =>
    hfeatures ▸ List.mem_append_left _ hg
  have hf : f ∈ p.features w.files := hfeatures ▸ List.mem_append_right _ List.mem_cons_self
  have hloop := p.foldlM_step_actsAs before .empty w₁
  rw [hbefore] at hloop
  obtain ⟨hreached, -⟩ := (Reached.start hready.wellFormed).processAll_ok hready hmem hloop.symm
  rw [List.nil_append] at hreached
  have hstep := p.process_actsAs f w₂
  rw [hfails] at hstep
  obtain ⟨n, hn, hname⟩ := hready.output f hf
  -- The feature file that fails costs at most a temporary file.
  have hlost := processFiles_error hreached.keeps.wellFormed (hreached.isDirectory hready) hn
    hname hstep.symm
  obtain ⟨hcomplete, hkeeps⟩ := hreached.isComplete_of_losesTemporary hprepared hmem hf hn hlost
  have hpasses : p.runOver before w₀ = (.ok s, w₂) := by
    rw [runOver_run, hprepare]
    exact hbefore
  refine .at before f after w₀ w₂ s hfeatures hfound hpasses hfails hcomplete
    ((hprepared.changesOnly hkeeps).mono fun l hl => ?_)
  refine hl.imp hprepared.touched_iff.mp fun hl => ⟨_, outputPath_eq_ok_iff.mpr ⟨n, hn, rfl⟩, ?_⟩
  rw [hl]
  exact hprepared.spot _

theorem breaksOff_of_run_error {w w' : World} {e : Failure} (htree : IsTree w.files)
    (hapart : p.IsApart w.files) (h : p.run w = (.error e, w')) : p.BreaksOff w e w' := by
  obtain ⟨w₀, hdiscover, hfiles₀⟩ := p.discover_eq w
  rw [run_eq, Files.run_bind] at h
  by_cases hempty : (p.features w.files).isEmpty = true
  · rw [if_pos hempty] at hdiscover
    rw [hdiscover] at h
    obtain ⟨he, hw⟩ := Prod.mk.inj h
    exact .notFound (List.isEmpty_iff.mp hempty) (Except.error.inj he).symm (hw ▸ hfiles₀)
  · rw [if_neg hempty] at hdiscover
    rw [hdiscover] at h
    obtain ⟨w₁, hprepare, hfiles₁⟩ := p.prepare_actsAs.exists_run w₀
    rw [Files.run_adapt, hfiles₀] at hprepare hfiles₁
    have hrun : p.runOver (p.features w.files) w₀ = (.error e, w') := h
    rw [runOver_run, hprepare] at hrun
    rcases hensure : Files.ensureDirectory p.stepsDir w.files with ⟨cause | _, fs₁⟩
    · rw [hensure] at hrun hfiles₁
      obtain ⟨he, hw⟩ := Prod.mk.inj hrun
      have hadds := Files.ensureDirectory_adds p.stepsDir htree.wellFormed
      rw [hensure] at hadds
      have hfs₁ : w'.files = fs₁ := by
        rw [← hw]
        exact hfiles₁
      refine .unprepared cause (Except.error.inj he).symm ?_ ?_
      · rw [hensure, hfs₁]
      · rw [hfs₁]
        exact ⟨hadds.workingDirectory, fun l => (hadds.view l).imp_right Or.inr⟩
    · rw [hensure] at hrun hfiles₁ hprepare
      have hfiles₁ : w₁.files = fs₁ := hfiles₁
      obtain ⟨before, f, after, s, w₂, heq, hbefore, hfails⟩ := foldlM_error hrun
      have hne : p.features w.files ≠ [] := fun hnil => hempty (List.isEmpty_iff.mpr hnil)
      exact breaksOff_of_process_error
        (hfiles₁.symm ▸ prepared_of_ensureDirectory htree hapart hne hensure) heq hdiscover hprepare
        hbefore (process_of_step_error hfails)

/-! ## Any run -/

/-- Without a configuration of its own, every project keeps its stub files apart. -/
theorem isApart_default (root : Path) (fs : FileSystem) :
    (Project.mk root .default).IsApart fs := by
  have hfeatures : fs.spot (Project.mk root .default).featuresDir =
      fs.spot root ++ ["tests".toList, "features".toList] :=
    FileSystem.spot_join_names (q := Config.default.featuresDir) (by decide) (by decide) root
  have hsteps : fs.spot (Project.mk root .default).stepsDir =
      fs.spot root ++ ["tests".toList, "steps".toList] :=
    FileSystem.spot_join_names (q := Config.default.stepsDir) (by decide) (by decide) root
  refine ⟨show Config.default.problem? = none by decide,
    show '/' ∉ Config.default.outputSuffix by decide, ?_, ?_, ?_⟩
  · rw [hfeatures, hsteps, List.prefix_append_right_inj]
    decide
  · rw [hfeatures, hsteps, List.prefix_append_right_inj]
    decide
  · -- An output name ends in another letter than the name of a temporary file.
    intro f _ g _ n m hn hm heq
    obtain ⟨stem, -, hn⟩ := Option.map_eq_some_iff.mp hn
    have hlast := congrArg List.getLast? (hn.trans heq)
    unfold temporaryName at hlast
    rw [List.getLast?_append, List.getLast?_append] at hlast
    exact nomatch Option.some.inj hlast

/-- Every run over a project whose stub files stay apart completes or breaks off, as
`Completes` and `BreaksOff` tell, and the default configuration keeps them apart. -/
theorem run_completes_or_breaksOff :
    (∀ (root : Path) (fs : FileSystem), (Project.mk root .default).IsApart fs) ∧
      ∀ (p : Project) (w : World), IsTree w.files → p.IsApart w.files →
        match p.run w with
        | (.ok s, w') => p.Completes w s w'
        | (.error e, w') => p.BreaksOff w e w' := by
  refine ⟨isApart_default, fun p w htree hapart => ?_⟩
  rcases hrun : p.run w with ⟨e | s, w'⟩
  · exact breaksOff_of_run_error htree hapart hrun
  · exact completes_of_run_ok htree hapart hrun

/-- A tree with one feature file, where the default configuration looks for it. -/
def loginTree : FileSystem :=
  ⟨.directory [("tests".toList, .directory [("features".toList, .directory
    [("login.feature".toList, .file (Text.utf8 "Given a user\n".toList))])])], []⟩

theorem isTree_loginTree : IsTree loginTree := by
  refine ⟨?_, ?_⟩
  · simp only [loginTree, Files.Node.WellFormed, Files.Node.EntriesWellFormed]
    decide
  · rw [FileSystem.NamesValid]
    decide +kernel

/-- The run over that tree completes. -/
theorem run_loginTree_completes :
    IsTree loginTree ∧ (Project.mk ⟨['/']⟩ .default).IsApart loginTree ∧
      ∃ s w', (Project.mk ⟨['/']⟩ .default).run (.start loginTree) = (.ok s, w') ∧
        (Project.mk ⟨['/']⟩ .default).Completes (.start loginTree) s w' := by
  have hapart := run_completes_or_breaksOff.1 ⟨['/']⟩ loginTree
  have hok : ((Project.mk ⟨['/']⟩ .default).run (.start loginTree)).1.isOk = true := by
    decide +kernel
  have hresult := run_completes_or_breaksOff.2 _ (.start loginTree) isTree_loginTree hapart
  rcases hrun : (Project.mk ⟨['/']⟩ .default).run (.start loginTree) with ⟨e | s, w'⟩
  · rw [hrun] at hok
    exact absurd hok Bool.false_ne_true
  · rw [hrun] at hresult
    exact ⟨isTree_loginTree, hapart, s, w', rfl, hresult⟩

end Project
end Run
end StepStubs
