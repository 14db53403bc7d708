/-
Feature files that a run leaves alone.

A run writes a stub file and a temporary file for each feature file, and makes directories where
nothing was.  So a feature file keeps its content if it lies at none of those places
(`run_keeps_discovered`), however the configured directories lie to each other and wherever the run
breaks off.  Nothing keeps it from lying there: a configuration can give a feature file itself as
its stub file.
-/
import StepStubs.Proofs.Run.Result

namespace StepStubs

namespace Files
namespace FileSystem

variable {fs fs' : FileSystem}

/-! ## Trees that keep files -/

/-- Does the later tree have all directories, and all files but perhaps those at some of the
locations? -/
structure KeepsFilesBut (fs : FileSystem) (touched : Location → Prop) (fs' : FileSystem) :
    Prop where
  directories : fs.KeepsDirectories fs'
  wellFormed : fs'.root.WellFormed
  files : ∀ l b, ¬ touched l → fs.view l = some (some b) → fs'.view l = some (some b)

theorem KeepsFilesBut.refl (hfs : fs.root.WellFormed) (touched : Location → Prop) :
    fs.KeepsFilesBut touched fs :=
  ⟨⟨rfl, fun _ hl => hl⟩, hfs, fun _ _ _ hb => hb⟩

theorem KeepsFilesBut.trans {fs₁ fs₂ fs₃ : FileSystem} {touched : Location → Prop}
    (h : fs₁.KeepsFilesBut touched fs₂) (h' : fs₂.KeepsFilesBut touched fs₃) :
    fs₁.KeepsFilesBut touched fs₃ :=
  ⟨h.directories.trans h'.directories, h'.wellFormed,
    fun l b hl hb => h'.files l b hl (h.files l b hl hb)⟩

theorem KeepsFilesBut.mono {touched touched' : Location → Prop}
    (h : fs.KeepsFilesBut touched fs') (hsub : ∀ l, touched l → touched' l) :
    fs.KeepsFilesBut touched' fs' :=
  ⟨h.directories, h.wellFormed, fun l b hl => h.files l b fun ht => hl (hsub l ht)⟩

theorem KeepsBut.keepsFilesBut {touched : Location → Prop} (h : fs.KeepsBut touched fs') :
    fs.KeepsFilesBut touched fs' :=
  ⟨h.keepsDirectories, h.wellFormed, fun _ _ hl hb => (h.view_of_not hl).trans hb⟩

theorem AddsDirectories.keepsFilesBut {p : Path} (h : fs.AddsDirectories p fs')
    (touched : Location → Prop) : fs.KeepsFilesBut touched fs' :=
  ⟨h.keepsDirectories, h.wellFormed, fun _ _ _ => h.view_eq_file_iff.mpr⟩

/-- A file that is kept is read as before. -/
theorem KeepsFilesBut.contentOf_eq_ok_iff {touched : Location → Prop} {directory p : Path}
    (h : fs.KeepsFilesBut touched fs') (hp : fs.IsFound directory p)
    (hnot : ¬ touched (fs.spot p)) (b : ByteArray) :
    fs'.contentOf p = .ok b ↔ fs.contentOf p = .ok b := by
  obtain ⟨b', hb⟩ := hp.view
  have hb' : fs'.view (fs.spot p) = some (some b') := h.files _ _ hnot hb
  have hreaches : fs'.Reaches p := h.directories.reaches hp.reaches (by
    rw [hb']
    exact nofun)
  rw [FileSystem.contentOf_eq_ok_iff, FileSystem.contentOf_eq_ok_iff, h.directories.spot, hb, hb']
  exact and_congr_right fun _ => and_congr_left fun _ => iff_of_true hreaches hp.reaches

end FileSystem

open FileSystem (KeepsFilesBut)

variable {fs : FileSystem}

theorem replaceIn_keepsFilesBut (p : Path) (bytes : ByteArray) (hfs : fs.root.WellFormed) :
    fs.KeepsFilesBut (fun l => l = fs.spot p ∨ l = fs.temporarySpot p)
      (replaceIn p bytes fs).2 := by
  rcases h : replaceIn p bytes fs with ⟨e | _, fs'⟩
  · exact (replaceIn_error hfs h).keeps.keepsFilesBut.mono fun l hl => Or.inr hl
  · obtain ⟨htemporary, hplace, -, hreplaces⟩ := replaceIn_ok hfs h
    exact (hreplaces.keepsBut hplace.not_directory htemporary.not_directory).keepsFilesBut

/-- Writing a file touches the file and its temporary file only, even if it fails, and wherever
the file lies. -/
theorem writeAtomically_keepsFilesBut (p : Path) (bytes : ByteArray) (hfs : fs.root.WellFormed) :
    fs.KeepsFilesBut (fun l => l = fs.spot p ∨ l = fs.temporarySpot p)
      (writeAtomically p bytes fs).2 := by
  have hadds := ensureDirectory_adds (directoryFor p) hfs
  rw [writeAtomically_run]
  rcases hensure : ensureDirectory (directoryFor p) fs with ⟨e | _, fs₁⟩
  · rw [hensure] at hadds
    exact hadds.keepsFilesBut _
  · rw [hensure] at hadds
    refine (hadds.keepsFilesBut _).trans ?_
    have hreplaces := replaceIn_keepsFilesBut p bytes hadds.wellFormed
    have hspot : ∀ q, fs₁.spot q = fs.spot q := hadds.keepsDirectories.spot
    rw [FileSystem.temporarySpot, hspot, hspot] at hreplaces
    exact hreplaces

end Files

namespace Run
namespace Project

open Files (FileSystem Location)

variable {p : Project} {fs t : FileSystem} {features : List Path} {f : Path} {w : World}

/-! ## The files that a run writes -/

/-- Is this where the stub file of one of the feature files goes, or its temporary file? -/
def IsWritten (p : Project) (fs : FileSystem) (features : List Path) (l : Location) : Prop :=
  ∃ g ∈ features, ∃ output, p.outputPath g = .ok output ∧
    (l = fs.spot output ∨ l = fs.temporarySpot output)

theorem isWritten_eq (h : fs.KeepsDirectories t) (features : List Path) :
    p.IsWritten t features = p.IsWritten fs features := by
  funext l
  simp only [IsWritten, FileSystem.temporarySpot, h.spot]

theorem processFiles_keepsFilesBut (hf : f ∈ features) (ht : t.root.WellFormed) :
    t.KeepsFilesBut (p.IsWritten t features) (p.processFiles f t).2 := by
  rcases p.processFiles_cases f t with ⟨e, hfails⟩ | ⟨content, output, houtput, hruns⟩
  · rw [hfails]
    exact .refl ht _
  · have hwrites :=
      Files.writeAtomically_keepsFilesBut output (Text.utf8 (p.stubsOf f content)) ht
    have hwritten := hwrites.mono fun l hl =>
      (⟨f, hf, output, houtput, hl⟩ : p.IsWritten t features l)
    rw [hruns]
    rcases hwrite : Files.writeAtomically output (Text.utf8 (p.stubsOf f content)) t with
      ⟨_ | _, t'⟩
    · rw [hwrite] at hwritten
      exact hwritten
    · rw [hwrite] at hwritten
      exact hwritten

theorem processAll_keepsFilesBut {todo : List Path} (htodo : ∀ g ∈ todo, g ∈ features)
    (ht : t.root.WellFormed) (s : Summary) :
    t.KeepsFilesBut (p.IsWritten t features) (p.processAll todo s t).2 := by
  induction todo generalizing t s with
  | nil => exact .refl ht _
  | cons g todo ih =>
    have hstep := p.processFiles_keepsFilesBut (htodo g List.mem_cons_self) ht
    rw [processAll_cons]
    rcases hrun : p.processFiles g t with ⟨e | r, t'⟩
    · rw [hrun] at hstep
      exact hstep
    · rw [hrun] at hstep
      have hrest := ih (fun g' hg' => htodo g' (List.mem_cons_of_mem g hg')) hstep.wellFormed
        (s.record r)
      rw [isWritten_eq hstep.directories] at hrest
      exact hstep.trans hrest

theorem run_keepsFilesBut (p : Project) (hfs : w.files.root.WellFormed) :
    w.files.KeepsFilesBut (p.IsWritten w.files (p.features w.files)) (p.run w).2.files := by
  have hrun : (p.run w).2.files = (p.runFiles w.files).2 := congrArg Prod.snd (p.run_actsAs w)
  have hadds := Files.ensureDirectory_adds p.stepsDir hfs
  rw [hrun, runFiles]
  by_cases hempty : (p.features w.files).isEmpty = true
  · rw [if_pos hempty]
    exact .refl hfs _
  · rw [if_neg hempty]
    rcases hensure : Files.ensureDirectory p.stepsDir w.files with ⟨e | _, fs'⟩
    · rw [hensure] at hadds
      exact hadds.keepsFilesBut _
    · rw [hensure] at hadds
      have hloop := p.processAll_keepsFilesBut (fun g (hg : g ∈ p.features w.files) => hg)
        hadds.wellFormed .empty
      rw [isWritten_eq hadds.keepsDirectories] at hloop
      exact (hadds.keepsFilesBut _).trans hloop

/-- Whatever the outcome of a run, each file that was discovered at its start has the same content
at its end, unless it lies where the stub file of a discovered file goes, or its temporary file. -/
theorem run_keeps_discovered {w₀ : World} (htree : IsTree w.files)
    (hdiscover : p.discover w = (.ok features, w₀)) (hf : f ∈ features)
    (hnot : ∀ g ∈ features, ∀ output, p.outputPath g = .ok output →
      w.files.spot f ≠ w.files.spot output ∧ w.files.spot f ≠ w.files.temporarySpot output) :
    (∃ b, w.files.view (w.files.spot f) = some (some b) ∧
      (p.run w).2.files.view (w.files.spot f) = some (some b)) ∧
    ∀ b, (p.run w).2.files.contentOf f = .ok b ↔ w.files.contentOf f = .ok b := by
  -- What is discovered is what the run itself goes through.
  rw [← features_eq_of_discover hdiscover] at hf hnot
  have hkeeps := p.run_keepsFilesBut (w := w) htree.wellFormed
  have hfound := isFound_of_mem_features htree hf
  have hwritten : ¬ p.IsWritten w.files (p.features w.files) (w.files.spot f) := by
    rintro ⟨g, hg, output, houtput, hl⟩
    obtain ⟨hplace, htemporary⟩ := hnot g hg output houtput
    exact hl.elim hplace htemporary
  obtain ⟨b, hb⟩ := hfound.view
  exact ⟨⟨b, hb, hkeeps.files _ _ hwritten hb⟩, hkeeps.contentOf_eq_ok_iff hfound hwritten⟩

/-- The default configuration keeps the feature file of the tree with one. -/
theorem run_keeps_login :
    IsTree loginTree ∧
      ∀ b, ((Project.mk ⟨['/']⟩ .default).run (.start loginTree)).2.files.contentOf
          (.ofString "/tests/features/login.feature") = .ok b ↔
        loginTree.contentOf (.ofString "/tests/features/login.feature") = .ok b := by
  have hfound : ((Project.mk ⟨['/']⟩ .default).discover (.start loginTree)).1.toOption =
      some [.ofString "/tests/features/login.feature"] := by decide +kernel
  rcases hdiscover : (Project.mk ⟨['/']⟩ .default).discover (.start loginTree) with
    ⟨e | features, w₀⟩
  · rw [hdiscover] at hfound
    exact nomatch hfound
  · rw [hdiscover] at hfound
    obtain rfl : features = [.ofString "/tests/features/login.feature"] := Option.some.inj hfound
    refine ⟨isTree_loginTree,
      (run_keeps_discovered isTree_loginTree hdiscover List.mem_cons_self ?_).2⟩
    intro g hg output houtput
    rw [List.mem_singleton.mp hg] at houtput
    have hplace : (Project.mk ⟨['/']⟩ .default).outputPath
        (.ofString "/tests/features/login.feature") =
          .ok (.ofString "/tests/steps/login.steps.ts") := by decide
    rw [← Except.ok.inj (hplace.symm.trans houtput)]
    decide

/-- A configuration that is accepted, with which the stub file of a feature file is that file. -/
def selfWriting : Config :=
  ⟨.ofString "tests/features", .ofString "tests/features", "feature".toList, ".feature".toList,
    "@cucumber/cucumber".toList⟩

/-- A run with that configuration writes over the feature file. -/
theorem run_overwrites_login :
    selfWriting.problem? = none ∧ IsTree loginTree ∧
      ∃ features w₀ s w', (Project.mk ⟨['/']⟩ selfWriting).discover (.start loginTree) =
          (.ok features, w₀) ∧
        .ofString "/tests/features/login.feature" ∈ features ∧
        (Project.mk ⟨['/']⟩ selfWriting).run (.start loginTree) = (.ok s, w') ∧
        loginTree.contentOf (.ofString "/tests/features/login.feature") =
          .ok (Text.utf8 "Given a user\n".toList) ∧
        w'.files.contentOf (.ofString "/tests/features/login.feature") ≠
          .ok (Text.utf8 "Given a user\n".toList) := by
  have hfound : ((Project.mk ⟨['/']⟩ selfWriting).discover (.start loginTree)).1.toOption =
      some [.ofString "/tests/features/login.feature"] := by decide +kernel
  have hok : ((Project.mk ⟨['/']⟩ selfWriting).run (.start loginTree)).1.isOk = true := by
    decide +kernel
  have hchanged : (((Project.mk ⟨['/']⟩ selfWriting).run (.start loginTree)).2.files.contentOf
      (.ofString "/tests/features/login.feature")).toOption.map ByteArray.size ≠
        some (Text.utf8 "Given a user\n".toList).size := by decide +kernel
  rcases hdiscover : (Project.mk ⟨['/']⟩ selfWriting).discover (.start loginTree) with
    ⟨e | features, w₀⟩
  · rw [hdiscover] at hfound
    exact nomatch hfound
  · rw [hdiscover] at hfound
    rcases hrun : (Project.mk ⟨['/']⟩ selfWriting).run (.start loginTree) with ⟨e | s, w'⟩
    · rw [hrun] at hok
      exact nomatch hok
    · rw [hrun] at hchanged
      refine ⟨by decide, isTree_loginTree, features, w₀, s, w', rfl, ?_, rfl, ?_, fun hsame => ?_⟩
      · rw [show features = _ from Option.some.inj hfound]
        exact List.mem_cons_self
      · decide +kernel
      · rw [hsame] at hchanged
        exact hchanged rfl

end Project
end Run
end StepStubs
