/-
The loop of a run.

The state of the loop is the tree.  `Reached` is what holds of the tree after some of the
feature files were processed: no directory came or went, nothing but the outputs and their
temporary files changed, and each output holds the stub file of the last feature file that
goes there.  One step keeps that (`Reached.step`), and so does the whole loop.

Whether a step succeeds, and what it reports, does not depend on the steps before it.  The
feature files are read where no output is, and whether an output can be written depends on
directories only.  That is what `Processes` says, and it says it of the tree that the loop
started with.
-/
import Mathlib.Data.List.Forall2
import StepStubs.Proofs.Run.Output

namespace StepStubs
namespace Run
namespace Project

open StepStubs.Path (IsName)
open Files (FileSystem Location Name temporaryName temporaryPath)

variable {p : Project} {fs t t' : FileSystem} {features done : List Path} {f g : Path}

/-! ## Trees that the loop can start with -/

/-- Is the steps directory there, were the feature files found in a directory apart from it,
and do their outputs stay apart from each other's temporary files? -/
structure IsReady (p : Project) (features : List Path) (fs : FileSystem) : Prop where
  wellFormed : fs.root.WellFormed
  stepsDir : fs.isDirectory p.stepsDir = true
  featuresDir : fs.view (fs.spot p.featuresDir) = some none
  apart : ¬ fs.spot p.featuresDir <+: fs.spot p.stepsDir
  found : ∀ f ∈ features, fs.IsFound p.featuresDir f
  output : ∀ f ∈ features, ∃ n, p.outputName? f = some n ∧ (IsName n ∨ n = ['.', '.'])
  names : ∀ f ∈ features, ∀ g ∈ features, ∀ n m,
    p.outputName? f = some n → p.outputName? g = some m → n ≠ temporaryName m

theorem outputName?_eq_of_stem?_eq (h : f.stem? = g.stem?) :
    p.outputName? f = p.outputName? g := by
  rw [outputName?, outputName?, h]

theorem stem?_eq_of_outputName?_eq {n : Name} (hf : p.outputName? f = some n)
    (hg : p.outputName? g = some n) : f.stem? = g.stem? := by
  rw [outputName?] at hf hg
  obtain ⟨s, hs, hsn⟩ := Option.map_eq_some_iff.mp hf
  obtain ⟨t, ht, htn⟩ := Option.map_eq_some_iff.mp hg
  rw [hs, ht, List.append_cancel_right (hsn.trans htn.symm)]

/-! ## Locations that the loop touches -/

/-- Is the location that of the output of one of the feature files, or of its temporary
file? -/
def Touched (p : Project) (fs : FileSystem) (done : List Path) (l : Location) : Prop :=
  ∃ f ∈ done, ∃ n, p.outputName? f = some n ∧
    (l = fs.spot (p.outputAt n) ∨ l = fs.temporarySpot (p.outputAt n))

theorem Touched.mono {done' : List Path} {l : Location} (h : p.Touched fs done l)
    (hsub : ∀ f ∈ done, f ∈ done') : p.Touched fs done' l := by
  obtain ⟨f, hf, hl⟩ := h
  exact ⟨f, hsub f hf, hl⟩

/-- Outputs and their temporary files stand in the steps directory or above it. -/
theorem dropLast_prefix_stepsDir {n : Name} (hn : IsName n ∨ n = ['.', '.']) {l : Location}
    (hl : l = fs.spot (p.outputAt n) ∨ l = fs.temporarySpot (p.outputAt n)) :
    l.dropLast <+: fs.spot p.stepsDir := by
  rcases hn with hn | rfl
  · rw [outputAt, FileSystem.spot_join hn, FileSystem.temporarySpot_join hn] at hl
    rcases hl with rfl | rfl
    · exact ⟨[], by rw [List.dropLast_concat, List.append_nil]⟩
    · exact ⟨[], by rw [List.dropLast_concat, List.append_nil]⟩
  · rw [outputAt, FileSystem.spot_join_dots, FileSystem.temporarySpot_join_dots] at hl
    rcases hl with rfl | rfl
    · exact (List.dropLast_prefix _).trans (List.dropLast_prefix _)
    · rw [List.dropLast_concat]
      exact List.dropLast_prefix _

/-- Nothing below the features directory is touched. -/
theorem IsReady.not_touched (h : p.IsReady features fs) (hdone : ∀ f ∈ done, f ∈ features)
    {l : Location} (hne : l ≠ []) : ¬ p.Touched fs done (fs.spot p.featuresDir ++ l) := by
  rintro ⟨f, hf, n, hn, hl⟩
  obtain ⟨n', hn', hname⟩ := h.output f (hdone f hf)
  rw [← Option.some.inj (hn.symm.trans hn')] at hname
  have hprefix := dropLast_prefix_stepsDir hname hl
  rw [List.dropLast_append_of_ne_nil hne] at hprefix
  exact h.apart ((List.prefix_append _ _).trans hprefix)

theorem IsReady.exists_spot (h : p.IsReady features fs) (hf : f ∈ features) :
    ∃ l, l ≠ [] ∧ fs.spot f = fs.spot p.featuresDir ++ l := by
  obtain ⟨⟨l, hl⟩, ⟨b, hb⟩, -, -⟩ := h.found f hf
  refine ⟨l, ?_, hl.symm⟩
  rintro rfl
  rw [List.append_nil] at hl
  rw [← hl, h.featuresDir] at hb
  exact nomatch hb

theorem IsReady.not_touched_spot (h : p.IsReady features fs) (hdone : ∀ f ∈ done, f ∈ features)
    (hf : f ∈ features) : ¬ p.Touched fs done (fs.spot f) := by
  obtain ⟨l, hne, hl⟩ := h.exists_spot hf
  rw [hl]
  exact h.not_touched hdone hne

/-! ## One feature file -/

/-- Can the feature file, which has the content, be given a stub file with the name? -/
structure Processes (p : Project) (fs : FileSystem) (f : Path) (content : Text) (n : Name) :
    Prop where
  read : fs.readText f maxFeatureSize = .ok content
  output : p.outputName? f = some n
  name : IsName n
  temporary : fs.Offers (temporaryPath (p.outputAt n))
  place : fs.Offers (p.outputAt n)
  size : (Text.utf8 (p.stubsOf f content)).size ≤ FileSystem.maxFileSize

/-- Is `t'` the tree `t` with the stub file of a feature file that has the content? -/
def Writes (p : Project) (t : FileSystem) (f : Path) (content : Text) (n : Name)
    (t' : FileSystem) : Prop :=
  t.Replaces (p.outputAt n) (Text.utf8 (p.stubsOf f content)) t'

theorem processFiles_of_read {content : Text} {n : Name}
    (hread : t.readText f maxFeatureSize = .ok content) (hn : p.outputName? f = some n) :
    p.processFiles f t =
      match Files.writeAtomically (p.outputAt n) (Text.utf8 (p.stubsOf f content)) t with
      | (.ok (), t') => (.ok (p.reportOf f content (p.outputAt n)), t')
      | (.error e, t') => (.error (.files e), t') := by
  have hwrite := p.writeStubs_run f content t
  rw [outputPath_eq_ok_iff.mpr ⟨n, hn, rfl⟩] at hwrite
  rw [processFiles, hread]
  exact hwrite

theorem processFiles_ok {r : Report} (ht : t.root.WellFormed)
    (hdir : t.isDirectory p.stepsDir = true)
    (hout : ∃ n, p.outputName? f = some n ∧ (IsName n ∨ n = ['.', '.']))
    (h : p.processFiles f t = (.ok r, t')) :
    ∃ content n, p.Processes t f content n ∧ r = p.reportOf f content (p.outputAt n) ∧
      p.Writes t f content n t' := by
  obtain ⟨n, hn, hname⟩ := hout
  cases hread : t.readText f maxFeatureSize with
  | error e =>
    unfold processFiles at h
    rw [hread] at h
    exact nomatch (Prod.mk.inj h).1
  | ok content =>
    rw [processFiles_of_read hread hn] at h
    rcases hwrite : Files.writeAtomically (p.outputAt n) (Text.utf8 (p.stubsOf f content)) t with
      ⟨e | _, t₁⟩
    · rw [hwrite] at h
      exact nomatch (Prod.mk.inj h).1
    · rw [hwrite] at h
      obtain ⟨hr, ht'⟩ := Prod.mk.inj h
      obtain ⟨htemporary, hplace, hsize, hreplaces⟩ :=
        Files.writeAtomically_ok ht hdir (FileSystem.isEntryOf_join hname p.stepsDir) hwrite
      rw [ht'] at hreplaces
      -- A file was written, so the name is no `..`.
      have hname' : IsName n := by
        rcases hname with hname | rfl
        · exact hname
        · exact absurd hplace (FileSystem.not_offers_join_dots p.stepsDir)
      exact ⟨content, n, ⟨hread, hn, hname', htemporary, hplace, hsize⟩,
        (Except.ok.inj hr).symm, hreplaces⟩

theorem exists_processFiles {content : Text} {n : Name} (ht : t.root.WellFormed)
    (hdir : t.isDirectory p.stepsDir = true) (h : p.Processes t f content n) :
    ∃ t', p.processFiles f t = (.ok (p.reportOf f content (p.outputAt n)), t') := by
  obtain ⟨t', ht'⟩ := Files.exists_writeAtomically ht hdir
    (FileSystem.isEntryOf_join (Or.inl h.name) p.stepsDir) h.temporary h.place h.size
  refine ⟨t', ?_⟩
  rw [processFiles_of_read h.read h.output]
  have ht'' : Files.writeAtomically (p.outputAt n) _ t = (.ok (), t') := ht'
  rw [ht'']

/-- A feature file that cannot be processed touches a temporary file at most. -/
theorem processFiles_error {e : Failure} {n : Name} (ht : t.root.WellFormed)
    (hdir : t.isDirectory p.stepsDir = true) (hn : p.outputName? f = some n)
    (hname : IsName n ∨ n = ['.', '.']) (h : p.processFiles f t = (.error e, t')) :
    t.LosesTemporary (p.outputAt n) t' := by
  cases hread : t.readText f maxFeatureSize with
  | error e' =>
    unfold processFiles at h
    rw [hread] at h
    rw [← (Prod.mk.inj h).2]
    exact .of_keepsBut (.refl ht _)
  | ok content =>
    rw [processFiles_of_read hread hn] at h
    rcases hwrite : Files.writeAtomically (p.outputAt n) (Text.utf8 (p.stubsOf f content)) t with
      ⟨e | _, t₁⟩
    · rw [hwrite] at h
      rw [← (Prod.mk.inj h).2]
      exact Files.writeAtomically_error ht hdir (FileSystem.isEntryOf_join hname p.stepsDir) hwrite
    · rw [hwrite] at h
      exact nomatch (Prod.mk.inj h).1

/-- Whether a feature file can be processed, and what it reports, is the same in all trees with
the same directories and the same feature file. -/
theorem Processes.of_keepsBut {touched : Location → Prop} {content : Text} {n : Name}
    (h : p.Processes fs f content n) (hkeeps : fs.KeepsBut touched t)
    (hf : fs.IsFound p.featuresDir f) (hnot : ¬ touched (fs.spot f)) :
    p.Processes t f content n := by
  have hdirs := hkeeps.keepsDirectories
  refine ⟨(hf.readText_eq_ok_iff hdirs (hkeeps.view_of_not hnot)).mpr h.read, h.output, h.name,
    h.temporary.of_keepsDirectories hdirs ?_, h.place.of_keepsDirectories hdirs ?_, h.size⟩
  · rw [Ne, hkeeps.view_eq_directory_iff]
    exact h.temporary.not_directory
  · rw [Ne, hkeeps.view_eq_directory_iff]
    exact h.place.not_directory

theorem Processes.of_keepsBut' {touched : Location → Prop} {content : Text} {n : Name}
    (h : p.Processes t f content n) (hkeeps : fs.KeepsBut touched t)
    (hf : fs.IsFound p.featuresDir f) (hnot : ¬ touched (fs.spot f)) :
    p.Processes fs f content n := by
  have hdirs := hkeeps.keepsDirectories'
  refine ⟨(hf.readText_eq_ok_iff hkeeps.keepsDirectories (hkeeps.view_of_not hnot)).mp h.read,
    h.output, h.name, h.temporary.of_keepsDirectories hdirs ?_,
    h.place.of_keepsDirectories hdirs ?_, h.size⟩
  · rw [Ne, ← hkeeps.view_eq_directory_iff]
    exact h.temporary.not_directory
  · rw [Ne, ← hkeeps.view_eq_directory_iff]
    exact h.place.not_directory

/-! ## What holds after some feature files -/

/-- Does the tree hold the stub file of a feature file, and no temporary file for it? -/
def HoldsStubs (p : Project) (fs : FileSystem) (f : Path) (content : Text) (n : Name)
    (t : FileSystem) : Prop :=
  t.view (fs.spot (p.outputAt n)) = some (some (Text.utf8 (p.stubsOf f content))) ∧
    t.view (fs.temporarySpot (p.outputAt n)) = none

/-- What holds of the tree `t` after feature files were processed, if `fs` was the tree before
the first of them. -/
structure Reached (p : Project) (fs : FileSystem) (done : List Path) (t : FileSystem) : Prop where
  keeps : fs.KeepsBut (p.Touched fs done) t
  processes : ∀ f ∈ done, ∃ content n, p.Processes fs f content n
  written : ∀ before f after content n, done = before ++ f :: after →
    p.Processes fs f content n → (∀ g ∈ after, g.stem? ≠ f.stem?) →
    p.HoldsStubs fs f content n t

theorem Reached.start (h : fs.root.WellFormed) : p.Reached fs [] fs where
  keeps := .refl h _
  processes := nofun
  written := by
    intro before f after content n hdone
    exact nomatch (List.append_eq_nil_iff.mp hdone.symm).2

/-- The output of a feature file stays when that of a feature file with another stem is
written. -/
theorem HoldsStubs.of_writes {content content' : Text} {n m : Name}
    (h : p.HoldsStubs fs f content n t) (hwrites : p.Writes t g content' m t')
    (hdirs : fs.KeepsDirectories t) (hn : IsName n) (hm : IsName m) (hne : n ≠ m)
    (hnm : n ≠ temporaryName m) (hmn : m ≠ temporaryName n) :
    p.HoldsStubs fs f content n t' := by
  obtain ⟨hview, htemporary⟩ := h
  have hspots : ∀ a b : Name, a ≠ b →
      fs.spot p.stepsDir ++ [a] ≠ fs.spot p.stepsDir ++ [b] := by
    intro a b hab heq
    exact hab (List.cons.inj (List.append_cancel_left heq)).1
  have hother : ∀ a : Name, a ≠ m → a ≠ temporaryName m →
      t'.view (fs.spot p.stepsDir ++ [a]) = t.view (fs.spot p.stepsDir ++ [a]) := by
    intro a ha ha'
    rw [hwrites.view, outputAt, FileSystem.temporarySpot_join hm, FileSystem.spot_join hm,
      hdirs.spot, if_neg (hspots a m ha), if_neg (hspots a _ ha')]
  rw [HoldsStubs, outputAt, FileSystem.temporarySpot_join hn, FileSystem.spot_join hn] at *
  refine ⟨?_, ?_⟩
  · rw [hother n hne hnm, hview]
  · rw [hother (temporaryName n) (Ne.symm hmn) fun h => hne (Files.temporaryName_injective h),
      htemporary]

theorem holdsStubs_of_writes {content : Text} {n : Name} (h : p.Writes t f content n t')
    (hdirs : fs.KeepsDirectories t) (hn : IsName n) : p.HoldsStubs fs f content n t' := by
  have htemporary : t.temporarySpot (p.outputAt n) = fs.temporarySpot (p.outputAt n) :=
    hdirs.spot _
  have hview := h.view
  rw [htemporary, hdirs.spot] at hview
  refine ⟨by rw [hview, if_pos rfl], ?_⟩
  rw [hview, if_pos rfl, if_neg]
  rw [outputAt, FileSystem.temporarySpot_join hn, FileSystem.spot_join hn]
  intro heq
  have hlength := congrArg List.length (List.cons.inj (List.append_cancel_left heq)).1
  rw [Files.length_temporaryName] at hlength
  omega

/-- One more feature file with its stub file written. -/
theorem Reached.step {content : Text} {n : Name} (hready : p.IsReady features fs)
    (hdone : ∀ g ∈ done ++ [f], g ∈ features) (h : p.Reached fs done t)
    (hprocesses : p.Processes fs f content n) (hwrites : p.Writes t f content n t') :
    p.Reached fs (done ++ [f]) t' := by
  have hdirs := h.keeps.keepsDirectories
  have hspot : t.spot (p.outputAt n) = fs.spot (p.outputAt n) := hdirs.spot _
  have htemporary : t.temporarySpot (p.outputAt n) = fs.temporarySpot (p.outputAt n) :=
    hdirs.spot _
  have hf : f ∈ features := hdone f (List.mem_append_right _ List.mem_cons_self)
  refine ⟨?_, ?_, ?_⟩
  · -- The step touches the output and its temporary file only.
    refine (h.keeps.mono fun l hl => hl.mono fun g hg => List.mem_append_left _ hg).trans ?_
    refine (hwrites.keepsBut ?_ ?_).mono fun l hl => ?_
    · rw [hspot, Ne, h.keeps.view_eq_directory_iff]
      exact hprocesses.place.not_directory
    · rw [htemporary, Ne, h.keeps.view_eq_directory_iff]
      exact hprocesses.temporary.not_directory
    · rw [hspot, htemporary] at hl
      exact ⟨f, List.mem_append_right _ List.mem_cons_self, n, hprocesses.output, hl⟩
  · intro g hg
    rcases List.mem_append.mp hg with hg | hg
    · exact h.processes g hg
    · rw [List.mem_singleton.mp hg]
      exact ⟨content, n, hprocesses⟩
  · intro before g after content' m heq hprocesses' hlast
    rcases List.eq_nil_or_concat after with rfl | ⟨after', f', rfl⟩
    · -- The last feature file has just been processed.
      obtain ⟨-, hg⟩ := List.append_inj' heq rfl
      rw [← List.cons.inj hg |>.1] at hprocesses' ⊢
      have hcontent := Except.ok.inj (hprocesses.read.symm.trans hprocesses'.read)
      have hname := Option.some.inj (hprocesses.output.symm.trans hprocesses'.output)
      rw [← hcontent, ← hname]
      exact holdsStubs_of_writes hwrites hdirs hprocesses.name
    · rw [List.concat_eq_append] at heq hlast
      rw [← List.cons_append, ← List.append_assoc] at heq
      obtain ⟨hbefore, hf'⟩ := List.append_inj' heq rfl
      have hf' : f = f' := (List.cons.inj hf').1
      have hg : g ∈ features :=
        hdone g (List.mem_append_left _ (hbefore ▸ List.mem_append_right _ List.mem_cons_self))
      have hholds := h.written before g after' content' m hbefore hprocesses' fun k hk =>
        hlast k (List.mem_append_left _ hk)
      -- An earlier stub file that no later file replaced has another name than the new one.
      refine hholds.of_writes hwrites hdirs hprocesses'.name hprocesses.name ?_
        (hready.names g hg f hf m n hprocesses'.output hprocesses.output)
        (hready.names f hf g hg n m hprocesses.output hprocesses'.output)
      intro hmn
      rw [hmn] at hprocesses'
      refine hlast f' (List.mem_append_right _ List.mem_cons_self) ?_
      rw [← hf']
      exact stem?_eq_of_outputName?_eq hprocesses.output hprocesses'.output

/-! ## The whole loop -/

/-- Is this the report about a feature file that can be processed? -/
def Reports (p : Project) (fs : FileSystem) (f : Path) (r : Report) : Prop :=
  ∃ content n, p.Processes fs f content n ∧ r = p.reportOf f content (p.outputAt n)

theorem processAll_nil (s : Summary) (t : FileSystem) : p.processAll [] s t = (.ok s, t) := rfl

theorem processAll_cons (f : Path) (todo : List Path) (s : Summary) (t : FileSystem) :
    p.processAll (f :: todo) s t =
      match p.processFiles f t with
      | (.ok r, t') => p.processAll todo (s.record r) t'
      | (.error e, t') => (.error e, t') := by
  rw [processAll, List.foldlM_cons, Files.run_bind, Files.run_bind]
  rcases p.processFiles f t with ⟨_ | _, _⟩ <;> rfl

theorem Reached.isDirectory (h : p.Reached fs done t) (hready : p.IsReady features fs) :
    t.isDirectory p.stepsDir = true :=
  h.keeps.keepsDirectories.isDirectory hready.stepsDir

/-- A feature file that is processed in the loop is one that could be processed before. -/
theorem Reached.processFiles_ok {r : Report} (hready : p.IsReady features fs)
    (hdone : ∀ g ∈ done ++ [f], g ∈ features) (h : p.Reached fs done t)
    (hrun : p.processFiles f t = (.ok r, t')) :
    p.Reached fs (done ++ [f]) t' ∧ p.Reports fs f r := by
  have hf : f ∈ features := hdone f (List.mem_append_right _ List.mem_cons_self)
  obtain ⟨content, n, hprocesses, hr, hwrites⟩ :=
    Project.processFiles_ok h.keeps.wellFormed (h.isDirectory hready) (hready.output f hf) hrun
  have hbefore := hprocesses.of_keepsBut' h.keeps (hready.found f hf)
    (hready.not_touched_spot (fun g hg => hdone g (List.mem_append_left _ hg)) hf)
  exact ⟨h.step hready hdone hbefore hwrites, content, n, hbefore, hr⟩

/-- One that could be processed before can be processed in the loop. -/
theorem Reached.exists_processFiles {r : Report} (hready : p.IsReady features fs)
    (hdone : ∀ g ∈ done ++ [f], g ∈ features) (h : p.Reached fs done t)
    (hr : p.Reports fs f r) : ∃ t', p.processFiles f t = (.ok r, t') := by
  obtain ⟨content, n, hprocesses, rfl⟩ := hr
  have hf : f ∈ features := hdone f (List.mem_append_right _ List.mem_cons_self)
  have hnow := hprocesses.of_keepsBut h.keeps (hready.found f hf)
    (hready.not_touched_spot (fun g hg => hdone g (List.mem_append_left _ hg)) hf)
  exact Project.exists_processFiles h.keeps.wellFormed (h.isDirectory hready) hnow

theorem Reached.processAll_ok {todo : List Path} {s s' : Summary}
    (hready : p.IsReady features fs) (htodo : ∀ g ∈ done ++ todo, g ∈ features)
    (h : p.Reached fs done t) (hrun : p.processAll todo s t = (.ok s', t')) :
    p.Reached fs (done ++ todo) t' ∧
      ∃ reports, List.Forall₂ (p.Reports fs) todo reports ∧
        s' = reports.foldl Summary.record s := by
  -- The files that are done move from one list to the other; `Reached` is what each step keeps.
  induction todo generalizing done s t with
  | nil =>
    rw [processAll_nil] at hrun
    obtain ⟨hs, ht⟩ := Prod.mk.inj hrun
    rw [List.append_nil, ← ht]
    exact ⟨h, [], .nil, (Except.ok.inj hs).symm⟩
  | cons f todo ih =>
    rw [List.append_cons] at htodo
    rw [processAll_cons] at hrun
    rcases hstep : p.processFiles f t with ⟨e | r, t₁⟩
    · rw [hstep] at hrun
      exact nomatch (Prod.mk.inj hrun).1
    · rw [hstep] at hrun
      obtain ⟨hreached, hr⟩ := h.processFiles_ok hready
        (fun g hg => htodo g (List.mem_append_left _ hg)) hstep
      obtain ⟨hend, reports, hreports, hs'⟩ := ih htodo hreached hrun
      rw [List.append_assoc, List.singleton_append] at hend
      exact ⟨hend, r :: reports, .cons hr hreports, hs'⟩

theorem Reached.exists_processAll {todo : List Path} {s : Summary} {reports : List Report}
    (hready : p.IsReady features fs) (htodo : ∀ g ∈ done ++ todo, g ∈ features)
    (h : p.Reached fs done t) (hreports : List.Forall₂ (p.Reports fs) todo reports) :
    ∃ t', p.processAll todo s t = (.ok (reports.foldl Summary.record s), t') := by
  induction hreports generalizing done s t with
  | nil => exact ⟨t, processAll_nil s t⟩
  | @cons f r todo reports hr hrest ih =>
    rw [List.append_cons] at htodo
    have hdone : ∀ g ∈ done ++ [f], g ∈ features := fun g hg =>
      htodo g (List.mem_append_left _ hg)
    obtain ⟨t₁, hstep⟩ := h.exists_processFiles hready hdone hr
    obtain ⟨hreached, -⟩ := h.processFiles_ok hready hdone hstep
    obtain ⟨t', hrun⟩ := ih htodo hreached
    refine ⟨t', ?_⟩
    rw [processAll_cons, hstep]
    exact hrun

/-! ## Going through the loop again -/

/-- Some feature file of a list is the last one with its stem. -/
theorem exists_last_of_stem (hf : f ∈ done) :
    ∃ before g after, done = before ++ g :: after ∧ g.stem? = f.stem? ∧
      ∀ k ∈ after, k.stem? ≠ g.stem? := by
  induction done generalizing f with
  | nil => exact absurd hf List.not_mem_nil
  | cons k done ih =>
    by_cases hlater : ∃ k' ∈ done, k'.stem? = f.stem?
    · obtain ⟨k', hk', hstem⟩ := hlater
      obtain ⟨before, g, after, hdone, hg, hlast⟩ := ih hk'
      exact ⟨k :: before, g, after, congrArg (k :: ·) hdone, hg.trans hstem, hlast⟩
    · have hk : k.stem? = f.stem? := by
        rcases List.mem_cons.mp hf with rfl | hf
        · rfl
        · exact absurd ⟨f, hf, rfl⟩ hlater
      exact ⟨[], k, done, rfl, hk, fun k' hk' heq => hlater ⟨k', hk', heq.trans hk⟩⟩

/-- The feature files that were processed, with the last one of each stem, tell the whole
tree. -/
theorem Reached.view_eq_of_again (h : p.Reached fs done t)
    (h' : p.Reached fs (done ++ done) t') (l : Location) : t'.view l = t.view l := by
  by_cases hl : p.Touched fs done l
  · obtain ⟨f, hf, n, hn, hl⟩ := hl
    obtain ⟨before, g, after, hdone, hg, hlast⟩ := exists_last_of_stem hf
    obtain ⟨content, m, hprocesses⟩ :=
      h.processes g (hdone ▸ List.mem_append_right _ List.mem_cons_self)
    have hm : n = m := Option.some.inj
      (hn.symm.trans ((outputName?_eq_of_stem?_eq hg.symm).trans hprocesses.output))
    rw [hm] at hl
    obtain ⟨hview, htemporary⟩ := h.written before g after content m hdone hprocesses hlast
    have hagain : done ++ done = (done ++ before) ++ g :: after := by
      rw [List.append_assoc, ← hdone]
    obtain ⟨hview', htemporary'⟩ := h'.written _ g after content m hagain hprocesses hlast
    rcases hl with rfl | rfl
    · rw [hview, hview']
    · rw [htemporary, htemporary']
  · have hl' : ¬ p.Touched fs (done ++ done) l := fun hl' =>
      hl (hl'.mono fun f hf => (List.mem_append.mp hf).elim id id)
    rw [h.keeps.view_of_not hl, h'.keeps.view_of_not hl']

/-- A loop that is gone through again has the same reports and changes nothing. -/
theorem Reached.processAll_again {s : Summary} {reports : List Report}
    (hready : p.IsReady features fs) (h : p.Reached fs features t)
    (hreports : List.Forall₂ (p.Reports fs) features reports) :
    ∃ t', p.processAll features s t = (.ok (reports.foldl Summary.record s), t') ∧
      t'.workingDirectory = t.workingDirectory ∧ ∀ l, t'.view l = t.view l := by
  have htwice : ∀ g ∈ features ++ features, g ∈ features := fun g hg =>
    (List.mem_append.mp hg).elim id id
  obtain ⟨t', hrun⟩ := h.exists_processAll (s := s) hready htwice hreports
  obtain ⟨hreached, -⟩ := h.processAll_ok hready htwice hrun
  exact ⟨t', hrun,
    hreached.keeps.workingDirectory.trans h.keeps.workingDirectory.symm,
    h.view_eq_of_again hreached⟩

end Project
end Run
end StepStubs
