/-
A configuration that was saved is loaded again.

Saving writes the text of the configuration as it is.  Loading replaces references first, and
there is no way to write a dollar sign before an opening brace that is none.  So a configuration
comes back unless replacing references changes its text.
-/
import StepStubs.Config.File
import StepStubs.Proofs.Config.Reference
import StepStubs.Proofs.Files.Discovery
import StepStubs.Proofs.Files.Replace

namespace StepStubs
namespace Config

open Files

variable {c : Config} {source : Source} {fs fs' : FileSystem}

/-! ## Saving -/

/-- Writing the file is the last step of saving, in the tree that making its directory left. -/
theorem writeFile_of_save (hfs : fs.root.WellFormed) (h : save source c fs = (.ok (), fs')) :
    ∃ fs₁ : FileSystem, fs₁.root.WellFormed ∧
      fs₁.writeFile source.path (Text.utf8 c.toYaml) = .ok fs' := by
  let write : FileSystem → Except Cause FileSystem :=
    fun fs => fs.writeFile source.path (Text.utf8 c.toYaml)
  have hwrite : ∀ fs₁ : FileSystem, ((change write fs₁).1.mapError Failure.inaccessible,
      (change write fs₁).2) = (.ok (), fs') → write fs₁ = .ok fs' := by
    intro fs₁ h
    rw [change_run] at h
    cases hw : write fs₁ with
    | error e =>
      rw [hw] at h
      exact nomatch (Prod.mk.inj h).1
    | ok fs₂ =>
      rw [hw] at h
      rw [← (Prod.mk.inj h).2]
  -- Without a parent there is no directory to make first.
  rw [save] at h
  cases hparent : source.path.parent? with
  | none =>
    rw [hparent] at h
    exact ⟨fs, hfs, hwrite fs h⟩
  | some parent =>
    rw [hparent, run_adapt] at h
    replace h : (((createDirectories parent >>= fun _ => change write) fs).1.mapError
        Failure.inaccessible, ((createDirectories parent >>= fun _ => change write) fs).2) =
      (.ok (), fs') := h
    have hadds : fs.AddsDirectories parent (createDirectories parent fs).2 :=
      createDirectoriesWithin_adds _ parent hfs
    rw [run_bind] at h
    rcases hrun : createDirectories parent fs with ⟨e | _, fs₁⟩
    · rw [hrun] at h
      exact nomatch (Prod.mk.inj h).1
    · rw [hrun] at h hadds
      exact ⟨fs₁, hadds.wellFormed, hwrite fs₁ h⟩

/-- A configuration that was saved is stored under its path. -/
theorem textOf_of_save (hfs : fs.root.WellFormed) (h : save source c fs = (.ok (), fs')) :
    fs'.textOf source.path = .ok c.toYaml := by
  obtain ⟨fs₁, hfs₁, hwrite⟩ := writeFile_of_save hfs h
  exact FileSystem.textOf_of_contentOf (FileSystem.writeFile_ok hfs₁ hwrite)

/-! ## Loading -/

theorem load_of_textOf {t : Text} (h : fs.textOf source.path = .ok t) (env : Environment) :
    load fs env source = ofText env t := by
  have hcontains : fs.contains source.path = true := by
    obtain ⟨b, hcontent, -⟩ := bind_eq_ok_iff.mp h
    obtain ⟨n, hlookup, -⟩ := bind_eq_ok_iff.mp hcontent
    rw [FileSystem.contains, hlookup]
    rfl
  rw [load, hcontains, h]
  rfl

/-- A text that becomes the text of an accepted configuration when its references are replaced is
loaded as that configuration. -/
theorem ofText_of_expand {env : Environment} {t : Text} (hc : c.problem? = none)
    (h : expand env t = .ok c.toYaml) : ofText env t = .ok c := by
  have hblank : Text.allBlank c.toYaml = false := by
    rw [toYaml_eq]
    rfl
  have hchecked : c.checked = .ok c := by rw [checked, hc]
  simp only [ofText, h, hblank, ofYaml_toYaml, Except.mapError, bind, Except.bind,
    Bool.false_eq_true, if_false, hchecked]

/-- A configuration that was saved is loaded as what its own text stores.  That is the
configuration if replacing references leaves the text as it is, in particular if no value holds a
dollar sign before an opening brace. -/
theorem load_of_save (hc : c.problem? = none) (hfs : fs.root.WellFormed)
    (hsave : save source c fs = (.ok (), fs')) (env : Environment) :
    load fs' env source = ofText env c.toYaml ∧
      (expand env c.toYaml = .ok c.toYaml → load fs' env source = .ok c) ∧
      ((∀ v ∈ c.values, hasOpening v = false) → load fs' env source = .ok c) := by
  have hload := load_of_textOf (textOf_of_save hfs hsave) env
  have hkept : expand env c.toYaml = .ok c.toYaml → load fs' env source = .ok c :=
    fun h => hload.trans (ofText_of_expand hc h)
  exact ⟨hload, hkept, fun h => hkept (expand_of_hasOpening (hasOpening_toYaml h) env)⟩

/-- The default configuration is saved in an empty project and loaded again. -/
theorem load_default_of_save :
    default.problem? = none ∧ (Node.directory []).WellFormed ∧
      ∃ fs' : FileSystem,
        save (.project (.ofString ".")) default ⟨.directory [], []⟩ = (.ok (), fs') ∧
        load fs' ⟨[]⟩ (.project (.ofString ".")) = .ok default := by
  have hok : (save (.project (.ofString ".")) default ⟨.directory [], []⟩).1.isOk = true := by
    decide +kernel
  have htree : (Node.directory []).WellFormed := ⟨List.nodup_nil, trivial⟩
  rcases hsave : save (.project (.ofString ".")) default ⟨.directory [], []⟩ with ⟨e | _, fs'⟩
  · rw [hsave] at hok
    exact nomatch hok
  · have hload := load_of_save (by decide) htree hsave ⟨[]⟩
    exact ⟨by decide, htree, fs', rfl, hload.2.2 (by decide)⟩

/-- A configuration that is accepted, with a reference in one of its values. -/
def referring : Config := { default with outputSuffix := ".$\x7bKIND:-steps\x7d.ts".toList }

/-- It comes back with the default of the reference in its place. -/
theorem load_referring_of_save :
    referring.problem? = none ∧ (Node.directory []).WellFormed ∧
      ∃ fs' : FileSystem,
        save (.project (.ofString ".")) referring ⟨.directory [], []⟩ = (.ok (), fs') ∧
        load fs' ⟨[]⟩ (.project (.ofString ".")) = .ok default ∧ default ≠ referring := by
  have hok : (save (.project (.ofString ".")) referring ⟨.directory [], []⟩).1.isOk = true := by
    decide +kernel
  have htree : (Node.directory []).WellFormed := ⟨List.nodup_nil, trivial⟩
  rcases hsave : save (.project (.ofString ".")) referring ⟨.directory [], []⟩ with ⟨e | _, fs'⟩
  · rw [hsave] at hok
    exact nomatch hok
  · have hexpand : expand ⟨[]⟩ referring.toYaml = .ok default.toYaml := by decide +kernel
    refine ⟨by decide, htree, fs', rfl, ?_, by decide⟩
    rw [load_of_textOf (textOf_of_save htree hsave)]
    exact ofText_of_expand (by decide) hexpand

end Config
end StepStubs
