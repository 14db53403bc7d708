/-
When making directories succeeds.

If nothing but directories stands on the way of a path, the only thing that following it can
meet is that a directory is missing.  That is what making directories is for: it goes up the
path until the directory above is there, and comes back down.  So it succeeds, and two paths
that lead the same way have the same directories made for them.
-/
import StepStubs.Proofs.Files.Directories

namespace StepStubs
namespace Files

open StepStubs.Path (Component innerOf)
open FileSystem (moveBy)

namespace FileSystem

variable {fs fs' : FileSystem} {p : Path}

/-! ## Paths on whose way nothing but directories stands -/

/-- Can the path be followed as far as its text tells, and is there nothing but directories on
its way? -/
structure IsFree (fs : FileSystem) (p : Path) : Prop where
  isFollowable : IsFollowable p
  ends : innerOf p.text ≠ [] → ¬ EndsIdle p.parts
  start : fs.view (fs.startOf p) = some none
  way : ∀ l, fs.OnWay p l → fs.view l ≠ none → fs.view l = some none

theorem IsFree.of_adds {q : Path} (h : fs.IsFree p) (hadds : fs.AddsDirectories q fs') :
    fs'.IsFree p := by
  have hkeeps := hadds.keepsDirectories
  refine ⟨h.isFollowable, h.ends, ?_, fun l hl hsome => ?_⟩
  · rw [hkeeps.startOf]
    exact hkeeps.directory _ h.start
  · rcases hadds.view l with hsame | ⟨-, -, hdir⟩
    · rw [hsame] at hsome ⊢
      exact h.way l ((onWay_iff_of_workingDirectory_eq hadds.workingDirectory).mp hl) hsome
    · exact hdir

theorem enterName_of_view_eq_none {here : Location} {name : Name}
    (hhere : fs.view here = some none) (hshort : Text.byteLength name ≤ maxNameLength)
    (hnone : fs.view (here ++ [name]) = none) : fs.enterName here name = .error .notFound := by
  obtain ⟨n, hn⟩ := exists_directoryAt hhere
  have hchild : ¬ (n.child? name).isSome = true := by
    have hat := at?_concat (directoryAt_eq_ok_iff.mp hn).2 name
    rw [view_eq_none_iff.mp hnone] at hat
    rw [← hat]
    exact Bool.false_ne_true
  rw [enterName, hn]
  show (if Text.byteLength name > maxNameLength then Except.error Cause.nameTooLong
    else if (n.child? name).isSome then .ok (here ++ [name]) else .error .notFound) = _
  rw [if_neg (by omega), if_neg hchild]

/-- On such a way the parts of a path lead to a directory, or to where nothing is. -/
theorem foldlM_enter_cases {here : Location} {parts : List Text}
    (hhere : fs.view here = some none)
    (hfits : ∀ c ∈ parts.filterMap Path.innerComponent?, Fits c)
    (hway : ∀ cs, cs <+: parts.filterMap Path.innerComponent? →
      fs.view (cs.foldl moveBy here) ≠ none → fs.view (cs.foldl moveBy here) = some none) :
    (∃ l, parts.foldlM fs.enter here = .ok l ∧ fs.view l = some none) ∨
      parts.foldlM fs.enter here = .error .notFound := by
  induction parts generalizing here with
  | nil => exact Or.inl ⟨here, rfl, hhere⟩
  | cons part parts ih =>
    rw [List.foldlM_cons]
    cases hpart : Path.innerComponent? part with
    | none =>
      rw [List.filterMap_cons_none hpart] at hfits hway
      rw [(enter_eq_ok_iff_of_idle hpart).mpr ⟨hhere, rfl⟩]
      exact ih hhere hfits hway
    | some c =>
      rw [List.filterMap_cons_some hpart] at hfits hway
      have hfit : Fits c := hfits c List.mem_cons_self
      by_cases hnone : fs.view (moveBy here c) = none
      · refine Or.inr ?_
        rcases Path.innerComponent?_eq_some hpart with rfl | rfl
        · exact nomatch hnone.symm.trans (view_dropLast_of_directory hhere)
        · rw [enter, hpart]
          show fs.enterName here part >>= _ = _
          rw [enterName_of_view_eq_none hhere hfit hnone]
          rfl
      · have hdir := hway [c] (List.cons_prefix_cons.mpr ⟨rfl, List.nil_prefix⟩) hnone
        rw [(enter_eq_ok_iff hpart).mpr ⟨hhere, hfit, rfl, hnone⟩]
        refine ih hdir (fun c' hc' => hfits c' (List.mem_cons_of_mem c hc')) fun cs hcs => ?_
        exact hway (c :: cs) (List.cons_prefix_cons.mpr ⟨rfl, hcs⟩)

theorem openParts_eq (h : ¬ EndsIdle p.parts) : openParts p = p.parts := by
  rw [openParts]
  rcases List.eq_nil_or_concat p.parts with hnil | ⟨init, part, hparts⟩
  · rw [hnil]
    rfl
  · rw [List.concat_eq_append] at hparts
    have hnot : ¬ part.isEmpty = true := by
      intro hempty
      refine h ⟨part, by rw [hparts, List.getLast?_concat]; rfl, ?_⟩
      rw [List.isEmpty_iff.mp hempty, Path.innerComponent?, if_pos (Or.inl rfl)]
    rw [hparts, List.reverse_append, List.reverse_singleton, List.singleton_append,
      List.dropWhile_cons_of_neg hnot, List.reverse_cons, List.reverse_reverse]

/-- The last part of such a path is its last component. -/
theorem IsFree.exists_last (h : fs.IsFree p) {cs : List Component} {c : Component}
    (hinner : innerOf p.text = cs ++ [c]) :
    ∃ part, (openParts p).getLast? = some part ∧ Path.innerComponent? part = some c ∧
      (openParts p).dropLast.filterMap Path.innerComponent? = cs := by
  have hends : ¬ EndsIdle p.parts := h.ends (by rw [hinner]; simp)
  obtain ⟨init, part, hparts⟩ : ∃ init part, p.parts = init ++ [part] := by
    rcases List.eq_nil_or_concat p.parts with hnil | ⟨init, part, hparts⟩
    · exact absurd hnil (List.splitOn_ne_nil _ _)
    · exact ⟨init, part, by rw [hparts, List.concat_eq_append]⟩
  rw [openParts_eq hends, hparts, List.getLast?_concat, List.dropLast_concat]
  cases hpart : Path.innerComponent? part with
  | none => exact absurd ⟨part, by rw [hparts, List.getLast?_concat]; rfl, hpart⟩ hends
  | some c' =>
    have hsame : init.filterMap Path.innerComponent? ++ [c'] = cs ++ [c] := by
      rw [← hinner, innerOf]
      show _ = p.parts.filterMap Path.innerComponent?
      rw [hparts, List.filterMap_append, List.filterMap_cons_some hpart, List.filterMap_nil]
    obtain ⟨hinit, hc⟩ := List.append_inj' hsame rfl
    exact ⟨part, rfl, hpart.trans (congrArg some (List.cons.inj hc).1), hinit⟩

/-! ## Making one directory -/

theorem createDirectory_of_placeOf {place : Place} (h : fs.placeOf p = .ok place) :
    fs.createDirectory p =
      match place.name? with
      | none => .error .taken
      | some name =>
        if (fs.at? (place.directory ++ [name])).isSome then .error .taken
        else .ok (fs.put (place.directory ++ [name]) .emptyDirectory) := by
  rw [createDirectory, h]
  rfl

/-- A path without components leads to where it starts. -/
theorem IsFree.isDirectory_of_innerOf_eq_nil (h : fs.IsFree p) (hinner : innerOf p.text = []) :
    fs.isDirectory p = true := by
  refine isDirectory_iff.mpr ⟨h.isFollowable, ?_, ?_⟩
  · rw [hinner]
    show fs.view (fs.startOf p) ≠ none
    rw [h.start]
    exact nofun
  · rw [spot, hinner]
    exact h.start

theorem IsFree.isDirectory_of_last {cs : List Component} {c : Component} (h : fs.IsFree p)
    (hinner : innerOf p.text = cs ++ [c]) (hpasses : fs.Passes (fs.startOf p) cs)
    (hd : fs.view (cs.foldl moveBy (fs.startOf p)) = some none)
    (hthere : fs.view (moveBy (cs.foldl moveBy (fs.startOf p)) c) = some none) :
    fs.isDirectory p = true := by
  have hspot : fs.spot p = moveBy (cs.foldl moveBy (fs.startOf p)) c := by
    unfold spot
    rw [hinner, List.foldl_append]
    rfl
  refine isDirectory_iff.mpr ⟨h.isFollowable, ?_, hspot ▸ hthere⟩
  rw [hinner, passes_append]
  refine ⟨hpasses, hd, ?_⟩
  show fs.view (moveBy (cs.foldl moveBy (fs.startOf p)) c) ≠ none
  rw [hthere]
  exact nofun

/-- Where the directory above is there, the directory is made or is there already. -/
theorem IsFree.createDirectory_of_parent {d : Location} (h : fs.IsFree p)
    (hfold : (openParts p).dropLast.foldlM fs.enter (fs.startOf p) = .ok d)
    (hd : fs.view d = some none) :
    (∃ fs', fs.createDirectory p = .ok fs') ∨
      fs.createDirectory p = .error .taken ∧ fs.isDirectory p = true := by
  have hplace : ∀ place, placeIn p d = .ok place → fs.placeOf p = .ok place := fun place hin =>
    placeOf_eq_ok_iff.mpr ⟨h.isFollowable.check, d, hfold, hd, hin⟩
  have hin := placeIn.eq_def p d
  obtain ⟨rfl, -, hpasses, -⟩ := foldlM_enter_eq_ok_iff.mp ⟨hfold, by rw [hd]; exact nofun⟩
  rcases List.eq_nil_or_concat (innerOf p.text) with hinner | ⟨cs, c, hinner⟩
  · -- The path leads nowhere else than to its start.
    have hlast : (openParts p).getLast?.bind Path.innerComponent? = none := by
      rw [← innerOf_openParts, List.filterMap_eq_nil_iff] at hinner
      cases hpart : (openParts p).getLast? with
      | none => rfl
      | some part => exact hinner part (List.mem_of_getLast? hpart)
    rw [hlast] at hin
    exact Or.inr ⟨createDirectory_of_placeOf (hplace _ hin), h.isDirectory_of_innerOf_eq_nil hinner⟩
  · rw [List.concat_eq_append] at hinner
    obtain ⟨part, hpart, hc, hcs⟩ := h.exists_last hinner
    rw [hcs] at hd hpasses hplace hin
    have hdirectory := h.isDirectory_of_last hinner hpasses hd
    rw [hpart, Option.bind_some, hc] at hin
    -- What `..` names is there, since a directory has one above it.
    rcases Path.innerComponent?_eq_some hc with rfl | rfl
    · exact Or.inr ⟨createDirectory_of_placeOf (hplace _ hin),
        hdirectory (view_dropLast_of_directory hd)⟩
    · have hfit : Text.byteLength part ≤ maxNameLength :=
        h.isFollowable.fits (.normal part) (hinner ▸ List.mem_append_right _ List.mem_cons_self)
      simp only [if_neg (show ¬ Text.byteLength part > maxNameLength by omega)] at hin
      have hcreate := createDirectory_of_placeOf (hplace _ hin)
      simp only at hcreate
      by_cases hsome : (fs.at? (cs.foldl moveBy (fs.startOf p) ++ [part])).isSome = true
      · rw [if_pos hsome] at hcreate
        have hway : fs.OnWay p (cs.foldl moveBy (fs.startOf p) ++ [part]) := by
          refine ⟨innerOf p.text, List.prefix_refl _, ?_⟩
          rw [hinner, List.foldl_append]
          rfl
        refine Or.inr ⟨hcreate, hdirectory (h.way _ hway ?_)⟩
        rw [Ne, view_eq_none_iff]
        exact Option.isSome_iff_ne_none.mp hsome
      · rw [if_neg hsome] at hcreate
        exact Or.inl ⟨_, hcreate⟩

/-- Where a directory above is missing, nothing but that is told. -/
theorem createDirectory_of_missing (hcheck : checkPath p = .ok ())
    (hfold : (openParts p).dropLast.foldlM fs.enter (fs.startOf p) = .error .notFound) :
    fs.createDirectory p = .error .notFound := by
  rw [createDirectory, placeOf, hcheck]
  show (((openParts p).dropLast.foldlM fs.enter (fs.startOf p) >>= _) >>= _) = _
  rw [hfold]
  rfl

theorem IsFree.foldlM_cases (h : fs.IsFree p) :
    (∃ d, (openParts p).dropLast.foldlM fs.enter (fs.startOf p) = .ok d ∧
        fs.view d = some none) ∨
      (openParts p).dropLast.foldlM fs.enter (fs.startOf p) = .error .notFound := by
  have hcs : (openParts p).dropLast.filterMap Path.innerComponent? <+: innerOf p.text :=
    ((List.dropLast_prefix _).trans (openParts_isPrefix p)).filterMap _
  exact foldlM_enter_cases h.start
    (fun c hc => h.isFollowable.fits c (hcs.subset hc))
    fun ds hds => h.way _ ⟨ds, hds.trans hcs, rfl⟩

/-- The directory above is missing only if it has a name of its own. -/
theorem IsFree.exists_parent (h : fs.IsFree p)
    (hfold : (openParts p).dropLast.foldlM fs.enter (fs.startOf p) = .error .notFound) :
    ∃ cs c q, innerOf p.text = cs ++ [c] ∧ cs ≠ [] ∧ p.parent? = some q ∧
      innerOf q.text = cs ∧ fs.IsFree q := by
  -- Parts without components lead nowhere else than to the start.
  have hnil : (openParts p).dropLast.filterMap Path.innerComponent? ≠ [] := by
    intro hnil
    have hpasses : fs.Passes (fs.startOf p) [] := by
      show fs.view (fs.startOf p) ≠ none
      rw [h.start]
      exact nofun
    exact nomatch hfold.symm.trans (foldlM_enter_eq_ok hnil nofun hpasses h.start)
  rcases List.eq_nil_or_concat (innerOf p.text) with hinner | ⟨cs, c, hinner⟩
  · refine absurd (List.prefix_nil.mp ?_) hnil
    rw [← hinner]
    exact ((List.dropLast_prefix _).trans (openParts_isPrefix p)).filterMap _
  · rw [List.concat_eq_append] at hinner
    obtain ⟨part, -, -, hcs⟩ := h.exists_last hinner
    rw [hcs] at hnil
    obtain ⟨q, hq, hqinner, habs, hprefix, hends⟩ := Path.exists_parent hinner
    obtain ⟨part', hpart', hcomponent⟩ := hends hnil
    have hne : q.text ≠ [] := by
      intro hempty
      rw [hempty, Path.innerOf_nil] at hqinner
      exact hnil hqinner.symm
    refine ⟨cs, c, q, hinner, hnil, hq, hqinner, ⟨?_, fun c' hc' => ?_⟩, ?_, ?_, ?_⟩
    · exact checkPath_of_prefix hprefix hne h.isFollowable.check
    · rw [hqinner] at hc'
      exact h.isFollowable.fits c' (hinner ▸ List.mem_append_left _ hc')
    · rintro - ⟨last, hlast, hidle⟩
      rw [Option.mem_def.mp hpart'] at hlast
      rw [← Option.some.inj hlast] at hidle
      exact hcomponent hidle
    · rw [startOf_eq_of_isAbsolute_eq habs]
      exact h.start
    · exact fun l hl => h.way l (hl.of_parent hq)

end FileSystem

open FileSystem (IsFree AddsDirectories)

variable {fs fs' : FileSystem} {p q : Path}

/-! ## Making all that are missing -/

/-- With the directory above it, a directory is made unless it is there. -/
theorem exists_createOrKeepDirectory {cs : List Component} {c : Component} (h : fs.IsFree p)
    (hinner : innerOf p.text = cs ++ [c]) (hq : fs.isDirectory q = true)
    (habs : q.isAbsolute = p.isAbsolute) (hqinner : innerOf q.text = cs) :
    ∃ fs', createOrKeepDirectory p fs = (.ok (), fs') := by
  obtain ⟨part, -, -, hcs⟩ := h.exists_last hinner
  obtain ⟨hfollow, hpasses, hview⟩ := FileSystem.isDirectory_iff.mp hq
  rw [FileSystem.startOf_eq_of_isAbsolute_eq habs, hqinner] at hpasses
  rw [FileSystem.spot, FileSystem.startOf_eq_of_isAbsolute_eq habs, hqinner] at hview
  have hfits : ∀ c ∈ cs, FileSystem.Fits c := hqinner ▸ hfollow.fits
  have hfold := FileSystem.foldlM_enter_eq_ok hcs hfits hpasses hview
  rw [createOrKeepDirectory_run]
  rcases h.createDirectory_of_parent hfold hview with ⟨fs', hfs'⟩ | ⟨htaken, hdir⟩
  · exact ⟨fs', by rw [hfs']⟩
  · exact ⟨fs, by rw [htaken]; exact if_pos hdir⟩

/-- Directories can be made as far up as the path has components. -/
theorem exists_createDirectoriesWithin (depth : Nat) (hfs : fs.root.WellFormed) (h : fs.IsFree p)
    (hdepth : (innerOf p.text).length ≤ depth + 1) :
    ∃ fs', createDirectoriesWithin (depth + 1) p fs = (.ok (), fs') := by
  induction depth using Nat.strongRecOn generalizing p with
  | ind depth ih =>
    rcases h.foldlM_cases with ⟨d, hfold, hd⟩ | hfold
    · rw [createDirectoriesWithin_run]
      rcases h.createDirectory_of_parent hfold hd with ⟨fs', hfs'⟩ | ⟨htaken, hdir⟩
      · exact ⟨fs', by rw [hfs']⟩
      · exact ⟨fs, by rw [htaken]; exact if_pos hdir⟩
    · -- The parent is missing.  It has a component less, so the depth that is left is enough.
      obtain ⟨cs, c, q, hinner, hne, hq, hqinner, hqfree⟩ := h.exists_parent hfold
      have hlength := congrArg List.length hinner
      rw [List.length_append, List.length_singleton] at hlength
      have hpos := List.length_pos_iff.mpr hne
      obtain ⟨depth', rfl⟩ := Nat.exists_eq_succ_of_ne_zero (show depth ≠ 0 by omega)
      obtain ⟨fs₁, hparents⟩ := ih depth' (Nat.lt_succ_self _) hqfree (by rw [hqinner]; omega)
      have hadds := createDirectoriesWithin_adds (depth' + 1) q hfs
      rw [hparents] at hadds
      obtain ⟨fs₂, hkeep⟩ := exists_createOrKeepDirectory (h.of_adds hadds) hinner
        (createDirectoriesWithin_ok hfs hparents) (Path.parent?_eq_some hq).1 hqinner
      refine ⟨fs₂, ?_⟩
      have hrun : createParents (depth' + 1) p fs = (.ok (), fs₁) := by
        rw [createParents, hq]
        exact hparents
      rw [createDirectoriesWithin_of_notFound _
        (FileSystem.createDirectory_of_missing h.isFollowable.check hfold), hrun]
      exact hkeep

theorem text_ne_nil_of_checkPath (h : FileSystem.checkPath p = .ok ()) : p.text ≠ [] := by
  intro hempty
  unfold FileSystem.checkPath at h
  rw [hempty] at h
  exact nomatch h

/-- Nothing stands in the way of making sure of a directory. -/
theorem FileSystem.IsFree.exists_ensureDirectory (h : fs.IsFree p) (hfs : fs.root.WellFormed) :
    ∃ fs', ensureDirectory p fs = (.ok (), fs') := by
  have hne := text_ne_nil_of_checkPath h.isFollowable.check
  by_cases hdir : fs.isDirectory p = true
  · exact ⟨fs, ensureDirectory_of_isDirectory hdir⟩
  · obtain ⟨depth, hdepth⟩ := Nat.exists_eq_succ_of_ne_zero fun hzero =>
      Path.components_ne_nil hne (List.length_eq_zero_iff.mp hzero)
    have hlength : (innerOf p.text).length ≤ depth + 1 := by
      rw [← Nat.succ_eq_add_one, ← hdepth, Path.components, List.length_append]
      exact Nat.le_add_left _ _
    obtain ⟨fs', hfs'⟩ := exists_createDirectoriesWithin depth hfs h hlength
    refine ⟨fs', ?_⟩
    rw [ensureDirectory_run, if_neg hdir, createDirectories, hdepth, hfs']
    rfl

/-! ## Paths that lead the same way -/

/-- What was missing on the way of one path can be made for another that leads the same way. -/
theorem FileSystem.AddsDirectories.isFree (hadds : fs.AddsDirectories p fs')
    (hp : fs'.isDirectory p = true) (habs : q.isAbsolute = p.isAbsolute)
    (hinner : innerOf q.text = innerOf p.text) (hcheck : FileSystem.checkPath q = .ok ())
    (hends : innerOf p.text ≠ [] → ∃ part ∈ q.parts.getLast?, Path.innerComponent? part ≠ none) :
    fs.IsFree q := by
  have hstart : fs.startOf q = fs.startOf p := FileSystem.startOf_eq_of_isAbsolute_eq habs
  have hstart' : fs'.startOf p = fs.startOf p := hadds.keepsDirectories.startOf p
  have hway : ∀ l, fs.OnWay p l → fs'.view l = some none := fun l hl =>
    FileSystem.view_of_onWay hp
      ((FileSystem.onWay_iff_of_workingDirectory_eq hadds.workingDirectory).mpr hl)
  refine ⟨⟨hcheck, fun c hc => ?_⟩, fun hne => ?_, ?_, fun l hl hsome => ?_⟩
  · rw [hinner] at hc
    exact (FileSystem.isDirectory_iff.mp hp).1.fits c hc
  · rw [hinner] at hne
    obtain ⟨part, hpart, hcomponent⟩ := hends hne
    rintro ⟨last, hlast, hidle⟩
    rw [Option.mem_def.mp hpart] at hlast
    rw [← Option.some.inj hlast] at hidle
    exact hcomponent hidle
  · rw [hstart]
    exact hadds.start (hway _ ⟨[], List.nil_prefix, rfl⟩)
  · rw [FileSystem.OnWay, hinner, hstart] at hl
    rcases hadds.view l with hsame | ⟨-, hnone, -⟩
    · rw [← hsame]
      exact hway l hl
    · exact absurd hnone hsome

/-- The same directories are made for a path that leads the same way. -/
theorem FileSystem.AddsDirectories.exists_ensureDirectory (hadds : fs.AddsDirectories p fs')
    (hfs : fs.root.WellFormed) (hp : fs'.isDirectory p = true)
    (habs : q.isAbsolute = p.isAbsolute) (hinner : innerOf q.text = innerOf p.text)
    (hcheck : q.text ≠ [] → FileSystem.checkPath q = .ok ())
    (hends : innerOf p.text ≠ [] → ∃ part ∈ q.parts.getLast?, Path.innerComponent? part ≠ none) :
    ∃ fs'', ensureDirectory q fs = (.ok (), fs'') ∧ fs.AddsDirectories q fs'' ∧
      ∀ l, fs''.view l = fs'.view l := by
  have hway : ∀ l, fs.OnWay q l ↔ fs.OnWay p l := fun l => by
    unfold FileSystem.OnWay
    rw [hinner, FileSystem.startOf_eq_of_isAbsolute_eq habs]
  by_cases hempty : q.text = []
  · refine ⟨fs, ensureDirectory_of_text_eq_nil hempty fs, .refl hfs q, fun l => ?_⟩
    refine ((hadds.view l).resolve_right ?_).symm
    rintro ⟨⟨cs, hcs, rfl⟩, hnone, hdir⟩
    rw [← hinner, hempty, Path.innerOf_nil, List.prefix_nil] at hcs
    rw [hcs] at hnone hdir
    exact nomatch (hadds.start hdir).symm.trans hnone
  · have hfree := hadds.isFree hp habs hinner (hcheck hempty) hends
    obtain ⟨fs'', hfs''⟩ := hfree.exists_ensureDirectory hfs
    have hadds'' := ensureDirectory_adds q hfs
    rw [hfs''] at hadds''
    refine ⟨fs'', hfs'', hadds'', fun l => ?_⟩
    -- Both calls make what is missing on the one way and touch nothing else.
    by_cases hon : fs.OnWay p l
    · have hdir := FileSystem.view_of_onWay hp
        ((FileSystem.onWay_iff_of_workingDirectory_eq hadds.workingDirectory).mpr hon)
      have hdir'' := FileSystem.view_of_onWay (ensureDirectory_ok hfs hempty hfs'')
        ((FileSystem.onWay_iff_of_workingDirectory_eq hadds''.workingDirectory).mpr
          ((hway l).mpr hon))
      rw [hdir, hdir'']
    · rw [(hadds.view l).resolve_right fun h => hon h.1,
        (hadds''.view l).resolve_right fun h => hon ((hway l).mp h.1)]

end Files
end StepStubs
