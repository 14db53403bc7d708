/-
Where files and their temporary files stand.

A file and its temporary file are entries of one directory, the one that the file is replaced in
(`spot_eq`, `temporarySpot_eq`).  The name of the temporary file is longer than the other, so they
are two entries, and neither is on the way to the directory if nothing leads back up.
-/
import StepStubs.Proofs.Files.Discovery
import StepStubs.Proofs.Files.Replace
import StepStubs.Proofs.Path.Normal

namespace StepStubs

open StepStubs.Path (Component innerOf IsName)

namespace Files

def temporaryName (name : Name) : Name := '.' :: name ++ ".tmp".toList

theorem length_temporaryName (name : Name) : (temporaryName name).length = name.length + 5 := by
  rw [temporaryName, List.cons_append, List.length_cons, List.length_append]
  rfl

theorem isName_temporaryName {name : Name} (h : '/' ∉ name) : IsName (temporaryName name) := by
  have hlength := length_temporaryName name
  refine ⟨?_, ?_, ?_, ?_⟩
  · intro he
    rw [he] at hlength
    exact nomatch hlength
  · intro he
    rw [he, List.length_singleton] at hlength
    omega
  · intro he
    rw [he] at hlength
    simp only [List.length_cons, List.length_nil] at hlength
    omega
  · rw [temporaryName, List.cons_append, List.mem_cons, List.mem_append]
    rintro (hc | hc | hc)
    · exact absurd hc (by decide)
    · exact h hc
    · exact absurd hc (by decide)

theorem temporaryName_injective {name name' : Name} (h : temporaryName name = temporaryName name') :
    name = name' := by
  rw [temporaryName, temporaryName, List.cons_append, List.cons_append, List.cons_inj_right] at h
  exact List.append_cancel_right h

namespace FileSystem

variable {fs : FileSystem} {directory : Path} {name : Name}

/-! ## Entries of a directory -/

theorem innerOf_join_dots (directory : Path) :
    innerOf (directory.join ⟨['.', '.']⟩).text = innerOf directory.text ++ [.parent] := by
  rw [Path.innerOf_join (by decide)]
  rfl

theorem isEntryOf_join (h : IsName name ∨ name = ['.', '.']) (directory : Path) :
    (directory.join ⟨name⟩).IsEntryOf directory := by
  rcases h with h | rfl
  · exact ⟨Path.isAbsolute_join (Path.isAbsolute_of_isName h) _, _, Path.innerOf_join_name h _⟩
  · exact ⟨Path.isAbsolute_join (by decide) _, .parent, innerOf_join_dots directory⟩

theorem spot_join_names {q : Path} {names : List Name} (hq : q.isAbsolute = false)
    (hinner : innerOf q.text = names.map .normal) (directory : Path) :
    fs.spot (directory.join q) = fs.spot directory ++ names := by
  rw [spot_of_innerOf_append (Path.isAbsolute_join hq directory)
    (by rw [Path.innerOf_join hq, hinner]), foldl_moveBy_names]

theorem spot_join (h : IsName name) (directory : Path) :
    fs.spot (directory.join ⟨name⟩) = fs.spot directory ++ [name] := by
  have hinner : innerOf (⟨name⟩ : Path).text = [name].map .normal := Path.innerOf_of_isName h
  exact spot_join_names (Path.isAbsolute_of_isName h) hinner directory

/-! ## A file and its temporary file -/

theorem inner_directoryFor {p : Path} {cs : List Component} {c : Component}
    (h : innerOf p.text = cs ++ [c]) :
    p.parent? = some (directoryFor p) ∧ innerOf (directoryFor p).text = cs ∧
      (directoryFor p).isAbsolute = p.isAbsolute := by
  obtain ⟨q, hq, hinner, habs, -, -⟩ := Path.exists_parent h
  rw [directoryFor, hq]
  exact ⟨rfl, hinner, habs⟩

theorem spot_eq {p : Path} (hname : p.fileName? = some name) :
    fs.spot p = fs.spot (directoryFor p) ++ [name] := by
  obtain ⟨cs, hcs⟩ := Path.exists_innerOf_of_fileName? hname
  obtain ⟨-, hinner, habs⟩ := inner_directoryFor hcs
  rw [spot_of_innerOf_append habs.symm (hcs.trans (by rw [hinner]))]
  rfl

theorem temporaryPath_eq {p : Path} (hname : p.fileName? = some name) :
    temporaryPath p = (directoryFor p).join ⟨temporaryName name⟩ := by
  obtain ⟨cs, hcs⟩ := Path.exists_innerOf_of_fileName? hname
  rw [temporaryPath, hname, (inner_directoryFor hcs).1]
  rfl

/-- The temporary file stands beside the file. -/
theorem temporarySpot_eq {p : Path} (hname : p.fileName? = some name) :
    fs.temporarySpot p = fs.spot (directoryFor p) ++ [temporaryName name] := by
  have hslash := (Path.isName_of_fileName? hname).2.2.2
  rw [temporarySpot, temporaryPath_eq hname, spot_join (isName_temporaryName hslash)]

theorem temporarySpot_join (h : IsName name) (directory : Path) :
    fs.temporarySpot (directory.join ⟨name⟩) = fs.spot directory ++ [temporaryName name] := by
  have hname := Path.fileName?_join_name h directory
  rw [temporarySpot_eq hname,
    List.append_cancel_right ((spot_eq hname).symm.trans (spot_join h directory))]

theorem length_le_foldl_moveBy {cs : List Component} (h : Component.parent ∉ cs)
    (here : Location) : here.length ≤ (cs.foldl moveBy here).length := by
  induction cs generalizing here with
  | nil => exact Nat.le_refl _
  | cons c cs ih =>
    have hstep : here.length ≤ (moveBy here c).length := by
      cases c with
      | parent => exact absurd List.mem_cons_self h
      | normal name => simp [moveBy]
      | root | current => exact Nat.le_refl _
    exact hstep.trans (ih (List.not_mem_of_not_mem_cons h) _)

/-- What is on the way of a path that never goes back up is no deeper than its end. -/
theorem OnWay.length_le {p : Path} {l : Location} (h : fs.OnWay p l)
    (hdots : Component.parent ∉ innerOf p.text) : l.length ≤ (fs.spot p).length := by
  obtain ⟨cs, ⟨ds, hds⟩, rfl⟩ := h
  rw [spot, ← hds, List.foldl_append]
  exact length_le_foldl_moveBy (fun hmem => hdots (hds ▸ List.mem_append_right _ hmem)) _

/-- Are the file and its temporary file two entries, neither of them on the way to their
directory? -/
structure KeepsApart (fs : FileSystem) (p : Path) : Prop where
  temporary_ne : fs.temporarySpot p ≠ fs.spot p
  not_onWay : ¬ fs.OnWay (directoryFor p) (fs.spot p)
  temporary_not_onWay : ¬ fs.OnWay (directoryFor p) (fs.temporarySpot p)

theorem keepsApart {p : Path} (hname : p.fileName? = some name)
    (hdots : Component.parent ∉ p.components) (fs : FileSystem) : fs.KeepsApart p := by
  obtain ⟨cs, hcs⟩ := Path.exists_innerOf_of_fileName? hname
  have hdots' : Component.parent ∉ innerOf (directoryFor p).text := by
    rw [(inner_directoryFor hcs).2.1]
    intro hmem
    have hmem' : Component.parent ∈ innerOf p.text := hcs ▸ List.mem_append_left _ hmem
    exact hdots (List.mem_append_right _ hmem')
  -- An entry of the directory is deeper than what is on the way to it.
  have hdeeper : ∀ n : Name, ¬ fs.OnWay (directoryFor p) (fs.spot (directoryFor p) ++ [n]) := by
    intro n hway
    have hlength := hway.length_le hdots'
    rw [List.length_append, List.length_singleton] at hlength
    omega
  refine ⟨?_, ?_, ?_⟩
  · rw [temporarySpot_eq hname, spot_eq hname]
    intro h
    have hlength := congrArg List.length (List.cons.inj (List.append_cancel_left h)).1
    rw [length_temporaryName] at hlength
    omega
  · rw [spot_eq hname]
    exact hdeeper name
  · rw [temporarySpot_eq hname]
    exact hdeeper _

/-! ## The directory above -/

theorem spot_join_dots (directory : Path) :
    fs.spot (directory.join ⟨['.', '.']⟩) = (fs.spot directory).dropLast := by
  rw [spot_of_innerOf_append (Path.isAbsolute_join (by decide) directory)
    (innerOf_join_dots directory)]
  rfl

/-- The temporary file for the directory above stands in that directory. -/
theorem temporarySpot_join_dots (directory : Path) :
    fs.temporarySpot (directory.join ⟨['.', '.']⟩) =
      (fs.spot directory).dropLast ++ [".tmp".toList] := by
  have hname : (directory.join ⟨['.', '.']⟩).fileName? = none := by
    rw [Path.fileName?, Path.getLast?_components (innerOf_join_dots directory)]
  have htemporary : temporaryPath (directory.join ⟨['.', '.']⟩) =
      (directory.join ⟨['.', '.']⟩).join ⟨".tmp".toList⟩ := by
    rw [temporaryPath, hname]
  rw [temporarySpot, htemporary, spot_join (by decide), spot_join_dots]

/-- No file can take the place of the directory above. -/
theorem not_offers_join_dots (directory : Path) :
    ¬ fs.Offers (directory.join ⟨['.', '.']⟩) := by
  rintro ⟨d, name, hplace, -⟩
  obtain ⟨cs, hcs, -⟩ := exists_of_placeOf hplace
  rw [innerOf_join_dots] at hcs
  exact nomatch (List.append_inj' hcs rfl).2

end FileSystem
end Files
end StepStubs
