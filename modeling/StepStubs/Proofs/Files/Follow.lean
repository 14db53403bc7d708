/-
Following paths.

A tree without links gives a path one meaning only: `spot` finds the location on the text
alone, and `locate` finds that location or nothing.  Whether it finds it depends on the text,
that is on how long the path and its names are, and on the directories that the path leads
through.  So what a path leads to stays the same as long as these directories stay and
nothing changes at the spot itself.
-/
import StepStubs.Files.System
import StepStubs.Proofs.Files.Tree
import StepStubs.Proofs.Path.Components
import StepStubs.Proofs.Text.Basic

namespace StepStubs
namespace Files

open StepStubs.Path (Component innerOf)

/-- A computation with two parts succeeds if both do. -/
theorem bind_eq_ok_iff {ε α β : Type} {x : Except ε α} {f : α → Except ε β} {b : β} :
    x >>= f = .ok b ↔ ∃ a, x = .ok a ∧ f a = .ok b := by
  cases x with
  | error e =>
    constructor
    · exact nofun
    · rintro ⟨_, h, -⟩
      exact nomatch h
  | ok a =>
    constructor
    · exact fun h => ⟨a, rfl, h⟩
    · rintro ⟨_, h, hf⟩
      rw [← Except.ok.inj h] at hf
      exact hf

namespace FileSystem

variable {fs fs' : FileSystem}

/-! ## Spots -/

/-- What stands at a location: a file with its bytes, a directory, or nothing. -/
def view (fs : FileSystem) (l : Location) : Option (Option ByteArray) := fs.root.view l

theorem view_eq_none_iff {l : Location} : fs.view l = none ↔ fs.at? l = none :=
  Node.view_eq_none_iff

theorem view_eq_directory_iff {l : Location} :
    fs.view l = some none ↔ ∃ es, fs.at? l = some (.directory es) :=
  Node.view_eq_directory_iff

theorem view_eq_file_iff {l : Location} {b : ByteArray} :
    fs.view l = some (some b) ↔ fs.at? l = some (.file b) :=
  Node.view_eq_file_iff

/-- Where a component leads from a location. -/
def moveBy (here : Location) : Component → Location
  | .normal name => here ++ [name]
  | .parent => here.dropLast
  | _ => here

/-- The location that a path names. -/
def spot (fs : FileSystem) (p : Path) : Location := (innerOf p.text).foldl moveBy (fs.startOf p)

theorem spot_eq_of_workingDirectory_eq (h : fs'.workingDirectory = fs.workingDirectory)
    (p : Path) : fs'.spot p = fs.spot p := by
  rw [spot, spot, startOf, startOf, h]

theorem startOf_eq_of_isAbsolute_eq {p q : Path} (h : p.isAbsolute = q.isAbsolute) :
    fs.startOf p = fs.startOf q := by
  rw [startOf, startOf, h]

theorem spot_of_innerOf_append {p q : Path} {cs : List Component}
    (habs : q.isAbsolute = p.isAbsolute) (h : innerOf q.text = innerOf p.text ++ cs) :
    fs.spot q = cs.foldl moveBy (fs.spot p) := by
  rw [spot, h, List.foldl_append, startOf_eq_of_isAbsolute_eq habs, ← spot]

theorem view_dropLast_of_directory {l : Location} (h : fs.view l = some none) :
    fs.view l.dropLast = some none := by
  rcases List.eq_nil_or_concat l with rfl | ⟨d, name, rfl⟩
  · exact h
  · rw [List.concat_eq_append] at h ⊢
    rw [List.dropLast_concat]
    exact Node.view_eq_directory_of_append (List.cons_ne_nil name []) (by
      rw [← view, h]
      exact nofun)

/-! ## Entering -/

/-- Is the component short enough to be entered? -/
def Fits : Component → Prop
  | .normal name => Text.byteLength name ≤ maxNameLength
  | _ => True

theorem directoryAt_eq_ok_iff {here : Location} {n : Node} :
    fs.directoryAt here = .ok n ↔ fs.view here = some none ∧ fs.at? here = some n := by
  rw [directoryAt, view_eq_directory_iff]
  cases fs.at? here with
  | none => simp
  | some m => cases m <;> simp

theorem exists_directoryAt {here : Location} (h : fs.view here = some none) :
    ∃ n, fs.directoryAt here = .ok n := by
  obtain ⟨es, hes⟩ := view_eq_directory_iff.mp h
  exact ⟨_, directoryAt_eq_ok_iff.mpr ⟨h, hes⟩⟩

theorem at?_concat {here : Location} {n : Node} (h : fs.at? here = some n) (name : Name) :
    fs.at? (here ++ [name]) = n.child? name := by
  show fs.root.at? (here ++ [name]) = _
  rw [Node.at?_append]
  show (fs.at? here).bind _ = _
  rw [h, Option.bind_some, Node.at?]
  cases n.child? name <;> rfl

theorem enterName_eq_ok_iff {here l : Location} {name : Name} :
    fs.enterName here name = .ok l ↔
      fs.view here = some none ∧ Text.byteLength name ≤ maxNameLength ∧ l = here ++ [name] ∧
        fs.view l ≠ none := by
  rw [enterName, bind_eq_ok_iff]
  constructor
  · rintro ⟨n, hn, h⟩
    obtain ⟨hview, hat⟩ := directoryAt_eq_ok_iff.mp hn
    by_cases hlong : Text.byteLength name > maxNameLength
    · rw [if_pos hlong] at h
      exact nomatch h
    · rw [if_neg hlong] at h
      by_cases hchild : (n.child? name).isSome = true
      · rw [if_pos hchild] at h
        have hl := Except.ok.inj h
        refine ⟨hview, by omega, hl.symm, ?_⟩
        rw [Ne, view_eq_none_iff, ← hl, at?_concat hat]
        exact Option.isSome_iff_ne_none.mp hchild
      · rw [if_neg hchild] at h
        exact nomatch h
  · rintro ⟨hview, hshort, rfl, hl⟩
    obtain ⟨n, hn⟩ := exists_directoryAt hview
    have hat := (directoryAt_eq_ok_iff.mp hn).2
    rw [Ne, view_eq_none_iff, at?_concat hat] at hl
    refine ⟨n, hn, ?_⟩
    rw [if_neg (by omega), if_pos (Option.isSome_iff_ne_none.mpr hl)]

theorem enter_eq_ok_iff_of_idle {here l : Location} {part : Text}
    (hpart : Path.innerComponent? part = none) :
    fs.enter here part = .ok l ↔ fs.view here = some none ∧ l = here := by
  rw [enter, hpart]
  show (fs.directoryAt here >>= fun _ => .ok here) = _ ↔ _
  rw [bind_eq_ok_iff]
  constructor
  · rintro ⟨n, hn, h⟩
    exact ⟨(directoryAt_eq_ok_iff.mp hn).1, (Except.ok.inj h).symm⟩
  · rintro ⟨hview, rfl⟩
    obtain ⟨n, hn⟩ := exists_directoryAt hview
    exact ⟨n, hn, rfl⟩

theorem enter_eq_ok_iff {here l : Location} {part : Text} {c : Component}
    (hpart : Path.innerComponent? part = some c) :
    fs.enter here part = .ok l ↔
      fs.view here = some none ∧ Fits c ∧ l = moveBy here c ∧ fs.view l ≠ none := by
  rw [enter, hpart]
  rcases Path.innerComponent?_eq_some hpart with rfl | rfl
  · show (fs.directoryAt here >>= fun _ => .ok here.dropLast) = _ ↔ _
    rw [bind_eq_ok_iff]
    constructor
    · rintro ⟨n, hn, h⟩
      have hview := (directoryAt_eq_ok_iff.mp hn).1
      refine ⟨hview, trivial, (Except.ok.inj h).symm, ?_⟩
      rw [← Except.ok.inj h, view_dropLast_of_directory hview]
      exact nofun
    · rintro ⟨hview, -, rfl, -⟩
      obtain ⟨n, hn⟩ := exists_directoryAt hview
      exact ⟨n, hn, rfl⟩
  · exact enterName_eq_ok_iff

/-! ## Following the parts of a path -/

/-- Are there directories wherever the components lead through, and is there something where
they lead to? -/
def Passes (fs : FileSystem) : (here : Location) → List Component → Prop
  | here, [] => fs.view here ≠ none
  | here, c :: cs => fs.view here = some none ∧ fs.Passes (moveBy here c) cs

/-- Is the last part no component, so that a path with these parts can lead to a directory
only? -/
def EndsIdle (parts : List Text) : Prop :=
  ∃ part ∈ parts.getLast?, Path.innerComponent? part = none

theorem endsIdle_cons {part : Text} {parts : List Text} (h : parts ≠ []) :
    EndsIdle (part :: parts) ↔ EndsIdle parts := by
  rw [EndsIdle, EndsIdle, List.getLast?_cons_of_ne_nil h]

theorem endsIdle_cons_of_component {part : Text} {parts : List Text} {c : Component}
    (hpart : Path.innerComponent? part = some c) : EndsIdle (part :: parts) ↔ EndsIdle parts := by
  by_cases hparts : parts = []
  · subst hparts
    constructor
    · rintro ⟨_, h, hnone⟩
      rw [← Option.some.inj h] at hnone
      exact nomatch hpart.symm.trans hnone
    · rintro ⟨_, h, _⟩
      exact nomatch h
  · exact endsIdle_cons hparts

theorem EndsIdle.cons {parts : List Text} (h : EndsIdle parts) (part : Text) :
    EndsIdle (part :: parts) := by
  refine (endsIdle_cons ?_).mpr h
  rintro rfl
  obtain ⟨_, hlast, _⟩ := h
  exact nomatch hlast

/-- Parts that lead nowhere end idle. -/
theorem endsIdle_of_filterMap_eq_nil {part : Text} {parts : List Text}
    (h : (part :: parts).filterMap Path.innerComponent? = []) : EndsIdle (part :: parts) :=
  ⟨_, List.getLast?_eq_some_getLast (List.cons_ne_nil part parts),
    List.filterMap_eq_nil_iff.mp h _ (List.getLast_mem (List.cons_ne_nil part parts))⟩

theorem view_start_of_passes {here : Location} {cs : List Component} (h : fs.Passes here cs) :
    fs.view here ≠ none := by
  cases cs with
  | nil => exact h
  | cons c cs =>
    rw [h.1]
    exact nofun

theorem view_start_of_passes_directory {here : Location} {cs : List Component}
    (h : fs.Passes here cs) (hend : fs.view (cs.foldl moveBy here) = some none) :
    fs.view here = some none := by
  cases cs with
  | nil => exact hend
  | cons c cs => exact h.1

theorem passes_append {here : Location} {cs ds : List Component} :
    fs.Passes here (cs ++ ds) ↔ fs.Passes here cs ∧ fs.Passes (cs.foldl moveBy here) ds := by
  induction cs generalizing here with
  | nil => exact ⟨fun h => ⟨view_start_of_passes h, h⟩, And.right⟩
  | cons c cs ih => rw [List.cons_append, Passes, Passes, ih, List.foldl_cons, and_assoc]

/-- Following parts finds the location that they name, if they are short enough and pass. -/
theorem foldlM_enter_eq_ok_iff {here l : Location} {parts : List Text} :
    (parts.foldlM fs.enter here = .ok l ∧ fs.view l ≠ none) ↔
      l = (parts.filterMap Path.innerComponent?).foldl moveBy here ∧
        (∀ c ∈ parts.filterMap Path.innerComponent?, Fits c) ∧
        fs.Passes here (parts.filterMap Path.innerComponent?) ∧
        (EndsIdle parts → fs.view l = some none) := by
  induction parts generalizing here with
  | nil =>
    constructor
    · rintro ⟨h, hl⟩
      have hl' : here = l := Except.ok.inj h
      rw [← hl'] at hl ⊢
      exact ⟨rfl, fun _ h => absurd h List.not_mem_nil, hl, fun ⟨_, h, _⟩ => nomatch h⟩
    · rintro ⟨rfl, -, hpasses, -⟩
      exact ⟨rfl, hpasses⟩
  | cons part parts ih =>
    rw [List.foldlM_cons, bind_eq_ok_iff]
    cases hpart : Path.innerComponent? part with
    | none =>
      rw [List.filterMap_cons_none hpart]
      constructor
      · rintro ⟨⟨here', henter, h⟩, hl⟩
        obtain ⟨hhere, rfl⟩ := (enter_eq_ok_iff_of_idle hpart).mp henter
        obtain ⟨hl', hfits, hpasses, hidle⟩ := ih.mp ⟨h, hl⟩
        refine ⟨hl', hfits, hpasses, fun hend => ?_⟩
        by_cases hparts : parts = []
        · rw [hl', hparts]
          exact hhere
        · exact hidle ((endsIdle_cons hparts).mp hend)
      · rintro ⟨hl, hfits, hpasses, hidle⟩
        have hhere : fs.view here = some none := by
          cases hcs : parts.filterMap Path.innerComponent? with
          | cons c cs =>
            rw [hcs] at hpasses
            exact hpasses.1
          | nil =>
            -- No part leads anywhere, so the last one is idle as well.
            have hdir := hidle (endsIdle_of_filterMap_eq_nil
              ((List.filterMap_cons_none hpart).trans hcs))
            rwa [hl, hcs] at hdir
        have hrest := ih.mpr ⟨hl, hfits, hpasses, fun hend => hidle (hend.cons part)⟩
        exact ⟨⟨here, (enter_eq_ok_iff_of_idle hpart).mpr ⟨hhere, rfl⟩, hrest.1⟩, hrest.2⟩
    | some c =>
      rw [List.filterMap_cons_some hpart, List.forall_mem_cons, List.foldl_cons,
        endsIdle_cons_of_component hpart]
      constructor
      · rintro ⟨⟨here', henter, h⟩, hl⟩
        obtain ⟨hhere, hfit, rfl, -⟩ := (enter_eq_ok_iff hpart).mp henter
        obtain ⟨hl', hfits, hpasses, hidle⟩ := ih.mp ⟨h, hl⟩
        exact ⟨hl', ⟨hfit, hfits⟩, ⟨hhere, hpasses⟩, hidle⟩
      · rintro ⟨hl, ⟨hfit, hfits⟩, ⟨hhere, hpasses⟩, hidle⟩
        have hrest := ih.mpr ⟨hl, hfits, hpasses, hidle⟩
        have henter := (enter_eq_ok_iff hpart).mpr
          ⟨hhere, hfit, rfl, view_start_of_passes hpasses⟩
        exact ⟨⟨_, henter, hrest.1⟩, hrest.2⟩

theorem foldlM_enter_eq_ok {here : Location} {parts : List Text} {cs : List Component}
    (hcs : parts.filterMap Path.innerComponent? = cs) (hfits : ∀ c ∈ cs, Fits c)
    (hpasses : fs.Passes here cs) (hview : fs.view (cs.foldl moveBy here) = some none) :
    parts.foldlM fs.enter here = .ok (cs.foldl moveBy here) := by
  subst hcs
  exact (foldlM_enter_eq_ok_iff.mpr ⟨rfl, hfits, hpasses, fun _ => hview⟩).1

/-! ## What a path leads to -/

/-- Can the path be followed, as far as its text tells? -/
structure IsFollowable (p : Path) : Prop where
  check : checkPath p = .ok ()
  fits : ∀ c ∈ innerOf p.text, Fits c

/-- Does the path lead through directories to something in the tree? -/
structure Reaches (fs : FileSystem) (p : Path) : Prop where
  passes : fs.Passes (fs.startOf p) (innerOf p.text)
  ends : EndsIdle p.parts → fs.view (fs.spot p) = some none

theorem locate_eq_ok_iff {p : Path} {l : Location} :
    (fs.locate p = .ok l ∧ fs.view l ≠ none) ↔
      l = fs.spot p ∧ IsFollowable p ∧ fs.Reaches p := by
  rw [locate, bind_eq_ok_iff]
  constructor
  · rintro ⟨⟨_, hcheck, h⟩, hl⟩
    obtain ⟨rfl, hfits, hpasses, hends⟩ := foldlM_enter_eq_ok_iff.mp ⟨h, hl⟩
    exact ⟨rfl, ⟨hcheck, hfits⟩, hpasses, hends⟩
  · rintro ⟨rfl, ⟨hcheck, hfits⟩, hpasses, hends⟩
    obtain ⟨h, hl⟩ := foldlM_enter_eq_ok_iff.mpr ⟨rfl, hfits, hpasses, hends⟩
    exact ⟨⟨(), hcheck, h⟩, hl⟩

theorem lookup_eq_ok_iff {p : Path} {n : Node} :
    fs.lookup p = .ok n ↔ IsFollowable p ∧ fs.Reaches p ∧ fs.at? (fs.spot p) = some n := by
  rw [lookup, bind_eq_ok_iff]
  constructor
  · rintro ⟨l, hlocate, h⟩
    cases hat : fs.at? l with
    | none =>
      rw [hat] at h
      exact nomatch h
    | some m =>
      have hview : fs.view l ≠ none := by
        rw [Ne, view_eq_none_iff, hat]
        exact nofun
      obtain ⟨rfl, hp, hreach⟩ := locate_eq_ok_iff.mp ⟨hlocate, hview⟩
      rw [hat] at h
      rw [← Except.ok.inj h]
      exact ⟨hp, hreach, hat⟩
  · rintro ⟨hp, hreach, hat⟩
    refine ⟨fs.spot p, (locate_eq_ok_iff.mpr ⟨rfl, hp, hreach⟩).1, ?_⟩
    rw [hat]

theorem isDirectory_iff {p : Path} :
    fs.isDirectory p = true ↔
      IsFollowable p ∧ fs.Passes (fs.startOf p) (innerOf p.text) ∧
        fs.view (fs.spot p) = some none := by
  rw [isDirectory]
  constructor
  · intro h
    cases hlookup : fs.lookup p with
    | error e =>
      rw [hlookup] at h
      exact nomatch h
    | ok n =>
      rw [hlookup] at h
      cases n with
      | file b => exact nomatch h
      | directory es =>
        obtain ⟨hp, hreach, hat⟩ := lookup_eq_ok_iff.mp hlookup
        exact ⟨hp, hreach.passes, view_eq_directory_iff.mpr ⟨es, hat⟩⟩
  · rintro ⟨hp, hpasses, hview⟩
    obtain ⟨es, hat⟩ := view_eq_directory_iff.mp hview
    rw [lookup_eq_ok_iff.mpr ⟨hp, ⟨hpasses, fun _ => hview⟩, hat⟩]
    rfl

theorem contentOf_eq_ok_iff {p : Path} {b : ByteArray} :
    fs.contentOf p = .ok b ↔
      IsFollowable p ∧ fs.Reaches p ∧ fs.view (fs.spot p) = some (some b) := by
  rw [contentOf, bind_eq_ok_iff]
  constructor
  · rintro ⟨n, hlookup, h⟩
    obtain ⟨hp, hreach, hat⟩ := lookup_eq_ok_iff.mp hlookup
    cases n with
    | directory es => exact nomatch h
    | file b' =>
      have hb : b' = b := Except.ok.inj h
      rw [hb] at hat
      exact ⟨hp, hreach, view_eq_file_iff.mpr hat⟩
  · rintro ⟨hp, hreach, hview⟩
    exact ⟨_, lookup_eq_ok_iff.mpr ⟨hp, hreach, view_eq_file_iff.mp hview⟩, rfl⟩

/-- The start of a path can be followed as far as its length and its characters go. -/
theorem checkPath_of_prefix {p q : Path} (hq : q.text <+: p.text) (hne : q.text ≠ [])
    (h : checkPath p = .ok ()) : checkPath q = .ok () := by
  obtain ⟨t, ht⟩ := hq
  rw [checkPath, ← ht] at h
  rw [checkPath]
  by_cases hnull : (q.text ++ t).contains '\x00' = true
  · rw [if_pos hnull] at h
    exact nomatch h
  · rw [if_neg hnull] at h
    have hnull' : ¬ q.text.contains '\x00' = true := by
      intro hc
      simp only [List.contains_eq_mem, decide_eq_true_eq, List.mem_append, not_or] at hnull hc
      exact hnull.1 hc
    rw [if_neg hnull', if_neg hne]
    rw [if_neg fun he => hne (List.append_eq_nil_iff.mp he).1] at h
    by_cases hlong : Text.byteLength (q.text ++ t) > maxPathLength
    · rw [if_pos hlong] at h
      exact nomatch h
    · rw [Text.byteLength_append] at hlong
      rw [if_neg (by omega)]

/-! ## Trees with the same directories -/

/-- Is every directory of the one tree a directory of the other, and do relative paths start
at the same place? -/
structure KeepsDirectories (fs fs' : FileSystem) : Prop where
  workingDirectory : fs'.workingDirectory = fs.workingDirectory
  directory : ∀ l, fs.view l = some none → fs'.view l = some none

theorem KeepsDirectories.trans {fs₁ fs₂ fs₃ : FileSystem} (h : fs₁.KeepsDirectories fs₂)
    (h' : fs₂.KeepsDirectories fs₃) : fs₁.KeepsDirectories fs₃ :=
  ⟨h'.workingDirectory.trans h.workingDirectory, fun l hl => h'.directory l (h.directory l hl)⟩

theorem KeepsDirectories.spot (h : fs.KeepsDirectories fs') (p : Path) : fs'.spot p = fs.spot p :=
  spot_eq_of_workingDirectory_eq h.workingDirectory p

theorem KeepsDirectories.startOf (h : fs.KeepsDirectories fs') (p : Path) :
    fs'.startOf p = fs.startOf p := by
  rw [FileSystem.startOf, FileSystem.startOf, h.workingDirectory]

theorem KeepsDirectories.passes (h : fs.KeepsDirectories fs') {here : Location}
    {cs : List Component} (hpasses : fs.Passes here cs)
    (hend : fs'.view (cs.foldl moveBy here) ≠ none) : fs'.Passes here cs := by
  induction cs generalizing here with
  | nil => exact hend
  | cons c cs ih => exact ⟨h.directory here hpasses.1, ih hpasses.2 hend⟩

theorem KeepsDirectories.reaches (h : fs.KeepsDirectories fs') {p : Path} (hp : fs.Reaches p)
    (hend : fs'.view (fs.spot p) ≠ none) : fs'.Reaches p := by
  refine ⟨?_, fun hidle => ?_⟩
  · rw [h.startOf]
    exact h.passes hp.passes hend
  · rw [h.spot]
    exact h.directory _ (hp.ends hidle)

theorem KeepsDirectories.isDirectory (h : fs.KeepsDirectories fs') {p : Path}
    (hp : fs.isDirectory p = true) : fs'.isDirectory p = true := by
  obtain ⟨hfollow, hpasses, hview⟩ := isDirectory_iff.mp hp
  have hview' := h.directory _ hview
  refine isDirectory_iff.mpr ⟨hfollow, ?_, ?_⟩
  · rw [h.startOf]
    refine h.passes hpasses ?_
    rw [← FileSystem.spot, hview']
    exact nofun
  · rw [h.spot]
    exact hview'

end FileSystem
end Files
end StepStubs
