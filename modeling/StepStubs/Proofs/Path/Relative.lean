/-
Relative paths undo joining.

Two normal paths part behind the longest list of components that both start with (`PartsAt`).  If
what is left of the base is names only, each of them is left again by a `..` of the relative path,
and what is left of the other path leads on from there.  So the base joined with the relative path
is the path again (`relativeTo_inverts_join`).

What is left of an absolute base is names always.  A base that is not absolute can be left with a
`..`, or with the dot of the empty stack, and no name is known that would lead back.

From any base, two entries of one directory have different relative paths, and these are shown
differently (`eq_of_displayRelative_join_eq`).
-/
import StepStubs.Proofs.Path.Normal

namespace StepStubs
namespace Path

variable {p base : Path} {as bs common down up : List Component}

/-! ## Where two paths part -/

theorem PartsAt.dropCommon_eq (h : PartsAt as bs common down up) :
    dropCommon as bs = (down, up) := by
  obtain ⟨common', h'⟩ := exists_partsAt_dropCommon as bs
  have hsame : common' = common :=
    (h.longest _ ⟨_, h'.down.symm⟩ ⟨_, h'.up.symm⟩).eq_of_length_le
      (h'.longest _ ⟨_, h.down.symm⟩ ⟨_, h.up.symm⟩).length_le
  rw [hsame] at h'
  exact Prod.ext (List.append_cancel_left (h'.down.symm.trans h.down))
    (List.append_cancel_left (h'.up.symm.trans h.up))

/-! ## The text of a relative path -/

theorem join_eq_append_flatMap (a : Text) (ts : List Text) :
    Text.join ['/'] (a :: ts) = a ++ ts.flatMap ('/' :: ·) := by
  induction ts generalizing a with
  | nil => rw [Text.join, List.intercalate_singleton, List.flatMap_nil, List.append_nil]
  | cons b ts ih => rw [join_cons_cons, ih, List.flatMap_cons, List.cons_append]

/-- Behind a text that does not end in a slash, each component follows a slash. -/
theorem text_foldl_join {cs : List Component} (h : ∀ c ∈ cs, IsInner c) (hne : p.text ≠ [])
    (hlast : p.text.getLast? ≠ some '/') :
    (cs.foldl (fun p c => p.join ⟨c.text⟩) p).text =
      p.text ++ (cs.map Component.text).flatMap ('/' :: ·) := by
  induction cs generalizing p with
  | nil => rw [List.foldl_nil, List.map_nil, List.flatMap_nil, List.append_nil]
  | cons c cs ih =>
    have hc := h c List.mem_cons_self
    have hjoin : (p.join ⟨c.text⟩).text = p.text ++ '/' :: c.text := by
      rw [join, if_neg (by rw [isAbsolute_of_not_mem hc.slash_not_mem]; exact Bool.false_ne_true),
        if_neg (not_or.mpr ⟨hne, hlast⟩)]
    rw [List.foldl_cons, ih (fun d hd => h d (List.mem_cons_of_mem c hd)), hjoin, List.map_cons,
      List.flatMap_cons, List.append_assoc]
    · rw [hjoin]
      exact List.append_ne_nil_of_right_ne_nil _ (List.cons_ne_nil _ _)
    · obtain ⟨d, t, hd⟩ := List.exists_cons_of_ne_nil hc.text_ne_nil
      rw [hjoin, List.getLast?_append, hd, List.getLast?_cons_cons,
        Option.or_of_isSome (List.getLast?_isSome.mpr (List.cons_ne_nil d t)), ← hd]
      exact fun hslash => hc.slash_not_mem (List.mem_of_getLast? hslash)

/-- Names and `..` in a row are written with a slash between them. -/
theorem text_ofComponentsOrDot {cs : List Component} (h : ∀ c ∈ cs, IsInner c) (hne : cs ≠ []) :
    (ofComponentsOrDot cs).text = Text.join ['/'] (cs.map Component.text) := by
  obtain ⟨c, cs, rfl⟩ := List.exists_cons_of_ne_nil hne
  have hc := h c List.mem_cons_self
  have hrest := text_foldl_join (p := ⟨c.text⟩) (fun d hd => h d (List.mem_cons_of_mem c hd))
    hc.text_ne_nil fun hslash => hc.slash_not_mem (List.mem_of_getLast? hslash)
  rw [ofComponentsOrDot_of_components (components_ofComponents h) hne, ofComponents,
    List.foldl_cons, hc.nil_join, hrest, List.map_cons, join_eq_append_flatMap]

/-! ## The way back -/

/-- From a base of which names only are left, the relative path leads to the path. -/
theorem stackOf_join_relativeTo_of_partsAt
    (h : PartsAt p.normalize.components base.normalize.components common down up)
    (hup : ∀ c ∈ up, ∃ name, c = .normal name) :
    (base.join (p.relativeTo base)).stackOf = p.stackOf := by
  have hcurrent : ∀ q : Path, ∀ cs, q.stackOf.reverse = .current :: cs → False := fun q cs hq =>
    current_not_mem_stackOf q (List.mem_reverse.mp (hq ▸ List.mem_cons_self))
  cases hp : p.isAbsolute with
  | true =>
    cases hbase : base.isAbsolute with
    | true => exact stackOf_join_relativeTo_of_isAbsolute_base hp hbase
    | false => exact stackOf_join_relativeTo_of_isAbsolute hp hbase
  | false =>
    have hps := h.down
    have hbs := h.up
    rw [components_normalize] at hps hbs
    by_cases hbase : base.stackOf = []
    · -- The dot of the base is no name, so the path starts with it, and is the dot.
      rw [if_pos hbase] at hbs
      cases common with
      | nil =>
        rw [List.nil_append] at hbs
        obtain ⟨name, hname⟩ := hup .current (by rw [← hbs]; exact List.mem_cons_self)
        exact nomatch hname
      | cons c cs =>
        rw [List.cons_append] at hps hbs
        rw [← (List.cons.inj hbs).1] at hps
        by_cases hempty : p.stackOf = []
        · rw [relativeTo_eq, components_normalize, components_normalize, if_pos hbase,
            if_pos hempty, stackOf_join (by decide), hbase, hempty]
          rfl
        · rw [if_neg hempty] at hps
          exact (hcurrent p _ hps).elim
    · rw [if_neg hbase, List.reverse_eq_iff, List.reverse_append] at hbs
      have hnames : ∀ c ∈ up.reverse, ∃ name, c = .normal name := fun c hc =>
        hup c (List.mem_reverse.mp hc)
      by_cases hempty : p.stackOf = []
      · -- The dot of the path is not in the base, so nothing is shared.
        rw [if_pos hempty] at hps
        cases common with
        | nil =>
          have hnone : p.stackOf = [] ++ [] := hempty
          exact stackOf_join_relativeTo hbs hnone hnames
            (fun c hc => absurd hc List.not_mem_nil) hbase
        | cons c cs =>
          rw [List.cons_append] at hps
          rw [← (List.cons.inj hps).1, ← List.reverse_append] at hbs
          exact (hcurrent base _ (List.reverse_eq_iff.mpr hbs)).elim
      · rw [if_neg hempty, List.reverse_eq_iff, List.reverse_append] at hps
        refine stackOf_join_relativeTo hbs hps hnames (fun c hc => ?_) hbase
        exact isInner_of_mem_stackOf hp c (hps ▸ List.mem_append_left _ hc)

/-- The components of an absolute path are names behind the root. -/
theorem exists_components_normalize_eq_root (h : p.isAbsolute = true) :
    ∃ names, p.normalize.components = .root :: names ∧
      ∀ c ∈ names, IsInner c ∧ ∃ name, c = .normal name := by
  obtain ⟨names, hnames, hnormal, hinner⟩ := exists_stackOf_eq_append_root h
  have hne : p.stackOf ≠ [] := by
    rw [hnames]
    exact List.append_ne_nil_of_right_ne_nil _ (List.cons_ne_nil _ _)
  refine ⟨names.reverse, ?_, fun c hc => ?_⟩
  · rw [components_normalize, if_neg hne, hnames, List.reverse_append]
    rfl
  · exact ⟨hinner c (List.mem_reverse.mp hc), hnormal c (List.mem_reverse.mp hc)⟩

/-- Absolute paths share the root at least. -/
theorem PartsAt.forall_mem_of_isAbsolute (hp : p.isAbsolute = true) (hbase : base.isAbsolute = true)
    (h : PartsAt p.normalize.components base.normalize.components common down up) :
    ∀ c ∈ up ++ down, IsInner c ∧ ∃ name, c = .normal name := by
  obtain ⟨ps, hps, hps'⟩ := exists_components_normalize_eq_root hp
  obtain ⟨qs, hqs, hqs'⟩ := exists_components_normalize_eq_root hbase
  obtain ⟨shared, rfl⟩ : [Component.root] <+: common :=
    h.longest _ (hps ▸ ⟨ps, rfl⟩) (hqs ▸ ⟨qs, rfl⟩)
  have hdown : ps = shared ++ down := (List.cons.inj (hps.symm.trans h.down)).2
  have hup : qs = shared ++ up := (List.cons.inj (hqs.symm.trans h.up)).2
  intro c hc
  rcases List.mem_append.mp hc with hc | hc
  · exact hqs' c (hup ▸ List.mem_append_right shared hc)
  · exact hps' c (hdown ▸ List.mem_append_right shared hc)

/-- Where two normal paths part and names only are left of the base, the base joined with the
relative path is the path.  That is so for any two absolute paths, and there the relative path is a
`..` for each name that is left of the base and then the names that are left of the path, or a dot
if nothing is left. -/
theorem relativeTo_inverts_join
    (h : PartsAt p.normalize.components base.normalize.components common down up) :
    ((∀ c ∈ up, ∃ name, c = .normal name) →
      (base.join (p.relativeTo base)).normalize = p.normalize) ∧
    (p.isAbsolute = true → base.isAbsolute = true →
      (∀ c ∈ up ++ down, ∃ name, c = .normal name) ∧
      (p.relativeTo base).text =
        if up ++ down = [] then ['.']
        else Text.join ['/'] (up.map (fun _ => ['.', '.']) ++ down.map Component.text)) := by
  refine ⟨fun hup => normalize_eq_iff.mpr (stackOf_join_relativeTo_of_partsAt h hup),
    fun hp hbase => ?_⟩
  have hnames := h.forall_mem_of_isAbsolute hp hbase
  refine ⟨fun c hc => (hnames c hc).2, ?_⟩
  rw [relativeTo, h.dropCommon_eq]
  show (ofComponentsOrDot (up.map (fun _ => Component.parent) ++ down)).text = _
  by_cases hempty : up ++ down = []
  · obtain ⟨rfl, rfl⟩ := List.append_eq_nil_iff.mp hempty
    rw [if_pos hempty]
    decide
  · have hinner : ∀ c ∈ up.map (fun _ => Component.parent) ++ down, IsInner c := by
      intro c hc
      rcases List.mem_append.mp hc with hc | hc
      · obtain ⟨-, -, rfl⟩ := List.mem_map.mp hc
        exact Or.inl rfl
      · exact (hnames c (List.mem_append_right up hc)).1
    rw [if_neg hempty, text_ofComponentsOrDot hinner (by simpa using hempty), List.map_append,
      List.map_map]
    rfl

/-- A base that goes up first, and two absolute paths. -/
theorem relativeTo_inverts_join_shop :
    (∃ common down up,
      PartsAt (ofString "../shop/./cart/item").normalize.components
        (ofString "../shop/stock/new/../old").normalize.components common down up ∧
      up = [.normal "stock".toList, .normal "old".toList] ∧
      ((ofString "../shop/stock/new/../old").join ((ofString "../shop/./cart/item").relativeTo
          (ofString "../shop/stock/new/../old"))).normalize =
        (ofString "../shop/./cart/item").normalize) ∧
    ∃ common down up,
      PartsAt (ofString "/shop/cart/item").normalize.components
        (ofString "/shop/stock/").normalize.components common down up ∧
      (ofString "/shop/cart/item").isAbsolute = true ∧ (ofString "/shop/stock/").isAbsolute = true ∧
      ((ofString "/shop/cart/item").relativeTo (ofString "/shop/stock/")).text =
        "../cart/item".toList := by
  obtain ⟨common, h⟩ := exists_partsAt_dropCommon
    (ofString "../shop/./cart/item").normalize.components
    (ofString "../shop/stock/new/../old").normalize.components
  obtain ⟨common', h'⟩ := exists_partsAt_dropCommon
    (ofString "/shop/cart/item").normalize.components (ofString "/shop/stock/").normalize.components
  have hup : (dropCommon (ofString "../shop/./cart/item").normalize.components
      (ofString "../shop/stock/new/../old").normalize.components).2 =
        [.normal "stock".toList, .normal "old".toList] := by decide
  have hways : dropCommon (ofString "/shop/cart/item").normalize.components
      (ofString "/shop/stock/").normalize.components =
        ([.normal "cart".toList, .normal "item".toList], [.normal "stock".toList]) := by decide
  rw [hup] at h
  rw [hways] at h'
  refine ⟨⟨_, _, _, h, rfl, (relativeTo_inverts_join h).1 fun c hc => ?_⟩, _, _, _, h', by decide,
    by decide, ((relativeTo_inverts_join h').2 (by decide) (by decide)).2.trans (by decide)⟩
  rcases List.mem_cons.mp hc with rfl | hc
  · exact ⟨_, rfl⟩
  · exact ⟨_, List.mem_singleton.mp hc⟩

/-! ## Names in one directory -/

section Names

variable {name name' : Text} {directory : Path}

theorem components_normalize_join_name (h : IsName name) (directory : Path) :
    (directory.join ⟨name⟩).normalize.components =
      directory.stackOf.reverse ++ [.normal name] := by
  have hstack : (directory.join ⟨name⟩).stackOf = .normal name :: directory.stackOf := by
    rw [stackOf_join (isAbsolute_of_isName h), innerOf_of_isName h]
    rfl
  rw [components_normalize, hstack, if_neg (List.cons_ne_nil _ _), List.reverse_cons]

theorem innerOf_ofComponentsOrDot_concat (h : IsName name) (cs : List Component) :
    innerOf (ofComponentsOrDot (cs ++ [.normal name])).text =
      innerOf (ofComponents cs).text ++ [.normal name] := by
  have hjoin : ofComponents (cs ++ [.normal name]) = (ofComponents cs).join ⟨name⟩ := by
    rw [ofComponents, List.foldl_append]
    rfl
  have hinner := innerOf_join_name h (ofComponents cs)
  rw [← hjoin] at hinner
  have hne : (ofComponents (cs ++ [.normal name])).text ≠ [] := by
    intro hempty
    rw [hempty, innerOf_nil] at hinner
    exact absurd hinner.symm (List.append_ne_nil_of_right_ne_nil _ (List.cons_ne_nil _ _))
  rw [ofComponentsOrDot, if_neg hne, hinner]

/-- The relative path of an entry ends in its name, unless the base is the entry or below it. -/
theorem innerOf_relativeTo_join_name (h : IsName name) (directory base : Path) :
    (∃ rest, base.normalize.components = directory.stackOf.reverse ++ .normal name :: rest ∧
      innerOf ((directory.join ⟨name⟩).relativeTo base).text =
        List.replicate rest.length .parent) ∨
    ∃ cs, innerOf ((directory.join ⟨name⟩).relativeTo base).text = cs ++ [.normal name] := by
  rw [relativeTo_eq, components_normalize_join_name h]
  obtain ⟨common, hdown, hup, -⟩ := exists_partsAt_dropCommon
    (directory.stackOf.reverse ++ [.normal name]) base.normalize.components
  generalize dropCommon (directory.stackOf.reverse ++ [.normal name])
    base.normalize.components = ways at *
  obtain ⟨down, up⟩ := ways
  rcases List.eq_nil_or_concat down with rfl | ⟨down, last, rfl⟩
  · left
    rw [List.append_nil] at hdown
    have hparents : ∀ c ∈ List.replicate up.length Component.parent, IsInner c := fun c hc =>
      Or.inl (List.eq_of_mem_replicate hc)
    refine ⟨up, by rw [hup, ← hdown, List.append_assoc, List.singleton_append], ?_⟩
    rw [List.append_nil, (ofComponentsOrDot_spec fun c hc => (hparents c hc).slash_not_mem).2,
      flatMap_innerOf_text hparents]
  · right
    rw [List.concat_eq_append, ← List.append_assoc] at hdown
    obtain ⟨-, hlast⟩ := List.append_inj' hdown rfl
    rw [List.concat_eq_append, ← List.append_assoc, ← hlast]
    exact ⟨_, innerOf_ofComponentsOrDot_concat h _⟩

/-- Two entries of a directory are shown alike only if they have the same name. -/
theorem eq_of_displayRelative_join_eq {base : Path} (h : IsName name) (h' : IsName name')
    (heq : (directory.join ⟨name⟩).displayRelative base =
      (directory.join ⟨name'⟩).displayRelative base) : name = name' := by
  have hinner : innerOf ((directory.join ⟨name⟩).relativeTo base).text =
      innerOf ((directory.join ⟨name'⟩).relativeTo base).text := by
    rw [← (display_spec _).2, ← (display_spec ((directory.join ⟨name'⟩).relativeTo base)).2]
    exact congrArg innerOf heq
  -- Where only `..` are left, there is no name at the end.
  have hparents : ∀ (k : Nat) (cs : List Component) (n : Text),
      List.replicate k Component.parent ≠ cs ++ [.normal n] := by
    intro k cs n hk
    have hmem : Component.normal n ∈ List.replicate k .parent :=
      hk ▸ List.mem_append_right _ List.mem_cons_self
    exact nomatch List.eq_of_mem_replicate hmem
  rcases innerOf_relativeTo_join_name h directory base with ⟨rest, hbase, hups⟩ | ⟨cs, hends⟩
  · rcases innerOf_relativeTo_join_name h' directory base with ⟨rest', hbase', -⟩ | ⟨cs', hends'⟩
    · have hsame := List.append_cancel_left (hbase.symm.trans hbase')
      exact Component.normal.inj (List.cons.inj hsame).1
    · exact absurd (hups.symm.trans (hinner.trans hends')) (hparents _ _ _)
  · rcases innerOf_relativeTo_join_name h' directory base with ⟨rest', -, hups'⟩ | ⟨cs', hends'⟩
    · exact absurd (hups'.symm.trans (hinner.symm.trans hends)) (hparents _ _ _)
    · obtain ⟨-, hlast⟩ := List.append_inj' (hends.symm.trans (hinner.trans hends')) rfl
      exact Component.normal.inj (List.cons.inj hlast).1

end Names

end Path
end StepStubs
