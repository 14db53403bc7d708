/-
Normal paths and the ways between paths.

A normal path is told by its stack: names above a ground of `..` or above the root.  From a base
whose stack has only names above a ground that the other path shares, the way up takes those names
away one by one and the way down puts the other ones there, so it leads to the path.

The empty stack is the exception.  It is written `.`, and that dot is taken for a component that
has to be left again, so the way from such a base has one `..` too many
(`normalize_join_displayRelative_iff`).
-/
import StepStubs.Path.Normal
import StepStubs.Proofs.Path.Components

namespace StepStubs
namespace Path

/-! ## Inner components -/

/-- Is the component a `..`, or a name that a file can have? -/
def IsInner (c : Component) : Prop := c = .parent ∨ ∃ name, c = .normal name ∧ IsName name

theorem isInner_of_mem_innerOf {t : Text} {c : Component} (h : c ∈ innerOf t) : IsInner c := by
  obtain ⟨part, hpart, hc⟩ := List.mem_filterMap.mp h
  rw [innerComponent?] at hc
  by_cases hidle : part = [] ∨ part = ['.']
  · rw [if_pos hidle] at hc
    cases hc
  · rw [if_neg hidle] at hc
    by_cases hdots : part = ['.', '.']
    · rw [if_pos hdots] at hc
      exact Or.inl (Option.some.inj hc).symm
    · rw [if_neg hdots] at hc
      rw [not_or] at hidle
      exact Or.inr ⟨part, (Option.some.inj hc).symm, hidle.1, hidle.2, hdots,
        not_mem_of_mem_splitOn hpart⟩

theorem isName_of_fileName? {p : Path} {name : Text} (h : p.fileName? = some name) :
    IsName name := by
  obtain ⟨cs, hcs⟩ := exists_innerOf_of_fileName? h
  have hmem : .normal name ∈ innerOf p.text :=
    hcs ▸ List.mem_append_right _ List.mem_cons_self
  rcases isInner_of_mem_innerOf hmem with hparent | ⟨name', hname', hvalid⟩
  · exact nomatch hparent
  · rw [Component.normal.inj hname']
    exact hvalid

theorem IsInner.innerOf_text {c : Component} (h : IsInner c) : innerOf c.text = [c] := by
  rcases h with rfl | ⟨name, rfl, hname⟩
  · rfl
  · exact innerOf_of_isName hname

theorem IsInner.slash_not_mem {c : Component} (h : IsInner c) : '/' ∉ c.text := by
  rcases h with rfl | ⟨name, rfl, hname⟩
  · decide
  · exact hname.2.2.2

theorem IsInner.text_ne_nil {c : Component} (h : IsInner c) : c.text ≠ [] := by
  rcases h with rfl | ⟨name, rfl, hname⟩
  · decide
  · exact hname.1

theorem IsInner.text_ne_dot {c : Component} (h : IsInner c) : c.text ≠ ['.'] := by
  rcases h with rfl | ⟨name, rfl, hname⟩
  · decide
  · exact hname.2.1

theorem IsInner.nil_join {c : Component} (h : IsInner c) :
    (⟨[]⟩ : Path).join ⟨c.text⟩ = ⟨c.text⟩ := by
  have habs := isAbsolute_of_not_mem h.slash_not_mem
  simp [join, habs]

/-! ## Paths made of components -/

/-- Components put behind a path that start nowhere by themselves. -/
theorem foldl_join {cs : List Component} (h : ∀ c ∈ cs, '/' ∉ c.text) (p : Path) :
    (cs.foldl (fun p c => p.join ⟨c.text⟩) p).isAbsolute = p.isAbsolute ∧
      innerOf (cs.foldl (fun p c => p.join ⟨c.text⟩) p).text =
        innerOf p.text ++ cs.flatMap fun c => innerOf c.text := by
  induction cs generalizing p with
  | nil => exact ⟨rfl, (List.append_nil _).symm⟩
  | cons c cs ih =>
    have hc := isAbsolute_of_not_mem (h c List.mem_cons_self)
    obtain ⟨habs, hinner⟩ := ih (fun d hd => h d (List.mem_cons_of_mem c hd)) (p.join ⟨c.text⟩)
    refine ⟨habs.trans (isAbsolute_join hc p), ?_⟩
    rw [List.foldl_cons, hinner, innerOf_join hc, List.flatMap_cons, List.append_assoc]

/-- The root starts the path again. -/
theorem ofComponents_append_root (cs ds : List Component) :
    ofComponents (cs ++ .root :: ds) = ds.foldl (fun p c => p.join ⟨c.text⟩) ⟨['/']⟩ := by
  rw [ofComponents, List.foldl_append, List.foldl_cons]
  rfl

/-- What is put behind a part leaves it where it is, at the front of the path. -/
theorem head?_parts_foldl_join {cs : List Component} (h : ∀ c ∈ cs, '/' ∉ c.text) {p : Path}
    {a : Text} (ha : '/' ∉ a) (hne : a ≠ []) (hp : p.text = a ∨ ∃ t, p.text = a ++ '/' :: t) :
    (cs.foldl (fun p c => p.join ⟨c.text⟩) p).parts.head? = some a := by
  induction cs generalizing p with
  | nil =>
    rw [List.foldl_nil, parts]
    rcases hp with hp | ⟨t, hp⟩
    · rw [hp, List.splitOn_eq_singleton ha, List.head?_cons]
    · rw [hp, List.splitOn_append_cons_self_of_not_mem ha, List.head?_cons]
  | cons c cs ih =>
    refine ih (fun d hd => h d (List.mem_cons_of_mem c hd)) (Or.inr ?_)
    have hc : ¬ (⟨c.text⟩ : Path).isAbsolute = true := by
      simp [isAbsolute_of_not_mem (h c List.mem_cons_self)]
    show ∃ t, (p.join ⟨c.text⟩).text = a ++ '/' :: t
    rw [join, if_neg hc]
    rcases hp with hp | ⟨t, hp⟩
    · have hlast : p.text.getLast? ≠ some '/' := by
        rw [hp]
        exact fun hlast => ha (List.mem_of_getLast? hlast)
      rw [if_neg (not_or.mpr ⟨hp ▸ hne, hlast⟩), hp]
      exact ⟨_, rfl⟩
    · split
      · exact ⟨t ++ c.text, by rw [hp, List.append_assoc, List.cons_append]⟩
      · exact ⟨t ++ '/' :: c.text, by rw [hp, List.append_assoc, List.cons_append]⟩

theorem flatMap_innerOf_text {cs : List Component} (h : ∀ c ∈ cs, IsInner c) :
    (cs.flatMap fun c => innerOf c.text) = cs := by
  induction cs with
  | nil => rfl
  | cons c cs ih =>
    rw [List.flatMap_cons, (h c List.mem_cons_self).innerOf_text,
      ih fun d hd => h d (List.mem_cons_of_mem c hd)]
    rfl

theorem components_eq (p : Path) : p.components = p.frontComponent?.toList ++ innerOf p.text := rfl

theorem components_ofComponents {c : Component} {cs : List Component}
    (h : ∀ d ∈ c :: cs, IsInner d) : (ofComponents (c :: cs)).components = c :: cs := by
  have hslash : ∀ d ∈ c :: cs, '/' ∉ d.text := fun d hd => (h d hd).slash_not_mem
  have hc : IsInner c := h c List.mem_cons_self
  obtain ⟨habs, hinner⟩ := foldl_join hslash ⟨[]⟩
  have hhead : (ofComponents (c :: cs)).parts.head? = some c.text :=
    head?_parts_foldl_join (fun d hd => hslash d (List.mem_cons_of_mem c hd)) hc.slash_not_mem
      hc.text_ne_nil (Or.inl (congrArg Path.text hc.nil_join))
  have hfront : (ofComponents (c :: cs)).frontComponent? = none := by
    rw [frontComponent?, if_neg (by rw [ofComponents, habs]; decide), hhead,
      if_neg fun hdot => hc.text_ne_dot (Option.some.inj hdot)]
  rw [components_eq, hfront, ofComponents, hinner, innerOf_nil, flatMap_innerOf_text h]
  rfl

theorem components_ofComponents_root {cs : List Component} (h : ∀ c ∈ cs, IsInner c) :
    (ofComponents (.root :: cs)).components = .root :: cs := by
  obtain ⟨habs, hinner⟩ := foldl_join (fun c hc => (h c hc).slash_not_mem) ⟨['/']⟩
  have hroot := ofComponents_append_root [] cs
  rw [List.nil_append] at hroot
  rw [components_eq, frontComponent?, hroot, if_pos (by rw [habs]; rfl), hinner,
    flatMap_innerOf_text h]
  rfl

/-! ## Stacks -/

/-- Can the components be a stack, last component first?  The root stands at the bottom only, and
below a `..` there is nothing but `..`. -/
def IsStack : List Component → Prop
  | [] => True
  | c :: s => (c = .root ∧ s = [] ∨ IsInner c) ∧ (c = .parent → ∀ d ∈ s, d = .parent) ∧ IsStack s

/-- A component that may stand on the stack is put there. -/
theorem push_of_isStack {s : List Component} {c : Component} (h : IsStack (c :: s)) :
    push s c = c :: s := by
  obtain ⟨⟨rfl, rfl⟩ | rfl | ⟨name, rfl, -⟩, hparent, -⟩ := h
  · rfl
  · cases s with
    | nil => rfl
    | cons d s => rw [hparent rfl d List.mem_cons_self]; rfl
  · rfl

theorem IsStack.of_append {s t : List Component} (h : IsStack (s ++ t)) : IsStack t := by
  induction s with
  | nil => exact h
  | cons c s ih => exact ih h.2.2

theorem foldl_push_of_isStack {cs s : List Component} (h : IsStack (cs.reverse ++ s)) :
    cs.foldl push s = cs.reverse ++ s := by
  induction cs generalizing s with
  | nil => rfl
  | cons c cs ih =>
    rw [List.reverse_cons, List.append_assoc, List.singleton_append] at h ⊢
    rw [List.foldl_cons, push_of_isStack h.of_append, ih h]

/-- Above anything but a `..` there are names only. -/
theorem IsStack.normal_of_append {s t : List Component} (h : IsStack (s ++ t))
    (ht : ∃ d ∈ t, d ≠ .parent) : ∀ c ∈ s, ∃ name, c = .normal name := by
  induction s with
  | nil => exact fun c hc => absurd hc List.not_mem_nil
  | cons c s ih =>
    obtain ⟨d, hd, hne⟩ := ht
    intro e he
    rcases List.mem_cons.mp he with rfl | he
    · obtain ⟨⟨-, hnil⟩ | rfl | ⟨name, hname, -⟩, hparent, -⟩ := h
      · rw [(List.append_eq_nil_iff.mp hnil).2] at hd
        exact absurd hd List.not_mem_nil
      · exact absurd (hparent rfl d (List.mem_append_right s hd)) hne
      · exact ⟨name, hname⟩
    · exact ih h.2.2 e he

theorem IsStack.push {s : List Component} {c : Component} (hs : IsStack s) (hc : IsInner c) :
    IsStack (push s c) := by
  rcases hc with rfl | ⟨name, rfl, hname⟩
  · cases s with
    | nil => exact ⟨Or.inr (Or.inl rfl), fun _ d hd => absurd hd List.not_mem_nil, trivial⟩
    | cons d s =>
      obtain ⟨⟨rfl, rfl⟩ | rfl | ⟨name, rfl, -⟩, hparent, hrest⟩ := id hs
      · exact hs
      · refine ⟨Or.inr (Or.inl rfl), fun _ e he => ?_, hs⟩
        rcases List.mem_cons.mp he with rfl | he
        · rfl
        · exact hparent rfl e he
      · exact hrest
  · exact ⟨Or.inr (Or.inr ⟨name, rfl, hname⟩), (fun h => nomatch h), hs⟩

theorem IsStack.foldl_push {s cs : List Component} (hs : IsStack s) (hcs : ∀ c ∈ cs, IsInner c) :
    IsStack (cs.foldl Path.push s) := by
  induction cs generalizing s with
  | nil => exact hs
  | cons c cs ih =>
    exact ih (hs.push (hcs c List.mem_cons_self)) fun d hd => hcs d (List.mem_cons_of_mem c hd)

theorem mem_push {s : List Component} {c d : Component} (h : d ∈ push s c) : d = c ∨ d ∈ s := by
  cases c with
  | root => exact Or.inl (List.mem_singleton.mp h)
  | current => exact Or.inr h
  | normal name => exact List.mem_cons.mp h
  | parent =>
    cases s with
    | nil => exact List.mem_cons.mp h
    | cons e s =>
      cases e with
      | root => exact Or.inr h
      | current => exact List.mem_cons.mp h
      | parent => exact List.mem_cons.mp h
      | normal name => exact Or.inr (List.mem_cons_of_mem _ h)

theorem mem_foldl_push {s cs : List Component} {d : Component} (h : d ∈ cs.foldl push s) :
    d ∈ cs ∨ d ∈ s := by
  induction cs generalizing s with
  | nil => exact Or.inr h
  | cons c cs ih =>
    rcases ih h with h | h
    · exact Or.inl (List.mem_cons_of_mem c h)
    · rcases mem_push h with rfl | h
      · exact Or.inl List.mem_cons_self
      · exact Or.inr h

/-- Names come and go above a ground without names, which stays. -/
theorem suffix_push {g s : List Component} {c : Component} (hg : ∀ name, .normal name ∉ g)
    (h : g <:+ s) (hc : IsInner c) : g <:+ push s c := by
  rcases hc with rfl | ⟨name, rfl, -⟩
  · cases s with
    | nil => exact h.trans (List.suffix_cons _ _)
    | cons e s =>
      cases e with
      | root => exact h
      | current => exact h.trans (List.suffix_cons _ _)
      | parent => exact h.trans (List.suffix_cons _ _)
      | normal name =>
        rcases List.suffix_cons_iff.mp h with rfl | h
        · exact absurd List.mem_cons_self (hg name)
        · exact h
  · exact h.trans (List.suffix_cons _ _)

theorem suffix_foldl_push {g s cs : List Component} (hg : ∀ name, .normal name ∉ g)
    (h : g <:+ s) (hcs : ∀ c ∈ cs, IsInner c) : g <:+ cs.foldl push s := by
  induction cs generalizing s with
  | nil => exact h
  | cons c cs ih =>
    exact ih (suffix_push hg h (hcs c List.mem_cons_self)) fun d hd =>
      hcs d (List.mem_cons_of_mem c hd)

/-- A stack is names above the root, or above a row of `..`. -/
theorem IsStack.exists_names {s : List Component} (h : IsStack s) :
    ∃ names : List Text, (∀ name ∈ names, IsName name) ∧
      (s = names.map .normal ++ [.root] ∨
        ∃ ups, s = names.map .normal ++ List.replicate ups .parent) := by
  induction s with
  | nil => exact ⟨[], nofun, Or.inr ⟨0, rfl⟩⟩
  | cons c s ih =>
    obtain ⟨⟨rfl, rfl⟩ | rfl | ⟨name, rfl, hname⟩, hparent, hrest⟩ := h
    · exact ⟨[], nofun, Or.inl rfl⟩
    · have hups : s = List.replicate s.length .parent :=
        List.eq_replicate_iff.mpr ⟨rfl, hparent rfl⟩
      exact ⟨[], nofun, Or.inr ⟨s.length + 1, by rw [List.replicate_succ, ← hups]; rfl⟩⟩
    · obtain ⟨names, hnames, hs⟩ := ih hrest
      refine ⟨name :: names, List.forall_mem_cons.mpr ⟨hname, hnames⟩, ?_⟩
      rcases hs with rfl | ⟨ups, rfl⟩
      · exact Or.inl rfl
      · exact Or.inr ⟨ups, rfl⟩

/-- A stack is names above a ground without names. -/
theorem IsStack.exists_ground {s : List Component} (h : IsStack s) :
    ∃ names g, s = names ++ g ∧ (∀ c ∈ names, ∃ name, c = .normal name) ∧
      ∀ name, .normal name ∉ g := by
  obtain ⟨names, -, hs⟩ := h.exists_names
  have hnames : ∀ c ∈ names.map Component.normal, ∃ name, c = .normal name := by
    intro c hc
    obtain ⟨name, -, rfl⟩ := List.mem_map.mp hc
    exact ⟨name, rfl⟩
  rcases hs with hroot | ⟨ups, hups⟩
  · exact ⟨_, _, hroot, hnames, fun name hname => nomatch List.mem_singleton.mp hname⟩
  · exact ⟨_, _, hups, hnames, fun name hname => nomatch List.eq_of_mem_replicate hname⟩

/-- As many `..` as there are names at the top take all of them away. -/
theorem foldl_push_parents {names s : List Component} (h : ∀ c ∈ names, ∃ name, c = .normal name) :
    (List.replicate names.length Component.parent).foldl push (names ++ s) = s := by
  induction names with
  | nil => rfl
  | cons c names ih =>
    obtain ⟨name, rfl⟩ := h c List.mem_cons_self
    exact ih fun d hd => h d (List.mem_cons_of_mem _ hd)

/-! ## The stack of a path -/

/-- The components of the normal path, last component first. -/
def stackOf (p : Path) : List Component := p.components.foldl push []

/-- What is at the bottom before anything is put on the stack of the path. -/
def groundOf (p : Path) : List Component := if p.isAbsolute then [.root] else []

theorem stackOf_eq (p : Path) : p.stackOf = (innerOf p.text).foldl push p.groundOf := by
  rw [stackOf, components_eq, List.foldl_append]
  congr 1
  rw [frontComponent?, groundOf]
  by_cases habs : p.isAbsolute = true
  · rw [if_pos habs, if_pos habs]
    rfl
  · rw [if_neg habs, if_neg habs]
    split <;> rfl

theorem stackOf_eq_of {p q : Path} (habs : p.isAbsolute = q.isAbsolute)
    (hinner : innerOf p.text = innerOf q.text) : p.stackOf = q.stackOf := by
  rw [stackOf_eq, stackOf_eq, groundOf, groundOf, habs, hinner]

theorem isStack_stackOf (p : Path) : IsStack p.stackOf := by
  rw [stackOf_eq]
  refine IsStack.foldl_push ?_ fun c => isInner_of_mem_innerOf
  rw [groundOf]
  split
  · exact ⟨Or.inl ⟨rfl, rfl⟩, fun h => (nomatch h), trivial⟩
  · trivial

theorem isInner_of_mem_stackOf {p : Path} (h : p.isAbsolute = false) :
    ∀ c ∈ p.stackOf, IsInner c := by
  intro c hc
  rw [stackOf_eq, groundOf, h] at hc
  rcases mem_foldl_push hc with hc | hc
  · exact isInner_of_mem_innerOf hc
  · exact absurd hc List.not_mem_nil

/-- The stack of an absolute path is names above the root. -/
theorem exists_stackOf_eq_append_root {p : Path} (h : p.isAbsolute = true) :
    ∃ names, p.stackOf = names ++ [.root] ∧
      (∀ c ∈ names, ∃ name, c = .normal name) ∧ ∀ c ∈ names, IsInner c := by
  have hsuffix : [Component.root] <:+ p.stackOf := by
    rw [stackOf_eq, groundOf, if_pos h]
    exact suffix_foldl_push (fun name => by simp) (List.suffix_refl _) fun c =>
      isInner_of_mem_innerOf
  obtain ⟨names, hnames⟩ := hsuffix
  have hstack := isStack_stackOf p
  rw [← hnames] at hstack
  have hnormal := hstack.normal_of_append ⟨_, List.mem_cons_self, fun hroot => nomatch hroot⟩
  refine ⟨names, hnames.symm, hnormal, fun c hc => ?_⟩
  obtain ⟨name, rfl⟩ := hnormal c hc
  have hmem : Component.normal name ∈ p.stackOf := by
    rw [← hnames]
    exact List.mem_append_left _ hc
  rw [stackOf_eq, groundOf, if_pos h] at hmem
  rcases mem_foldl_push hmem with hmem | hmem
  · exact isInner_of_mem_innerOf hmem
  · exact nomatch List.mem_singleton.mp hmem

theorem join_of_isAbsolute {q : Path} (hq : q.isAbsolute = true) (p : Path) : p.join q = q := by
  rw [join, if_pos hq]

theorem stackOf_join {q : Path} (hq : q.isAbsolute = false) (p : Path) :
    (p.join q).stackOf = (innerOf q.text).foldl push p.stackOf := by
  rw [stackOf_eq, stackOf_eq, innerOf_join hq, List.foldl_append, groundOf, groundOf,
    isAbsolute_join hq]

/-! ## Normal paths -/

theorem normalize_eq (p : Path) : p.normalize = ofComponentsOrDot p.stackOf.reverse := rfl

theorem current_not_mem_stackOf (p : Path) : .current ∉ p.stackOf := by
  intro h
  rw [stackOf_eq] at h
  rcases mem_foldl_push h with h | h
  · rcases isInner_of_mem_innerOf h with h | ⟨_, h, -⟩
    · exact nomatch h
    · exact nomatch h
  · rw [groundOf] at h
    split at h
    · exact nomatch List.mem_singleton.mp h
    · exact absurd h List.not_mem_nil

theorem text_ne_nil_of_components {p : Path} (h : p.components ≠ []) : p.text ≠ [] := by
  rcases p with ⟨_ | ⟨c, t⟩⟩
  · exact absurd (by decide) h
  · exact List.cons_ne_nil c t

theorem ofComponentsOrDot_of_components {cs : List Component}
    (h : (ofComponents cs).components = cs) (hne : cs ≠ []) :
    ofComponentsOrDot cs = ofComponents cs := by
  rw [ofComponentsOrDot, if_neg]
  exact text_ne_nil_of_components (h.symm ▸ hne)

/-- A normal path has the components of its stack, and a dot for the empty one. -/
theorem components_normalize (p : Path) :
    p.normalize.components = if p.stackOf = [] then [.current] else p.stackOf.reverse := by
  rw [normalize_eq]
  by_cases hempty : p.stackOf = []
  · rw [if_pos hempty, hempty]
    decide
  · rw [if_neg hempty]
    have hne : p.stackOf.reverse ≠ [] := fun h => hempty (List.reverse_eq_nil_iff.mp h)
    suffices h : (ofComponents p.stackOf.reverse).components = p.stackOf.reverse by
      rw [ofComponentsOrDot_of_components h hne, h]
    cases habs : p.isAbsolute with
    | true =>
      obtain ⟨names, hnames, -, hinner⟩ := exists_stackOf_eq_append_root habs
      rw [hnames, List.reverse_append]
      exact components_ofComponents_root fun c hc => hinner c (List.mem_reverse.mp hc)
    | false =>
      obtain ⟨c, cs, hcs⟩ := List.exists_cons_of_ne_nil hne
      rw [hcs]
      refine components_ofComponents fun d hd => isInner_of_mem_stackOf habs d ?_
      rw [← hcs] at hd
      exact List.mem_reverse.mp hd

theorem normalize_eq_iff {p q : Path} : p.normalize = q.normalize ↔ p.stackOf = q.stackOf := by
  refine ⟨fun h => ?_, fun h => by rw [normalize_eq, normalize_eq, h]⟩
  have hcomponents := congrArg components h
  rw [components_normalize, components_normalize] at hcomponents
  have hcurrent : ∀ r : Path, [Component.current] ≠ r.stackOf.reverse := by
    intro r hr
    refine current_not_mem_stackOf r (List.mem_reverse.mp ?_)
    rw [← hr]
    exact List.mem_cons_self
  by_cases hp : p.stackOf = []
  · rw [if_pos hp] at hcomponents
    by_cases hq : q.stackOf = []
    · rw [hp, hq]
    · rw [if_neg hq] at hcomponents
      exact absurd hcomponents (hcurrent q)
  · rw [if_neg hp] at hcomponents
    by_cases hq : q.stackOf = []
    · rw [if_pos hq] at hcomponents
      exact absurd hcomponents.symm (hcurrent p)
    · rw [if_neg hq] at hcomponents
      exact List.reverse_inj.mp hcomponents

theorem normalize_eq_dot_iff {p : Path} : p.normalize = ⟨['.']⟩ ↔ p.stackOf = [] := by
  have hdot : (⟨['.']⟩ : Path).normalize = ⟨['.']⟩ := by decide
  have hstack : (⟨['.']⟩ : Path).stackOf = [] := by decide
  rw [← hstack, ← normalize_eq_iff, hdot]

/-! ## Showing a path -/

theorem exists_join_cons (a : Text) (ts : List Text) : ∃ t, Text.join ['/'] (a :: ts) = a ++ t := by
  cases ts with
  | nil => exact ⟨[], by rw [Text.join, List.intercalate_singleton, List.append_nil]⟩
  | cons b ts => exact ⟨_, join_cons_cons a b ts⟩

theorem innerOf_join_cons (a : Text) {cs : List Component} (h : ∀ c ∈ cs, IsInner c) :
    innerOf (Text.join ['/'] (a :: cs.map Component.text)) = innerOf a ++ cs := by
  induction cs generalizing a with
  | nil => rw [List.map_nil, Text.join, List.intercalate_singleton, List.append_nil]
  | cons c cs ih =>
    rw [List.map_cons, join_cons_cons, innerOf_append_slash,
      ih c.text fun d hd => h d (List.mem_cons_of_mem c hd), (h c List.mem_cons_self).innerOf_text]
    rfl

/-- A path that is shown starts where the path does and leads through the same components. -/
theorem display_spec (p : Path) :
    (⟨p.display⟩ : Path).isAbsolute = p.isAbsolute ∧ innerOf p.display = innerOf p.text := by
  have hinner : ∀ c ∈ innerOf p.text, IsInner c := fun c => isInner_of_mem_innerOf
  rw [display, components_eq, frontComponent?]
  by_cases habs : p.isAbsolute = true
  · rw [if_pos habs, habs]
    refine ⟨?_, innerOf_join_cons ['/'] hinner⟩
    obtain ⟨t, ht⟩ := exists_join_cons ['/'] ((innerOf p.text).map Component.text)
    show (⟨Text.join ['/'] (['/'] :: (innerOf p.text).map Component.text)⟩ : Path).isAbsolute = true
    rw [ht]
    rfl
  · rw [if_neg habs, eq_false_of_ne_true habs]
    by_cases hdot : p.parts.head? = some ['.']
    · rw [if_pos hdot]
      refine ⟨?_, innerOf_join_cons ['.'] hinner⟩
      obtain ⟨t, ht⟩ := exists_join_cons ['.'] ((innerOf p.text).map Component.text)
      show (⟨Text.join ['/'] (['.'] :: (innerOf p.text).map Component.text)⟩ : Path).isAbsolute =
        false
      rw [ht]
      rfl
    · -- Without a front the first inner component starts the path, and it is no root.
      rw [if_neg hdot, Option.toList_none, List.nil_append]
      cases hcs : innerOf p.text with
      | nil => exact ⟨rfl, innerOf_nil⟩
      | cons c cs =>
        rw [hcs] at hinner
        have hc : IsInner c := hinner c List.mem_cons_self
        rw [List.map_cons]
        refine ⟨?_, ?_⟩
        · obtain ⟨t, ht⟩ := exists_join_cons c.text (cs.map Component.text)
          obtain ⟨d, u, hd⟩ := List.exists_cons_of_ne_nil hc.text_ne_nil
          have hslash : d ≠ '/' := fun e => hc.slash_not_mem (by rw [hd, e]; exact
            List.mem_cons_self)
          rw [ht, hd]
          simp [isAbsolute, hslash]
        · rw [innerOf_join_cons c.text fun d hd => hinner d (List.mem_cons_of_mem c hd),
            hc.innerOf_text]
          rfl

theorem stackOf_join_display (base p : Path) :
    (base.join ⟨p.display⟩).stackOf = (base.join p).stackOf := by
  obtain ⟨habs, hinner⟩ := display_spec p
  cases hp : p.isAbsolute with
  | true =>
    rw [hp] at habs
    rw [join_of_isAbsolute habs, join_of_isAbsolute hp]
    exact stackOf_eq_of (habs.trans hp.symm) hinner
  | false =>
    rw [hp] at habs
    rw [stackOf_join habs, stackOf_join hp, hinner]

/-! ## The way from one path to another -/

theorem dropCommon_append (cs as bs : List Component) :
    dropCommon (cs ++ as) (cs ++ bs) = dropCommon as bs := by
  induction cs with
  | nil => rfl
  | cons c cs ih => rw [List.cons_append, List.cons_append, dropCommon, if_pos rfl, ih]

theorem dropCommon_cons_of_ne {a b : Component} (h : a ≠ b) (as bs : List Component) :
    dropCommon (a :: as) (b :: bs) = (a :: as, b :: bs) := by
  rw [dropCommon, if_neg h]

/-- Is `common` the longest list that both lists start with, and are `down` and `up` what is left
of them behind it? -/
structure PartsAt (as bs common down up : List Component) : Prop where
  down : as = common ++ down
  up : bs = common ++ up
  longest : ∀ cs, cs <+: as → cs <+: bs → cs <+: common

theorem exists_partsAt_dropCommon (as bs : List Component) :
    ∃ common, PartsAt as bs common (dropCommon as bs).1 (dropCommon as bs).2 := by
  induction as generalizing bs with
  | nil => exact ⟨[], rfl, rfl, fun cs hcs _ => hcs⟩
  | cons a as ih =>
    cases bs with
    | nil => exact ⟨[], rfl, rfl, fun cs _ hcs => hcs⟩
    | cons b bs =>
      by_cases hab : a = b
      · obtain ⟨common, hdown, hup, hlongest⟩ := ih bs
        subst hab
        rw [dropCommon, if_pos rfl]
        refine ⟨a :: common, congrArg (a :: ·) hdown, congrArg (a :: ·) hup, fun cs has hbs => ?_⟩
        cases cs with
        | nil => exact List.nil_prefix
        | cons c cs =>
          obtain ⟨rfl, hcs⟩ := List.cons_prefix_cons.mp has
          exact List.cons_prefix_cons.mpr
            ⟨rfl, hlongest cs hcs (List.cons_prefix_cons.mp hbs).2⟩
      · rw [dropCommon_cons_of_ne hab]
        refine ⟨[], rfl, rfl, fun cs has hbs => ?_⟩
        cases cs with
        | nil => exact List.nil_prefix
        | cons c cs =>
          obtain ⟨rfl, -⟩ := List.cons_prefix_cons.mp has
          exact absurd (List.cons_prefix_cons.mp hbs).1 hab

theorem relativeTo_eq (p base : Path) :
    p.relativeTo base =
      ofComponentsOrDot
        (List.replicate (dropCommon p.normalize.components base.normalize.components).2.length
            .parent ++
          (dropCommon p.normalize.components base.normalize.components).1) := by
  rw [← List.map_const']
  rfl

theorem ofComponentsOrDot_spec {cs : List Component} (h : ∀ c ∈ cs, '/' ∉ c.text) :
    (ofComponentsOrDot cs).isAbsolute = false ∧
      innerOf (ofComponentsOrDot cs).text = cs.flatMap fun c => innerOf c.text := by
  obtain ⟨habs, hinner⟩ := foldl_join h ⟨[]⟩
  rw [← ofComponents] at habs hinner
  rw [innerOf_nil, List.nil_append] at hinner
  rw [ofComponentsOrDot]
  split
  · next hnil =>
    rw [hnil, innerOf_nil] at hinner
    exact ⟨rfl, innerOf_dot.trans hinner⟩
  · exact ⟨habs, hinner⟩

theorem ofComponentsOrDot_append_root (cs : List Component) {ds : List Component}
    (h : ∀ d ∈ ds, IsInner d) :
    (ofComponentsOrDot (cs ++ .root :: ds)).isAbsolute = true ∧
      innerOf (ofComponentsOrDot (cs ++ .root :: ds)).text = ds := by
  obtain ⟨habs, hinner⟩ := foldl_join (fun d hd => (h d hd).slash_not_mem) ⟨['/']⟩
  rw [← ofComponents_append_root cs] at habs hinner
  have htext : (ofComponents (cs ++ .root :: ds)).text ≠ [] := by
    intro hnil
    rw [isAbsolute, hnil] at habs
    cases habs
  rw [ofComponentsOrDot, if_neg htext, hinner, flatMap_innerOf_text h]
  exact ⟨habs, rfl⟩

variable {p base : Path} {names above ground : List Component}

theorem slash_not_mem_parents_append {n : Nat} {cs : List Component} (h : ∀ c ∈ cs, '/' ∉ c.text) :
    ∀ c ∈ List.replicate n Component.parent ++ cs, '/' ∉ c.text := by
  intro c hc
  rcases List.mem_append.mp hc with hc | hc
  · rw [List.eq_of_mem_replicate hc]
    decide
  · exact h c hc

theorem stackOf_join_parents_append {n : Nat} {cs : List Component}
    (h : ∀ c ∈ cs, '/' ∉ c.text) (base : Path) :
    (base.join (ofComponentsOrDot (List.replicate n .parent ++ cs))).stackOf =
      (cs.flatMap fun c => innerOf c.text).foldl push
        ((List.replicate n .parent).foldl push base.stackOf) := by
  obtain ⟨habs, hinner⟩ := ofComponentsOrDot_spec (slash_not_mem_parents_append (n := n) h)
  rw [stackOf_join habs, hinner, List.flatMap_append, List.foldl_append, flatMap_innerOf_text]
  intro c hc
  exact Or.inl (List.eq_of_mem_replicate hc)

/-- From a base with names above a ground that the path shares, the way leads to the path. -/
theorem stackOf_join_relativeTo (hbase : base.stackOf = names ++ ground)
    (hp : p.stackOf = above ++ ground) (hnames : ∀ c ∈ names, ∃ name, c = .normal name)
    (habove : ∀ c ∈ above, IsInner c) (hne : base.stackOf ≠ []) :
    (base.join (p.relativeTo base)).stackOf = p.stackOf := by
  rw [relativeTo_eq, components_normalize, components_normalize, if_neg hne]
  by_cases hempty : p.stackOf = []
  · -- The dot of the path is put behind the way up, where it changes nothing.
    obtain ⟨rfl, rfl⟩ := List.append_eq_nil_iff.mp (hp.symm.trans hempty)
    rw [List.append_nil] at hbase
    rw [hbase] at hne
    obtain ⟨c, cs, hcs⟩ := List.exists_cons_of_ne_nil fun h => hne (List.reverse_eq_nil_iff.mp h)
    have hlength : (c :: cs).length = names.length := by rw [← hcs, List.length_reverse]
    have hc : Component.current ≠ c := by
      rintro rfl
      have hmem : Component.current ∈ names :=
        List.mem_reverse.mp (hcs ▸ List.mem_cons_self)
      obtain ⟨name, hname⟩ := hnames _ hmem
      exact nomatch hname
    rw [if_pos hempty, hempty, hbase, hcs, dropCommon_cons_of_ne hc, hlength,
      stackOf_join_parents_append (fun d hd => by rw [List.mem_singleton.mp hd]; decide), hbase]
    have hpop := foldl_push_parents (s := []) hnames
    rw [List.append_nil] at hpop
    rw [hpop]
    rfl
  · rw [if_neg hempty, hp, hbase, List.reverse_append, List.reverse_append, dropCommon_append]
    -- Below the ground the two ways part: up for each name that is left, then down.
    obtain ⟨common, hdown, hup, -⟩ := exists_partsAt_dropCommon above.reverse names.reverse
    generalize dropCommon above.reverse names.reverse = ways at hdown hup ⊢
    have hdown' : ∀ c ∈ ways.1, IsInner c := fun c hc =>
      habove c (List.mem_reverse.mp (hdown ▸ List.mem_append_right common hc))
    have hup' : ∀ c ∈ ways.2.reverse, ∃ name, c = .normal name := fun c hc =>
      hnames c (List.mem_reverse.mp (hup ▸ List.mem_append_right common (List.mem_reverse.mp hc)))
    have hstack := isStack_stackOf p
    rw [List.reverse_eq_iff, List.reverse_append] at hdown hup
    rw [stackOf_join_parents_append fun c hc => (hdown' c hc).slash_not_mem, hbase, hup,
      ← List.length_reverse, List.append_assoc, foldl_push_parents hup',
      flatMap_innerOf_text hdown']
    rw [hp, hdown, List.append_assoc] at hstack
    rw [foldl_push_of_isStack hstack, hdown, List.append_assoc]

/-- From a base that is not absolute, the way to an absolute path is that path. -/
theorem stackOf_join_relativeTo_of_isAbsolute (hp : p.isAbsolute = true)
    (hbase : base.isAbsolute = false) : (base.join (p.relativeTo base)).stackOf = p.stackOf := by
  obtain ⟨names, hnames, -, hinner⟩ := exists_stackOf_eq_append_root hp
  have hfirst : p.normalize.components = .root :: names.reverse := by
    have hne : p.stackOf ≠ [] := hnames ▸ List.append_ne_nil_of_right_ne_nil _ (by simp)
    rw [components_normalize, if_neg hne, hnames, List.reverse_append]
    rfl
  obtain ⟨c, cs, hcs, hc⟩ : ∃ c cs, base.normalize.components = c :: cs ∧ Component.root ≠ c := by
    rw [components_normalize]
    by_cases hempty : base.stackOf = []
    · exact ⟨.current, [], if_pos hempty, fun h => nomatch h⟩
    · rw [if_neg hempty]
      obtain ⟨c, cs, hcs⟩ :=
        List.exists_cons_of_ne_nil fun h => hempty (List.reverse_eq_nil_iff.mp h)
      refine ⟨c, cs, hcs, ?_⟩
      rintro rfl
      have hmem : Component.root ∈ base.stackOf := List.mem_reverse.mp (hcs ▸ List.mem_cons_self)
      rcases isInner_of_mem_stackOf hbase _ hmem with h | ⟨_, h, -⟩
      · exact nomatch h
      · exact nomatch h
  have hinner' : ∀ d ∈ names.reverse, IsInner d := fun d hd => hinner d (List.mem_reverse.mp hd)
  have hstack := isStack_stackOf p
  rw [hnames, ← List.reverse_reverse names] at hstack
  rw [relativeTo_eq, hfirst, hcs, dropCommon_cons_of_ne hc]
  obtain ⟨habs, hway⟩ := ofComponentsOrDot_append_root (List.replicate (c :: cs).length .parent)
    hinner'
  rw [join_of_isAbsolute habs, stackOf_eq, groundOf, if_pos habs, hway,
    foldl_push_of_isStack hstack, List.reverse_reverse, hnames]

theorem IsStack.append_parent {s : List Component} (h : IsStack s) (hs : ∀ c ∈ s, IsInner c) :
    IsStack (s ++ [.parent]) := by
  induction s with
  | nil => exact ⟨Or.inr (Or.inl rfl), fun _ d hd => absurd hd List.not_mem_nil, trivial⟩
  | cons c s ih =>
    refine ⟨Or.inr (hs c List.mem_cons_self), fun hc d hd => ?_,
      ih h.2.2 fun d hd => hs d (List.mem_cons_of_mem c hd)⟩
    rcases List.mem_append.mp hd with hd | hd
    · exact h.2.1 hc d hd
    · exact List.mem_singleton.mp hd

/-- The way from an empty stack goes up once before it comes to the path. -/
theorem stackOf_join_relativeTo_of_stackOf_eq_nil (hp : p.isAbsolute = false)
    (hbase : base.stackOf = []) (hne : p.stackOf ≠ []) :
    (base.join (p.relativeTo base)).stackOf = p.stackOf ++ [.parent] := by
  have hinner := isInner_of_mem_stackOf hp
  have hinner' : ∀ c ∈ p.stackOf.reverse, IsInner c := fun c hc => hinner c (List.mem_reverse.mp hc)
  obtain ⟨c, cs, hcs⟩ := List.exists_cons_of_ne_nil fun h => hne (List.reverse_eq_nil_iff.mp h)
  have hc : c ≠ .current := by
    rintro rfl
    exact current_not_mem_stackOf p (List.mem_reverse.mp (hcs ▸ List.mem_cons_self))
  have hstack := (isStack_stackOf p).append_parent hinner
  rw [← List.reverse_reverse p.stackOf] at hstack
  rw [relativeTo_eq, components_normalize, components_normalize, if_neg hne, if_pos hbase, hcs,
    dropCommon_cons_of_ne hc, ← hcs,
    stackOf_join_parents_append fun d hd => (hinner' d hd).slash_not_mem, hbase,
    flatMap_innerOf_text hinner']
  exact (foldl_push_of_isStack hstack).trans (by rw [List.reverse_reverse])

theorem stackOf_join_relativeTo_of_isAbsolute_base (hp : p.isAbsolute = true)
    (hbase : base.isAbsolute = true) : (base.join (p.relativeTo base)).stackOf = p.stackOf := by
  obtain ⟨above, habove, -, hinner⟩ := exists_stackOf_eq_append_root hp
  obtain ⟨names, hnames, hnormal, -⟩ := exists_stackOf_eq_append_root hbase
  refine stackOf_join_relativeTo hnames habove hnormal hinner ?_
  rw [hnames]
  exact List.append_ne_nil_of_right_ne_nil _ (List.cons_ne_nil _ _)

theorem stackOf_join_relativeTo_of_prefix (hp : p.isAbsolute = false)
    (hbase : base.isAbsolute = false) (hbelow : innerOf base.text <+: innerOf p.text)
    (hne : base.stackOf ≠ []) : (base.join (p.relativeTo base)).stackOf = p.stackOf := by
  -- The `..` at the bottom of the base's stack are shared; only the names above them are climbed.
  obtain ⟨names, ground, hstack, hnames, hground⟩ := (isStack_stackOf base).exists_ground
  obtain ⟨rest, hrest⟩ := hbelow
  have hp' : p.stackOf = rest.foldl push base.stackOf := by
    rw [stackOf_eq, stackOf_eq, ← hrest, List.foldl_append, groundOf, groundOf, hp, hbase]
  obtain ⟨above, habove⟩ : ground <:+ p.stackOf := by
    rw [hp']
    refine suffix_foldl_push hground ⟨names, hstack.symm⟩ fun c hc => ?_
    exact isInner_of_mem_innerOf (hrest ▸ List.mem_append_right _ hc)
  refine stackOf_join_relativeTo hstack habove.symm hnames (fun c hc => ?_) hne
  exact isInner_of_mem_stackOf hp c (habove ▸ List.mem_append_left _ hc)

/-- The shown way from a base, put behind the base, leads to the path, unless the base is `.` and
the path is relative. -/
theorem normalize_join_displayRelative_iff
    (h : p.isAbsolute = true ∨ base.isAbsolute = false ∧ innerOf base.text <+: innerOf p.text) :
    (base.join ⟨p.displayRelative base⟩).normalize = p.normalize ↔
      (base.normalize = ⟨['.']⟩ → p.isAbsolute = true ∨ p.normalize = ⟨['.']⟩) := by
  rw [normalize_eq_iff, displayRelative, stackOf_join_display, normalize_eq_dot_iff,
    normalize_eq_dot_iff]
  cases hp : p.isAbsolute with
  | true =>
    refine iff_of_true ?_ fun _ => Or.inl rfl
    cases hbase : base.isAbsolute with
    | true => exact stackOf_join_relativeTo_of_isAbsolute_base hp hbase
    | false => exact stackOf_join_relativeTo_of_isAbsolute hp hbase
  | false =>
    obtain ⟨hbase, hbelow⟩ := h.resolve_left (by rw [hp]; exact Bool.false_ne_true)
    by_cases hempty : base.stackOf = []
    · by_cases hempty' : p.stackOf = []
      · refine iff_of_true ?_ fun _ => Or.inr hempty'
        rw [relativeTo_eq, components_normalize, components_normalize, if_pos hempty,
          if_pos hempty', stackOf_join (by decide), hempty, hempty']
        rfl
      · -- Here the dot of the base was taken for a component to climb out of.
        rw [stackOf_join_relativeTo_of_stackOf_eq_nil hp hempty hempty']
        refine iff_of_false (fun hlonger => ?_) fun hdot => ?_
        · exact absurd (List.append_right_eq_self.mp hlonger) (List.cons_ne_nil _ _)
        · rcases hdot hempty with h | h
          · exact nomatch h
          · exact hempty' h
    · refine iff_of_true ?_ fun hdot => absurd hdot hempty
      exact stackOf_join_relativeTo_of_prefix hp hbase hbelow hempty

end Path
end StepStubs
