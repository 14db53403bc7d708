/-
The components of paths that were joined or cut.

What a path leads through is told by where it starts and by the names and the `..` among its
parts, its inner components.  Joining appends them and taking the parent drops the last one;
the texts of paths differ in slashes and dots as well, and nothing that follows a path
depends on those.
-/
import StepStubs.Path.Basic

namespace StepStubs
namespace Path

/-- The names and the `..` among the parts of a text. -/
def innerOf (t : Text) : List Component := (t.splitOn '/').filterMap innerComponent?

/-! ## Inner components of texts put together -/

theorem innerOf_nil : innerOf [] = [] := by
  rw [innerOf, List.splitOn_nil, List.filterMap_cons, innerComponent?, if_pos (Or.inl rfl)]
  rfl

theorem innerOf_append_slash (t u : Text) : innerOf (t ++ '/' :: u) = innerOf t ++ innerOf u := by
  rw [innerOf, List.splitOn_append_cons_self, List.filterMap_append, ← innerOf, ← innerOf]

theorem innerOf_slash_cons (u : Text) : innerOf ('/' :: u) = innerOf u := by
  have h := innerOf_append_slash [] u
  rwa [innerOf_nil, List.nil_append, List.nil_append] at h

theorem innerOf_of_not_mem {t : Text} (h : '/' ∉ t) : innerOf t = (innerComponent? t).toList := by
  rw [innerOf, List.splitOn_eq_singleton h, List.filterMap_cons]
  cases innerComponent? t <;> rfl

theorem innerOf_dot : innerOf ['.'] = [] := by
  rw [innerOf_of_not_mem (by decide), innerComponent?, if_pos (Or.inr rfl)]
  rfl

/-! ## Names -/

def IsName (name : Text) : Prop :=
  name ≠ [] ∧ name ≠ ['.'] ∧ name ≠ ['.', '.'] ∧ '/' ∉ name

instance (name : Text) : Decidable (IsName name) := inferInstanceAs (Decidable (_ ∧ _ ∧ _ ∧ _))

theorem innerComponent?_of_isName {name : Text} (h : IsName name) :
    innerComponent? name = some (.normal name) := by
  rw [innerComponent?, if_neg (not_or.mpr ⟨h.1, h.2.1⟩), if_neg h.2.2.1]

theorem innerOf_of_isName {name : Text} (h : IsName name) : innerOf name = [.normal name] := by
  rw [innerOf_of_not_mem h.2.2.2, innerComponent?_of_isName h]
  rfl

/-- An inner component is a name or a `..`. -/
theorem innerComponent?_eq_some {part : Text} {c : Component}
    (h : innerComponent? part = some c) : c = .parent ∨ c = .normal part := by
  rw [innerComponent?] at h
  by_cases hidle : part = [] ∨ part = ['.']
  · rw [if_pos hidle] at h
    exact nomatch h
  · rw [if_neg hidle] at h
    by_cases hdots : part = ['.', '.']
    · rw [if_pos hdots] at h
      exact Or.inl (Option.some.inj h).symm
    · rw [if_neg hdots] at h
      exact Or.inr (Option.some.inj h).symm

/-! ## Joining -/

theorem isAbsolute_join {q : Path} (hq : q.isAbsolute = false) (p : Path) :
    (p.join q).isAbsolute = p.isAbsolute := by
  have hfalse : ¬ q.isAbsolute = true := by simp [hq]
  rw [join, if_neg hfalse]
  cases ht : p.text with
  | nil =>
    rw [if_pos (Or.inl rfl), List.nil_append, isAbsolute.eq_def p, ht]
    exact hq
  | cons c t => split <;> simp [isAbsolute, ht]

theorem innerOf_join {q : Path} (hq : q.isAbsolute = false) (p : Path) :
    innerOf (p.join q).text = innerOf p.text ++ innerOf q.text := by
  have hfalse : ¬ q.isAbsolute = true := by simp [hq]
  rw [join, if_neg hfalse]
  by_cases hempty : p.text = []
  · rw [if_pos (Or.inl hempty), hempty, innerOf_nil]
    rfl
  · by_cases hlast : p.text.getLast? = some '/'
    · obtain ⟨t, ht⟩ := List.getLast?_eq_some_iff.mp hlast
      rw [if_pos (Or.inr hlast), ht]
      show innerOf ((t ++ ['/']) ++ q.text) = _
      rw [List.append_assoc, List.singleton_append, innerOf_append_slash, innerOf_append_slash,
        innerOf_nil, List.append_nil]
    · rw [if_neg (not_or.mpr ⟨hempty, hlast⟩)]
      exact innerOf_append_slash _ _

theorem isAbsolute_of_not_mem {t : Text} (h : '/' ∉ t) : (⟨t⟩ : Path).isAbsolute = false := by
  cases t with
  | nil => rfl
  | cons c t =>
    have hc : c ≠ '/' := fun e => h (e ▸ List.mem_cons_self)
    simp [isAbsolute, hc]

theorem isAbsolute_of_isName {name : Text} (h : IsName name) :
    (⟨name⟩ : Path).isAbsolute = false := isAbsolute_of_not_mem h.2.2.2

/-! ## The front of a path -/

theorem text_of_head?_parts {p : Path} {a : Text} (h : p.parts.head? = some a) :
    p.text = a ∨ ∃ t, p.text = a ++ '/' :: t := by
  rw [parts] at h
  by_cases hslash : '/' ∈ p.text
  · obtain ⟨b, t, hp, hb⟩ := List.eq_append_cons_of_mem hslash
    rw [hp, List.splitOn_append_cons_self_of_not_mem hb, List.head?_cons] at h
    rw [← Option.some.inj h]
    exact Or.inr ⟨t, hp⟩
  · rw [List.splitOn_eq_singleton hslash, List.head?_cons] at h
    exact Or.inl (Option.some.inj h)

/-- The inner components of a path are those of what follows its front, also when some of
that is cut off at the end. -/
theorem innerOf_frontText_append (p : Path) {u : Text} (hu : u <+: p.text.drop p.frontText.length) :
    innerOf (p.frontText ++ u) = innerOf u := by
  rw [frontText, frontComponent?] at hu ⊢
  by_cases habs : p.isAbsolute = true
  · rw [if_pos habs]
    cases ht : p.text with
    | nil => simp [isAbsolute, ht] at habs
    | cons c t =>
      have hc : c = '/' := by simpa [isAbsolute, ht] using habs
      rw [hc]
      exact innerOf_slash_cons u
  · rw [if_neg habs] at hu ⊢
    by_cases hdot : p.parts.head? = some ['.']
    · rw [if_pos hdot] at hu ⊢
      -- What follows the dot is nothing, or starts with a slash.
      rcases text_of_head?_parts hdot with ht | ⟨t, ht⟩
      · rw [ht] at hu ⊢
        rw [List.prefix_nil.mp hu, innerOf_nil]
        exact innerOf_dot
      · rw [ht] at hu ⊢
        cases u with
        | nil =>
          rw [innerOf_nil]
          exact innerOf_dot
        | cons c v =>
          have hc : c = '/' := (List.cons_prefix_cons.mp hu).1
          rw [hc, innerOf_slash_cons]
          show innerOf (['.'] ++ '/' :: v) = _
          rw [innerOf_append_slash, innerOf_dot, List.nil_append]
    · rw [if_neg hdot]
      rfl

theorem frontText_prefix (p : Path) : p.frontText <+: p.text := by
  rw [frontText]
  split
  · exact List.take_prefix 1 p.text
  · exact List.nil_prefix

theorem frontText_append_drop (p : Path) :
    p.frontText ++ p.text.drop p.frontText.length = p.text := by
  obtain ⟨t, ht⟩ := p.frontText_prefix
  rw [← ht, List.drop_left]

theorem innerOf_drop_frontText (p : Path) :
    innerOf (p.text.drop p.frontText.length) = innerOf p.text := by
  rw [← innerOf_frontText_append p (List.prefix_refl _), frontText_append_drop]

theorem getLast?_splitOn_append_slash (t u : Text) :
    ((t ++ '/' :: u).splitOn '/').getLast? = (u.splitOn '/').getLast? := by
  have hsome := List.getLast?_isSome.mpr (List.splitOn_ne_nil ('/' : Char) u)
  rw [List.splitOn_append_cons_self, List.getLast?_append, Option.or_of_isSome hsome]

/-- The last part of a path is that of what follows its front. -/
theorem getLast?_splitOn_frontText_append (p : Path) {u : Text}
    (hu : u <+: p.text.drop p.frontText.length) (hne : u ≠ []) :
    ((p.frontText ++ u).splitOn '/').getLast? = (u.splitOn '/').getLast? := by
  rw [frontText, frontComponent?] at hu ⊢
  by_cases habs : p.isAbsolute = true
  · rw [if_pos habs]
    cases ht : p.text with
    | nil => simp [isAbsolute, ht] at habs
    | cons c t =>
      have hc : c = '/' := by simpa [isAbsolute, ht] using habs
      rw [hc]
      exact getLast?_splitOn_append_slash [] u
  · rw [if_neg habs] at hu ⊢
    by_cases hdot : p.parts.head? = some ['.']
    · rw [if_pos hdot] at hu ⊢
      rcases text_of_head?_parts hdot with ht | ⟨t, ht⟩
      · rw [ht] at hu
        exact absurd (List.prefix_nil.mp hu) hne
      · rw [ht] at hu ⊢
        cases u with
        | nil => exact absurd rfl hne
        | cons c v =>
          have hc : c = '/' := (List.cons_prefix_cons.mp hu).1
          have hv := getLast?_splitOn_append_slash [] v
          rw [hc]
          show ((['.'] ++ '/' :: v).splitOn '/').getLast? = _
          rw [getLast?_splitOn_append_slash]
          exact hv.symm
    · rw [if_neg hdot]
      rfl

/-! ## Cutting parts off -/

theorem dropIdleEnd_isPrefix (ps : List Text) : dropIdleEnd ps <+: ps := by
  obtain ⟨t, ht⟩ :=
    List.dropWhile_suffix (fun part => (innerComponent? part).isNone) (l := ps.reverse)
  refine ⟨t.reverse, ?_⟩
  rw [dropIdleEnd, ← List.reverse_append, ht, List.reverse_reverse]

/-- Parts that are no components can be dropped from the end. -/
theorem filterMap_reverse_dropWhile {q : Text → Bool}
    (hq : ∀ part, q part = true → innerComponent? part = none) (ps : List Text) :
    (ps.reverse.dropWhile q).reverse.filterMap innerComponent? =
      ps.filterMap innerComponent? := by
  have hdrop : ∀ rs : List Text,
      (rs.dropWhile q).filterMap innerComponent? = rs.filterMap innerComponent? := by
    intro rs
    induction rs with
    | nil => rfl
    | cons r rs ih =>
      by_cases hr : q r = true
      · rw [List.dropWhile_cons_of_pos hr, List.filterMap_cons_none (hq r hr), ih]
      · rw [List.dropWhile_cons_of_neg hr]
  rw [List.filterMap_reverse, hdrop, ← List.filterMap_reverse, List.reverse_reverse]

theorem filterMap_dropIdleEnd (ps : List Text) :
    (dropIdleEnd ps).filterMap innerComponent? = ps.filterMap innerComponent? :=
  filterMap_reverse_dropWhile (fun _ h => Option.isNone_iff_eq_none.mp h) ps

/-- What is left ends in a component. -/
theorem filterMap_dropLast_dropIdleEnd (ps : List Text) :
    ((dropIdleEnd ps).dropLast).filterMap innerComponent? =
      (ps.filterMap innerComponent?).dropLast := by
  rw [← filterMap_dropIdleEnd ps, dropIdleEnd]
  cases hrest : ps.reverse.dropWhile (fun part => (innerComponent? part).isNone) with
  | nil => rfl
  | cons q qs =>
    have hq : (innerComponent? q).isNone = false := by
      have h := List.head?_dropWhile_not (fun part => (innerComponent? part).isNone) ps.reverse
      rw [hrest] at h
      simpa using h
    obtain ⟨c, hc⟩ : ∃ c, innerComponent? q = some c :=
      Option.isSome_iff_exists.mp (by simpa using hq)
    rw [List.reverse_cons, List.dropLast_concat, List.filterMap_append, List.filterMap_cons_some hc,
      List.filterMap_nil, List.dropLast_concat]

theorem exists_getLast?_dropIdleEnd {ps : List Text} (h : ps.filterMap innerComponent? ≠ []) :
    ∃ part ∈ (dropIdleEnd ps).getLast?, innerComponent? part ≠ none := by
  rw [← filterMap_dropIdleEnd, dropIdleEnd] at h
  rw [dropIdleEnd]
  cases hrest : ps.reverse.dropWhile (fun part => (innerComponent? part).isNone) with
  | nil =>
    rw [hrest] at h
    exact absurd rfl h
  | cons q qs =>
    have hq := List.head?_dropWhile_not (fun part => (innerComponent? part).isNone) ps.reverse
    rw [hrest] at hq
    refine ⟨q, by rw [List.reverse_cons, List.getLast?_concat]; rfl, ?_⟩
    intro hnone
    rw [List.head?_cons] at hq
    simp [hnone] at hq

theorem cons_prefix_splitOn {a t : Text} {ps : List Text} (h : a :: ps <+: t.splitOn '/') :
    '/' ∉ a ∧ (t = a ∧ ps = [] ∨ ∃ u, t = a ++ '/' :: u ∧ ps <+: u.splitOn '/') := by
  by_cases hslash : '/' ∈ t
  · obtain ⟨b, u, ht, hb⟩ := List.eq_append_cons_of_mem hslash
    rw [ht, List.splitOn_append_cons_self_of_not_mem hb, List.cons_prefix_cons] at h
    rw [h.1]
    exact ⟨hb, Or.inr ⟨u, ht, h.2⟩⟩
  · rw [List.splitOn_eq_singleton hslash, List.cons_prefix_cons] at h
    rw [h.1]
    exact ⟨hslash, Or.inl ⟨rfl, List.prefix_nil.mp h.2⟩⟩

theorem join_cons_cons (a b : Text) (ps : List Text) :
    Text.join ['/'] (a :: b :: ps) = a ++ '/' :: Text.join ['/'] (b :: ps) := by
  rw [Text.join, List.intercalate_cons_cons, List.append_assoc]
  rfl

/-- The first parts of a text, put together, are the start of the text. -/
theorem join_prefix {ps : List Text} {t : Text} (h : ps <+: t.splitOn '/') :
    Text.join ['/'] ps <+: t := by
  induction ps generalizing t with
  | nil => exact List.nil_prefix
  | cons a ps ih =>
    obtain ⟨-, ⟨rfl, rfl⟩ | ⟨u, rfl, hps⟩⟩ := cons_prefix_splitOn h
    · exact ⟨[], by rw [Text.join, List.intercalate_singleton, List.append_nil]⟩
    · cases ps with
      | nil =>
        rw [Text.join, List.intercalate_singleton]
        exact List.prefix_append _ _
      | cons b ps =>
        rw [join_cons_cons, List.prefix_append_right_inj, List.cons_prefix_cons]
        exact ⟨rfl, ih hps⟩

theorem innerOf_join_parts {ps : List Text} {t : Text} (h : ps <+: t.splitOn '/') :
    innerOf (Text.join ['/'] ps) = ps.filterMap innerComponent? := by
  induction ps generalizing t with
  | nil => exact innerOf_nil
  | cons a ps ih =>
    obtain ⟨ha, hrest⟩ := cons_prefix_splitOn h
    have hsingle : innerOf a = [a].filterMap innerComponent? := by
      rw [innerOf, List.splitOn_eq_singleton ha]
    cases ps with
    | nil => rw [Text.join, List.intercalate_singleton, hsingle]
    | cons b ps =>
      obtain ⟨-, hnil⟩ | ⟨u, -, hps⟩ := hrest
      · exact nomatch hnil
      · rw [join_cons_cons, innerOf_append_slash, hsingle, ih hps, ← List.filterMap_append,
          List.singleton_append]

/-! ## The last component -/

theorem getLast?_components {p : Path} {cs : List Component} {c : Component}
    (h : innerOf p.text = cs ++ [c]) : p.components.getLast? = some c := by
  have hcomponents : p.components = p.frontComponent?.toList ++ (cs ++ [c]) := by rw [← h]; rfl
  rw [hcomponents, ← List.append_assoc, List.getLast?_concat]

theorem fileName?_eq_some {p : Path} {cs : List Component} {name : Text}
    (h : innerOf p.text = cs ++ [.normal name]) : p.fileName? = some name := by
  rw [fileName?, getLast?_components h]

theorem not_mem_of_mem_splitOn {part t : Text} (h : part ∈ t.splitOn '/') : '/' ∉ part := by
  have hall : ∀ {ps : List Text} {t : Text}, ps <+: t.splitOn '/' → ∀ a ∈ ps, '/' ∉ a := by
    intro ps
    induction ps with
    | nil => exact fun _ a ha => absurd ha List.not_mem_nil
    | cons b ps ih =>
      intro t h a ha
      obtain ⟨hb, ⟨-, rfl⟩ | ⟨u, -, hps⟩⟩ := cons_prefix_splitOn h
      · rwa [List.mem_singleton.mp ha]
      · rcases List.mem_cons.mp ha with rfl | ha
        · exact hb
        · exact ih hps a ha
  exact hall (List.prefix_refl _) part h

/-! ## The parent -/

theorem isAbsolute_of_prefix {p : Path} {t : Text} (ht : t <+: p.text)
    (hfront : p.frontText <+: t) :
    (⟨t⟩ : Path).isAbsolute = p.isAbsolute := by
  cases t with
  | cons c t =>
    obtain ⟨rest, hrest⟩ := ht
    rw [isAbsolute.eq_def p, ← hrest]
    rfl
  | nil =>
    have hnil : p.frontText = [] := List.prefix_nil.mp hfront
    cases habs : p.isAbsolute with
    | false => rfl
    | true =>
      rw [frontText, frontComponent?, if_pos habs, Option.isSome_some, if_pos rfl] at hnil
      rcases List.take_eq_nil_iff.mp hnil with hzero | hempty
      · exact nomatch hzero
      · rw [isAbsolute, hempty] at habs
        exact nomatch habs

/-- The parent of a path has all its inner components but the last, and it ends in one of
them. -/
theorem exists_parent {p : Path} {cs : List Component} {c : Component}
    (h : innerOf p.text = cs ++ [c]) :
    ∃ q, p.parent? = some q ∧ innerOf q.text = cs ∧ q.isAbsolute = p.isAbsolute ∧
      q.text <+: p.text ∧
      (cs ≠ [] → ∃ part ∈ q.parts.getLast?, innerComponent? part ≠ none) := by
  have hc : c = .parent ∨ ∃ name, c = .normal name := by
    have hmem : c ∈ innerOf p.text := h ▸ List.mem_append_right _ List.mem_cons_self
    obtain ⟨part, -, hpart⟩ := List.mem_filterMap.mp hmem
    exact (innerComponent?_eq_some hpart).imp_right fun h => ⟨part, h⟩
  let body := (p.text.drop p.frontText.length).splitOn '/'
  let kept := dropIdleEnd (dropIdleEnd body).dropLast
  have hkept : kept <+: body :=
    (dropIdleEnd_isPrefix _).trans ((List.dropLast_prefix _).trans (dropIdleEnd_isPrefix _))
  have hu := join_prefix hkept
  -- The parent is the front with what is kept of the parts behind it.
  have hparent : p.parent? = some ⟨p.frontText ++ Text.join ['/'] kept⟩ := by
    rw [parent?, getLast?_components h]
    rcases hc with rfl | ⟨name, rfl⟩ <;> rfl
  have hprefix : p.frontText ++ Text.join ['/'] kept <+: p.text := by
    have h' := (List.prefix_append_right_inj p.frontText).mpr hu
    rwa [frontText_append_drop] at h'
  have hcs : ((dropIdleEnd body).dropLast).filterMap innerComponent? = cs := by
    rw [filterMap_dropLast_dropIdleEnd]
    show (innerOf (p.text.drop p.frontText.length)).dropLast = cs
    rw [innerOf_drop_frontText, h, List.dropLast_concat]
  have hinner : innerOf (Text.join ['/'] kept) = cs := by
    rw [innerOf_join_parts hkept, filterMap_dropIdleEnd, hcs]
  refine ⟨_, hparent, ?_, ?_, hprefix, fun hne => ?_⟩
  · show innerOf (p.frontText ++ Text.join ['/'] kept) = cs
    rw [innerOf_frontText_append p hu, hinner]
  · exact isAbsolute_of_prefix hprefix (List.prefix_append _ _)
  · obtain ⟨part, hpart, hcomponent⟩ := exists_getLast?_dropIdleEnd (hcs ▸ hne)
    refine ⟨part, ?_, hcomponent⟩
    have hjoin : Text.join ['/'] kept ≠ [] := by
      intro hempty
      rw [hempty, innerOf_nil] at hinner
      exact hne hinner.symm
    have hkept' : kept ≠ [] := fun hempty => hjoin (congrArg (Text.join ['/']) hempty)
    have hsplit : (Text.join ['/'] kept).splitOn '/' = kept :=
      List.splitOn_intercalate '/' (fun a ha => not_mem_of_mem_splitOn (hkept.subset ha)) hkept'
    show part ∈ ((p.frontText ++ Text.join ['/'] kept).splitOn '/').getLast?
    rw [getLast?_splitOn_frontText_append p hu hjoin, hsplit]
    exact hpart

theorem frontComponent?_eq_some {p : Path} {c : Component} (h : p.frontComponent? = some c) :
    c = .root ∨ c = .current ∧ p.isAbsolute = false := by
  rw [frontComponent?] at h
  by_cases habs : p.isAbsolute = true
  · rw [if_pos habs] at h
    exact Or.inl (Option.some.inj h).symm
  · rw [if_neg habs] at h
    by_cases hdot : p.parts.head? = some ['.']
    · rw [if_pos hdot] at h
      exact Or.inr ⟨(Option.some.inj h).symm, by simpa using habs⟩
    · rw [if_neg hdot] at h
      exact nomatch h

theorem exists_innerOf_of_fileName? {p : Path} {name : Text} (h : p.fileName? = some name) :
    ∃ cs, innerOf p.text = cs ++ [.normal name] := by
  rcases List.eq_nil_or_concat (innerOf p.text) with hnil | ⟨cs, c, hcs⟩
  · -- A root or a dot at the front is no file name.
    have hcomponents : p.components = p.frontComponent?.toList := by
      show p.frontComponent?.toList ++ innerOf p.text = _
      rw [hnil, List.append_nil]
    rw [fileName?, hcomponents] at h
    cases hfront : p.frontComponent? with
    | none =>
      rw [hfront] at h
      exact nomatch h
    | some c =>
      rw [hfront] at h
      rcases frontComponent?_eq_some hfront with rfl | ⟨rfl, -⟩ <;> exact nomatch h
  · rw [List.concat_eq_append] at hcs
    rw [fileName?, getLast?_components hcs] at h
    cases c with
    | normal name' => exact ⟨cs, by rw [hcs, Option.some.inj h]⟩
    | _ => exact nomatch h

/-- The parent leads through nothing that the path does not lead through. -/
theorem parent?_eq_some {p q : Path} (h : p.parent? = some q) :
    q.isAbsolute = p.isAbsolute ∧ innerOf q.text <+: innerOf p.text := by
  rcases List.eq_nil_or_concat (innerOf p.text) with hnil | ⟨cs, c, hcs⟩
  · have hcomponents : p.components = p.frontComponent?.toList := by
      rw [components]
      show _ ++ innerOf p.text = _
      rw [hnil, List.append_nil]
    rw [parent?, hcomponents] at h
    cases hfront : p.frontComponent? with
    | none =>
      rw [hfront] at h
      exact nomatch h
    | some c =>
      rw [hfront] at h
      rcases frontComponent?_eq_some hfront with rfl | ⟨rfl, hrelative⟩
      · exact nomatch h
      · rw [← Option.some.inj h]
        refine ⟨hrelative.symm, ?_⟩
        show innerOf [] <+: _
        rw [innerOf_nil]
        exact List.nil_prefix
  · rw [List.concat_eq_append] at hcs
    obtain ⟨q', hq', hinner, habs, -, -⟩ := exists_parent hcs
    rw [← Option.some.inj (hq'.symm.trans h), hinner, hcs]
    exact ⟨habs, List.prefix_append _ _⟩

/-- A path that is written somehow has a component. -/
theorem components_ne_nil {p : Path} (h : p.text ≠ []) : p.components ≠ [] := by
  rw [components, Ne, List.append_eq_nil_iff]
  rintro ⟨hfront, hinner⟩
  rw [frontComponent?] at hfront
  by_cases habs : p.isAbsolute = true
  · rw [if_pos habs] at hfront
    exact nomatch hfront
  · rw [if_neg habs] at hfront
    by_cases hdot : p.parts.head? = some ['.']
    · rw [if_pos hdot] at hfront
      exact nomatch hfront
    · -- The first part is neither empty nor a dot.
      cases hparts : p.parts with
      | nil => exact List.splitOn_ne_nil _ _ hparts
      | cons a parts =>
        have hidle := List.filterMap_eq_nil_iff.mp hinner a (hparts ▸ List.mem_cons_self)
        rw [hparts] at hdot
        have hempty : a = [] := by
          rw [innerComponent?] at hidle
          by_cases ha : a = [] ∨ a = ['.']
          · exact ha.resolve_right fun e => hdot (congrArg some e)
          · rw [if_neg ha] at hidle
            split at hidle <;> exact nomatch hidle
        have hhead : p.parts.head? = some [] := by rw [hparts, hempty]; rfl
        rcases text_of_head?_parts hhead with ht | ⟨t, ht⟩
        · exact h ht
        · exact habs (by rw [isAbsolute, ht]; rfl)

/-! ## The name of a path that was joined -/

theorem getLast?_parts_join {name : Text} (h : IsName name) (p : Path) :
    (p.join ⟨name⟩).parts.getLast? = some name := by
  have hsingle : name.splitOn '/' = [name] := List.splitOn_eq_singleton h.2.2.2
  have hslash : ∀ t : Text, ((t ++ '/' :: name).splitOn '/').getLast? = some name := by
    intro t
    rw [List.splitOn_append_cons_self, hsingle, List.getLast?_concat]
  rw [join, if_neg (by rw [isAbsolute_of_isName h]; exact Bool.false_ne_true), parts]
  by_cases hempty : p.text = []
  · rw [if_pos (Or.inl hempty), hempty, List.nil_append, hsingle]
    rfl
  · by_cases hlast : p.text.getLast? = some '/'
    · obtain ⟨t, ht⟩ := List.getLast?_eq_some_iff.mp hlast
      rw [if_pos (Or.inr hlast), ht, List.append_assoc, List.singleton_append]
      exact hslash t
    · rw [if_neg (not_or.mpr ⟨hempty, hlast⟩)]
      exact hslash p.text

theorem innerOf_join_name {name : Text} (h : IsName name) (p : Path) :
    innerOf (p.join ⟨name⟩).text = innerOf p.text ++ [.normal name] := by
  rw [innerOf_join (isAbsolute_of_isName h)]
  exact congrArg _ (innerOf_of_isName h)

theorem fileName?_join_name {name : Text} (h : IsName name) (p : Path) :
    (p.join ⟨name⟩).fileName? = some name :=
  fileName?_eq_some (innerOf_join_name h p)

/-! ## Stems -/

/-- The stem of a name is the start of it that comes before a dot, or all of it. -/
theorem splitName_stem {name : Text} (h : name ≠ []) :
    (splitName name).1 ≠ [] ∧ (splitName name).1 <+: name := by
  rw [splitName]
  cases hcut : cutAtLastDot? name with
  | none => exact ⟨h, List.prefix_refl name⟩
  | some r =>
    obtain ⟨before, after⟩ := r
    by_cases hbefore : before = []
    · simp only [if_pos hbefore]
      exact ⟨h, List.prefix_refl name⟩
    · simp only [if_neg hbefore]
      refine ⟨hbefore, ?_⟩
      rw [cutAtLastDot?] at hcut
      by_cases hdot : name.contains '.' = true
      · rw [if_pos hdot] at hcut
        rw [← (Prod.mk.inj (Option.some.inj hcut)).1]
        exact List.take_prefix _ _
      · rw [if_neg hdot] at hcut
        exact nomatch hcut

/-! ## Paths of entries -/

/-- Does the path lead to where the other leads, and one component further? -/
structure IsEntryOf (q p : Path) : Prop where
  isAbsolute : q.isAbsolute = p.isAbsolute
  inner : ∃ c, innerOf q.text = innerOf p.text ++ [c]

/-- The parent of an entry's path leads to where the directory's path leads. -/
theorem IsEntryOf.exists_parent {p q : Path} (h : q.IsEntryOf p) :
    ∃ r, q.parent? = some r ∧ Path.innerOf r.text = Path.innerOf p.text ∧
      r.isAbsolute = p.isAbsolute ∧ r.text <+: q.text ∧
      (Path.innerOf p.text ≠ [] → ∃ part ∈ r.parts.getLast?, innerComponent? part ≠ none) := by
  obtain ⟨habs, c, hc⟩ := h
  obtain ⟨r, hr, hinner, habs', hprefix, hends⟩ := Path.exists_parent hc
  exact ⟨r, hr, hinner, habs'.trans habs, hprefix, hends⟩

end Path
end StepStubs
