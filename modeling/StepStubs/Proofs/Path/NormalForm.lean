/-
The form of a normal path.

A normal path is a dot, or names behind the root, or names behind a row of `..`, and it is written
with one slash between two components (`IsNormalForm`).  These are the paths that `normalize` leaves
as they are (`normalize_is_normalForm`), so normalizing twice is normalizing once.

The components of a stack are such a row, and a row read again is the same stack
(`isNormalRow_iff`); the dot is the exception, since it stands for the empty stack and is a component
itself.  What a path is joined with is put on its stack, and the normal path has the same stack, so
it may be joined in place of the path.
-/
import StepStubs.Proofs.Path.Relative

namespace StepStubs
namespace Path

/-! ## Rows of components -/

/-- Are the components a dot alone, the root and then names, or `..` and then names? -/
inductive IsNormalRow : List Component → Prop
  | dot : IsNormalRow [.current]
  | absolute {names : List Text} (h : ∀ name ∈ names, IsName name) :
      IsNormalRow (.root :: names.map .normal)
  | relative (ups : Nat) {names : List Text} (h : ∀ name ∈ names, IsName name)
      (hne : ¬ (ups = 0 ∧ names = [])) :
      IsNormalRow (List.replicate ups .parent ++ names.map .normal)

/-- The components one after the other with a slash between them.  The root is the slash before
what follows it. -/
def writeRow : List Component → Text
  | .root :: cs => '/' :: Text.join ['/'] (cs.map Component.text)
  | cs => Text.join ['/'] (cs.map Component.text)

/-- Does the path have a normal row of components, and is it written without anything else? -/
structure IsNormalForm (p : Path) : Prop where
  row : IsNormalRow p.components
  text : p.text = writeRow p.components

/-- Names may stand above any stack. -/
theorem IsStack.append_names {s : List Component} (hs : IsStack s) {names : List Text}
    (h : ∀ name ∈ names, IsName name) : IsStack (names.map .normal ++ s) := by
  induction names with
  | nil => exact hs
  | cons name names ih =>
    obtain ⟨hname, hnames⟩ := List.forall_mem_cons.mp h
    exact ⟨Or.inr (Or.inr ⟨name, rfl, hname⟩), nofun, ih hnames⟩

theorem isStack_replicate_parent (ups : Nat) : IsStack (List.replicate ups .parent) := by
  induction ups with
  | zero => trivial
  | succ ups ih =>
    exact ⟨Or.inr (Or.inl rfl), fun _ d hd => List.eq_of_mem_replicate hd, ih⟩

/-- The rows of normal paths are the dot and, read backwards, the stacks that are not empty. -/
theorem isNormalRow_iff {cs : List Component} :
    IsNormalRow cs ↔ cs = [.current] ∨ cs ≠ [] ∧ IsStack cs.reverse := by
  constructor
  · rintro (- | @⟨names, h⟩ | @⟨ups, names, h, hne⟩)
    · exact Or.inl rfl
    · refine Or.inr ⟨List.cons_ne_nil _ _, ?_⟩
      rw [List.reverse_cons, ← List.map_reverse]
      have hroot : IsStack [.root] := ⟨Or.inl ⟨rfl, rfl⟩, nofun, trivial⟩
      exact hroot.append_names fun name hname => h name (List.mem_reverse.mp hname)
    · refine Or.inr ⟨fun hnil => hne (by simpa using hnil), ?_⟩
      rw [List.reverse_append, List.reverse_replicate, ← List.map_reverse]
      exact (isStack_replicate_parent ups).append_names fun name hname =>
        h name (List.mem_reverse.mp hname)
  · rintro (rfl | ⟨hne, hstack⟩)
    · exact .dot
    · obtain ⟨names, hnames, hcs | ⟨ups, hcs⟩⟩ := hstack.exists_names
      · rw [List.reverse_eq_iff, List.reverse_append, ← List.map_reverse] at hcs
        rw [hcs]
        exact .absolute fun name hname => hnames name (List.mem_reverse.mp hname)
      · rw [List.reverse_eq_iff, List.reverse_append, List.reverse_replicate,
          ← List.map_reverse] at hcs
        rw [hcs] at hne ⊢
        refine .relative ups (fun name hname => hnames name (List.mem_reverse.mp hname)) ?_
        rintro ⟨rfl, hnil⟩
        exact hne (by rw [hnil]; rfl)

/-! ## Normalizing again -/

theorem stackOf_of_isStack {p : Path} (h : IsStack p.components.reverse) :
    p.stackOf = p.components.reverse := by
  rw [← List.append_nil p.components.reverse] at h
  rw [stackOf, foldl_push_of_isStack h, List.append_nil]

/-- The normal path leads through the same stack. -/
theorem stackOf_normalize (p : Path) : p.normalize.stackOf = p.stackOf := by
  by_cases hempty : p.stackOf = []
  · rw [stackOf, components_normalize, if_pos hempty, hempty]
    rfl
  · have hcomponents := components_normalize p
    rw [if_neg hempty] at hcomponents
    rw [stackOf_of_isStack] <;> rw [hcomponents, List.reverse_reverse]
    exact isStack_stackOf p

/-- A path whose components are a normal row keeps them. -/
theorem components_normalize_of_isNormalRow {p : Path} (h : IsNormalRow p.components) :
    p.normalize.components = p.components := by
  rw [components_normalize]
  rcases isNormalRow_iff.mp h with hdot | ⟨hne, hstack⟩
  · have hempty : p.stackOf = [] := by rw [stackOf, hdot]; rfl
    rw [if_pos hempty, hdot]
  · rw [stackOf_of_isStack hstack, List.reverse_reverse,
      if_neg fun hnil => hne (List.reverse_eq_nil_iff.mp hnil)]

theorem isNormalRow_components_normalize (p : Path) : IsNormalRow p.normalize.components := by
  rw [isNormalRow_iff, components_normalize]
  by_cases hempty : p.stackOf = []
  · exact Or.inl (if_pos hempty)
  · rw [if_neg hempty, List.reverse_reverse]
    exact Or.inr ⟨fun hnil => hempty (List.reverse_eq_nil_iff.mp hnil), isStack_stackOf p⟩

/-! ## Writing a row -/

theorem text_ofComponentsOrDot_root {cs : List Component} (h : ∀ c ∈ cs, IsInner c) :
    (ofComponentsOrDot (.root :: cs)).text = '/' :: Text.join ['/'] (cs.map Component.text) := by
  have hroot := ofComponents_append_root [] cs
  rw [List.nil_append] at hroot
  rw [ofComponentsOrDot_of_components (components_ofComponents_root h) (List.cons_ne_nil _ _), hroot]
  cases cs with
  | nil => rfl
  | cons c cs =>
    have hc := h c List.mem_cons_self
    -- The slash of the root is the one before the first name.
    have hjoin : (⟨['/']⟩ : Path).join ⟨c.text⟩ = ⟨'/' :: c.text⟩ := by
      rw [join, if_neg (by rw [isAbsolute_of_not_mem hc.slash_not_mem]; exact Bool.false_ne_true)]
      exact if_pos (Or.inr rfl)
    have hlast : ('/' :: c.text).getLast? ≠ some '/' := by
      obtain ⟨d, t, hd⟩ := List.exists_cons_of_ne_nil hc.text_ne_nil
      rw [hd, List.getLast?_cons_cons, ← hd]
      exact fun hslash => hc.slash_not_mem (List.mem_of_getLast? hslash)
    rw [List.foldl_cons, hjoin,
      text_foldl_join (fun d hd => h d (List.mem_cons_of_mem c hd)) (List.cons_ne_nil _ _) hlast,
      List.map_cons, join_eq_append_flatMap]
    rfl

theorem writeRow_of_isInner {cs : List Component} (h : ∀ c ∈ cs, IsInner c) :
    writeRow cs = Text.join ['/'] (cs.map Component.text) := by
  unfold writeRow
  split
  · next cs =>
    rcases h .root List.mem_cons_self with hroot | ⟨_, hroot, -⟩ <;> exact nomatch hroot
  · rfl

/-- A normal path is its components written one after the other. -/
theorem text_normalize (p : Path) : p.normalize.text = writeRow p.normalize.components := by
  rw [components_normalize, normalize_eq]
  by_cases hempty : p.stackOf = []
  · rw [if_pos hempty, hempty]
    decide
  · rw [if_neg hempty]
    cases habs : p.isAbsolute with
    | true =>
      obtain ⟨names, hnames, -, hinner⟩ := exists_stackOf_eq_append_root habs
      rw [hnames, List.reverse_append]
      exact text_ofComponentsOrDot_root fun c hc => hinner c (List.mem_reverse.mp hc)
    | false =>
      have hinner : ∀ c ∈ p.stackOf.reverse, IsInner c := fun c hc =>
        isInner_of_mem_stackOf habs c (List.mem_reverse.mp hc)
      rw [writeRow_of_isInner hinner, text_ofComponentsOrDot hinner]
      exact fun hnil => hempty (List.reverse_eq_nil_iff.mp hnil)

theorem isNormalForm_normalize (p : Path) : p.normalize.IsNormalForm :=
  ⟨isNormalRow_components_normalize p, text_normalize p⟩

theorem IsNormalForm.normalize_eq {p : Path} (h : p.IsNormalForm) : p.normalize = p := by
  have htext := text_normalize p
  rw [components_normalize_of_isNormalRow h.row, ← h.text] at htext
  exact congrArg Path.mk htext

/-! ## Joining -/

/-- The normal path may be joined in place of the path. -/
theorem stackOf_normalize_join (p q : Path) :
    (p.normalize.join q).stackOf = (p.join q).stackOf := by
  cases hq : q.isAbsolute with
  | true => rw [join_of_isAbsolute hq, join_of_isAbsolute hq]
  | false => rw [stackOf_join hq, stackOf_join hq, stackOf_normalize]

/-- Normalizing gives a path in normal form, leaves the paths in normal form as they are, and may be
done before joining as well as after it. -/
theorem normalize_is_normalForm (p : Path) :
    p.normalize.IsNormalForm ∧
    (p.normalize = p ↔ p.IsNormalForm) ∧
    p.normalize.normalize = p.normalize ∧
    ∀ q : Path, (p.join q).normalize = (p.normalize.join q).normalize := by
  refine ⟨isNormalForm_normalize p, ⟨fun heq => ?_, IsNormalForm.normalize_eq⟩, ?_, fun q => ?_⟩
  · rw [← heq]
    exact isNormalForm_normalize p
  · exact (isNormalForm_normalize p).normalize_eq
  · exact normalize_eq_iff.mpr (stackOf_normalize_join p q).symm

end Path
end StepStubs
