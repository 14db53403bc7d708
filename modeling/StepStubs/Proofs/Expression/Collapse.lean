/-
Steps that differ only in a number.

A numeral becomes a slot in one of two passes.  The pass for numeric groups takes the first digits of
a group, and the pass for numerals takes the digits that stand alone when all groups are opened.  In
both cases it does not matter which digits they are, so the steps compile to the same pattern
(`compile_digits_iff`, from right to left).

There are steps for which it does matter.  An opened group loses its brackets, and this can put a
word beside the numeral, as in `tab 2(on/off)`.  And of equal groups only the first is opened, so a
numeral decides whether its group is one of these.  These are all: `numericGroups_around`,
`slashGroups_around` and `numerals_around` say what each pass makes of a draft with any digits at
some place, and where the digits are not replaced, the pattern has more digits for longer ones, or
more brackets for digits that make two groups equal.
-/
import Mathlib.Algebra.Order.BigOperators.Group.List
import Mathlib.Algebra.Order.Group.Nat
import Mathlib.Data.Finset.Card
import StepStubs.Proofs.Expression.Alternative
import StepStubs.Proofs.Expression.Inference

namespace StepStubs
namespace Expression

open Text (InsideLiteral IsNumeral IsDigits StandsAlone isDigit isWord isBlank Segment segments
  joinSegments replaceSpans)

/-! ## Digits in a draft -/

section Digits

variable {m : Text}

theorem isDigit_of_mem_ofChars (hm : IsDigits m) : ∀ p ∈ Draft.ofChars m, p.isDigit = true := by
  intro p hp
  obtain ⟨c, hc, rfl⟩ := List.mem_map.mp hp
  exact hm.2 c hc

theorem ofChars_ne_nil (hm : IsDigits m) : Draft.ofChars m ≠ [] := fun h =>
  hm.1 (List.map_eq_nil_iff.mp h)

theorem not_mem_ofChars (hm : IsDigits m) {p : Piece} (hp : p.isDigit = false) :
    p ∉ Draft.ofChars m := fun hmem =>
  Bool.false_ne_true (hp.symm.trans (isDigit_of_mem_ofChars hm p hmem))

theorem isDigits_replicate (n : Nat) : IsDigits (List.replicate (n + 1) '0') :=
  ⟨List.cons_ne_nil _ _, fun c hc => by rw [List.eq_of_mem_replicate hc]; rfl⟩

theorem isPrivate_eq_false_of_isDigit {c : Char} (h : isDigit c = true) : isPrivate c = false := by
  cases hprivate : isPrivate c with
  | false => rfl
  | true =>
    rcases (Bool.or_eq_true _ _).mp hprivate with heq | heq <;> rw [eq_of_beq heq] at h <;>
      exact absurd h (by decide)

theorem any_getLast?_of_isSuffix {α : Type} {f : α → Bool} {x a : List α} (h : x <:+ a)
    (ha : a.getLast?.any f = false) : x.getLast?.any f = false := by
  obtain ⟨w, rfl⟩ := h
  cases hx : x.getLast? with
  | none => rfl
  | some p => rwa [List.getLast?_append, hx, Option.some_or] at ha

theorem any_head?_of_isPrefix {α : Type} {f : α → Bool} {y b : List α} (h : y <+: b)
    (hb : b.head?.any f = false) : y.head?.any f = false := by
  obtain ⟨w, rfl⟩ := h
  cases y with
  | nil => rfl
  | cons p y => exact hb

theorem any_isDigit_of_any_isWord {o : Option Piece} (h : o.any Piece.isWord = false) :
    o.any Piece.isDigit = false := by
  cases o with
  | none => rfl
  | some p => exact isDigit_eq_false_of_isWord h

end Digits

/-! ## The draft of the text -/

/-- Digits outside of the literals are in the draft as they are in the text, and what is around them
does not depend on them. -/
theorem quoted_around {u v : Text} (hleft : u.getLast?.any isWord = false)
    (hright : v.head?.any isWord = false) (hout : ¬ InsideLiteral u v)
    (hpublic : ∀ c ∈ u ++ v, isPrivate c = false) :
    ∃ a b : Draft, a.getLast?.any Piece.isWord = false ∧ b.head?.any Piece.isWord = false ∧
      ∀ m, IsDigits m → quoted (u ++ (m ++ v)) = a ++ (Draft.ofChars m ++ b) := by
  have hsuffix : Text.trimStart u <:+ u := List.dropWhile_suffix _
  have hfront : Text.trimEnd v <+: v := by
    obtain ⟨gap, -, hend⟩ := Text.exists_trimEnd_append v
    exact ⟨gap, hend⟩
  refine ⟨Pass.quotes.apply (Draft.ofChars (Text.trimStart u)),
    Pass.quotes.apply (Draft.ofChars (Text.trimEnd v)),
    (any_getLast?_quotes_ofChars (by decide) _).trans (any_getLast?_of_isSuffix hsuffix hleft),
    (any_head?_quotes_ofChars (by decide) _).trans (any_head?_of_isPrefix hfront hright), ?_⟩
  intro m hm
  have hquote : '"' ∉ m := fun hmem => absurd (hm.2 '"' hmem) (by decide)
  have hcut : ¬ InsideLiteral (Text.trimStart u) (m ++ Text.trimEnd v) := by
    rwa [Text.insideLiteral_append_right_iff hquote, Text.insideLiteral_trim_iff]
  have hcut' := Text.not_insideLiteral_of_not_mem hquote (Text.trimEnd v)
  have hpublic' : ∀ c ∈ Text.trimStart u ++ (m ++ Text.trimEnd v), isPrivate c = false := by
    intro c hc
    rcases List.mem_append.mp hc with hc | hc
    · exact hpublic c (List.mem_append_left v (hsuffix.subset hc))
    · rcases List.mem_append.mp hc with hc | hc
      · exact isPrivate_eq_false_of_isDigit (hm.2 c hc)
      · exact hpublic c (List.mem_append_right u (hfront.subset hc))
  rw [quoted, ofText_eq_publicPart,
    Text.trim_around hm.1 fun c hc => Text.isBlank_eq_false_of_isDigit (hm.2 c hc),
    publicPart_of_public hpublic', quotes_ofChars_append hcut, quotes_ofChars_append hcut',
    quotes_ofChars_of_not_mem hquote]

/-! ## Groups around digits -/

/-- Which groups the rule finds in a draft with digits between two others: the digits are in no
group, or in one of them, and apart from that the groups do not depend on the digits. -/
def CutAround (condition : Draft → Bool) (a b : Draft) : Prop :=
  (∃ ss ss', ∀ m, IsDigits m → segments (groupSpan condition) (a ++ (Draft.ofChars m ++ b)) =
    ss ++ ((Draft.ofChars m).map .kept ++ ss')) ∨
  ∃ x y ss ss', x <:+ a ∧ y <+: b ∧ ∀ m, IsDigits m →
    segments (groupSpan condition) (a ++ (Draft.ofChars m ++ b)) =
      ss ++ .span (group (x ++ (Draft.ofChars m ++ y))) :: ss'

section Groups

variable {condition : Draft → Bool} {a a' b : Draft}

/-- A segment before the digits changes nothing. -/
theorem CutAround.cons (h : CutAround condition a' b) (hsuffix : a' <:+ a) (s : Segment Piece)
    (hs : ∀ m, IsDigits m → segments (groupSpan condition) (a ++ (Draft.ofChars m ++ b)) =
      s :: segments (groupSpan condition) (a' ++ (Draft.ofChars m ++ b))) :
    CutAround condition a b := by
  rcases h with ⟨ss, ss', h⟩ | ⟨x, y, ss, ss', hx, hy, h⟩
  · refine Or.inl ⟨s :: ss, ss', fun m hm => ?_⟩
    rw [hs m hm, h m hm, List.cons_append]
  · refine Or.inr ⟨x, y, s :: ss, ss', hx.trans hsuffix, hy, fun m hm => ?_⟩
    rw [hs m hm, h m hm, List.cons_append]

theorem segments_ofChars_append {m : Text} (hm : IsDigits m) (b : Draft) :
    segments (groupSpan condition) (Draft.ofChars m ++ b) =
      (Draft.ofChars m).map .kept ++ segments (groupSpan condition) b := by
  have hopen : ∀ d : Draft, .char '(' ∉ d → segments (groupSpan condition) (d ++ b) =
      d.map .kept ++ segments (groupSpan condition) b := by
    intro d hd
    induction d with
    | nil => rfl
    | cons p d ih =>
      rw [List.cons_append, segments_cons_of_ne (List.ne_of_not_mem_cons hd).symm,
        ih (List.not_mem_of_not_mem_cons hd), List.map_cons, List.cons_append]
  exact hopen _ (not_mem_ofChars hm rfl)

/-- The bracket before the digits is closed behind them, so they are in a group, or the rule passes
over it. -/
theorem cutAround_of_closed (hcondition : ∀ x y m m', IsDigits m → IsDigits m' →
      condition (x ++ (Draft.ofChars m ++ y)) = condition (x ++ (Draft.ofChars m' ++ y)))
    {y : Draft} (ha : .char ')' ∉ a) (hy : .char ')' ∉ y)
    (hrest : CutAround condition a (y ++ .char ')' :: b)) :
    CutAround condition (.char '(' :: a) (y ++ .char ')' :: b) := by
  have hbody : ∀ {m}, IsDigits m → .char ')' ∉ a ++ (Draft.ofChars m ++ y) := by
    intro m hm hmem
    rcases List.mem_append.mp hmem with hmem | hmem
    · exact ha hmem
    · exact (List.mem_append.mp hmem).elim (not_mem_ofChars hm rfl) hy
  have hassoc : ∀ m : Text, a ++ (Draft.ofChars m ++ (y ++ .char ')' :: b)) =
      a ++ (Draft.ofChars m ++ y) ++ .char ')' :: b := by simp
  have hzero : IsDigits ['0'] := by decide
  cases hcond : condition (a ++ (Draft.ofChars ['0'] ++ y)) with
  | true =>
    refine Or.inr ⟨a, y, [], segments (groupSpan condition) b, List.suffix_cons _ _,
      List.prefix_append _ _, fun m hm => ?_⟩
    rw [List.cons_append, hassoc, segments_group (hbody hm)
      ((hcondition a y m ['0'] hm hzero).trans hcond), List.nil_append]
  | false =>
    refine hrest.cons (List.suffix_cons _ _) (.kept (.char '(')) fun m hm => ?_
    rw [List.cons_append, hassoc, segments_group_of_not (hbody hm)
      ((hcondition a y m ['0'] hm hzero).trans hcond)]

theorem cutAround (condition : Draft → Bool)
    (hcondition : ∀ x y m m', IsDigits m → IsDigits m' →
      condition (x ++ (Draft.ofChars m ++ y)) = condition (x ++ (Draft.ofChars m' ++ y)))
    (a b : Draft) : CutAround condition a b := by
  -- The induction is on the draft before the digits: a group in it is passed as a whole.
  generalize hn : a.length = n
  induction n using Nat.strongRecOn generalizing a with
  | _ n ih =>
    cases a with
    | nil =>
      exact Or.inl ⟨[], segments (groupSpan condition) b, fun m hm => segments_ofChars_append hm b⟩
    | cons p a =>
      rw [List.length_cons] at hn
      have hrest := ih a.length (by omega) a rfl
      by_cases hp : p = .char '('
      · subst hp
        by_cases hclose : .char ')' ∈ a
        · obtain ⟨body, rest, rfl, hbody⟩ := List.eq_append_cons_of_mem hclose
          rw [List.length_append, List.length_cons] at hn
          cases hcond : condition body with
          | true =>
            refine (ih rest.length (by omega) rest rfl).cons ⟨.char '(' :: body ++ [.char ')'], ?_⟩
              (.span (group body)) fun m _ => ?_
            · rw [List.append_assoc, List.singleton_append, List.cons_append]
            · rw [List.cons_append, List.append_assoc, List.cons_append,
                segments_group hbody hcond]
          | false =>
            refine hrest.cons (List.suffix_cons _ _) (.kept (.char '(')) fun m _ => ?_
            rw [List.cons_append, List.append_assoc, List.cons_append,
              segments_group_of_not hbody hcond]
        · by_cases hclose' : .char ')' ∈ b
          · obtain ⟨y, b, rfl, hy⟩ := List.eq_append_cons_of_mem hclose'
            exact cutAround_of_closed hcondition hclose hy hrest
          · refine hrest.cons (List.suffix_cons _ _) (.kept (.char '(')) fun m hm => ?_
            refine segments_unclosed fun hmem => ?_
            rcases List.mem_append.mp hmem with hmem | hmem
            · exact hclose hmem
            · exact (List.mem_append.mp hmem).elim (not_mem_ofChars hm rfl) hclose'
      · exact hrest.cons (List.suffix_cons _ _) (.kept p) fun m _ => segments_cons_of_ne hp

end Groups

/-! ## Numeric groups -/

theorem slotLead_congr (lead : Draft) {tail tail' : Draft}
    (h : tail.all Piece.isBlank = tail'.all Piece.isBlank) :
    slotLead lead tail = slotLead lead tail' := by
  rw [slotLead, slotLead, h]

/-- The pass for numeric groups puts a slot in the place of the digits, or leaves them. -/
theorem numericGroups_around {a b : Draft} (ha : a.getLast?.any Piece.isDigit = false)
    (hb : b.head?.any Piece.isDigit = false) :
    (∃ x y, ∀ m, IsDigits m → Pass.numericGroups.apply (a ++ (Draft.ofChars m ++ b)) =
      x ++ .slot .number :: y) ∨
    ∃ x y, ∀ m, IsDigits m → Pass.numericGroups.apply (a ++ (Draft.ofChars m ++ b)) =
      x ++ (Draft.ofChars m ++ y) := by
  have hany : ∀ {x y : Draft} {m : Text}, IsDigits m →
      (x ++ (Draft.ofChars m ++ y)).any Piece.isDigit = true := by
    intro x y m hm
    obtain ⟨p, hp⟩ := List.exists_mem_of_ne_nil _ (ofChars_ne_nil hm)
    exact List.any_eq_true.mpr ⟨p, by simp [hp], isDigit_of_mem_ofChars hm p hp⟩
  have hcondition : ∀ x y m m', IsDigits m → IsDigits m' →
      (x ++ (Draft.ofChars m ++ y)).any Piece.isDigit =
        (x ++ (Draft.ofChars m' ++ y)).any Piece.isDigit := fun x y m m' hm hm' =>
    (hany hm).trans (hany hm').symm
  rcases cutAround (fun body => body.any Piece.isDigit) hcondition a b with
    ⟨ss, ss', h⟩ | ⟨x, y, ss, ss', hx, hy, h⟩
  · refine Or.inr ⟨joinSegments regroup ss, joinSegments regroup ss', fun m hm => ?_⟩
    rw [Pass.apply, replaceSpans, numericGroupSpan, h m hm, Text.joinSegments_append,
      Text.joinSegments_append, Text.joinSegments_map_kept]
  · have hjoin : ∀ m, IsDigits m → Pass.numericGroups.apply (a ++ (Draft.ofChars m ++ b)) =
        joinSegments regroup ss ++
          (regroup (group (x ++ (Draft.ofChars m ++ y))) ++ joinSegments regroup ss') := by
      intro m hm
      rw [Pass.apply, replaceSpans, numericGroupSpan, h m hm, Text.joinSegments_append,
        joinSegments]
    have hydigit := any_head?_of_isPrefix hy hb
    by_cases hxdigit : x.any Piece.isDigit = true
    · -- The group has digits before, and these become its slot.
      obtain ⟨lead, run, tail, rfl, hlead, hne, hrun, htail⟩ := exists_numeric_body hxdigit
      refine Or.inr ⟨joinSegments regroup ss ++ (slotLead lead (Draft.ofChars ['0']) ++
        .slot .number :: tail), y ++ joinSegments regroup ss', fun m hm => ?_⟩
      have htailne : tail ≠ [] := by
        rintro rfl
        have hlast := any_getLast?_of_isSuffix hx ha
        rw [List.append_nil, List.getLast?_append, List.getLast?_eq_some_getLast hne,
          Option.some_or, Option.any_some, hrun _ (List.getLast_mem hne)] at hlast
        exact Bool.noConfusion hlast
      have htail' : (tail ++ (Draft.ofChars m ++ y)).head?.any Piece.isDigit = false := by
        obtain ⟨p, tail, rfl⟩ := List.exists_cons_of_ne_nil htailne
        exact htail
      have hblank : (tail ++ (Draft.ofChars m ++ y)).all Piece.isBlank =
          (Draft.ofChars ['0']).all Piece.isBlank := by
        obtain ⟨c, m, rfl⟩ := List.exists_cons_of_ne_nil hm.1
        have hc : Piece.isBlank (.char c) = false :=
          Text.isBlank_eq_false_of_isDigit (hm.2 c List.mem_cons_self)
        rw [ofChars_cons, List.all_append, List.cons_append, List.all_cons, hc, Bool.false_and,
          Bool.and_false]
        decide
      have hassoc : lead ++ (run ++ tail) ++ (Draft.ofChars m ++ y) =
          lead ++ (run ++ (tail ++ (Draft.ofChars m ++ y))) := by simp
      rw [hjoin m hm, hassoc, regroup_eq hlead hne hrun htail', slotLead_congr lead hblank]
      simp
    · refine Or.inl ⟨joinSegments regroup ss ++ slotLead x y, y ++ joinSegments regroup ss',
        fun m hm => ?_⟩
      have hlead : ∀ p ∈ x, p.isDigit = false := fun p hp =>
        Bool.eq_false_iff.mpr fun hdigit => hxdigit (List.any_eq_true.mpr ⟨p, hp, hdigit⟩)
      rw [hjoin m hm, regroup_eq hlead (ofChars_ne_nil hm) (isDigit_of_mem_ofChars hm) hydigit]
      simp

/-! ## Slash groups -/

/-- The groups among the segments. -/
def spans (ss : List (Segment Piece)) : List Draft :=
  ss.filterMap fun
    | .kept _ => none
    | .span s => some s

theorem mem_spans {s : Draft} {ss : List (Segment Piece)} : s ∈ spans ss ↔ .span s ∈ ss := by
  constructor
  · intro h
    obtain ⟨s', hs', heq⟩ := List.mem_filterMap.mp h
    cases s' with
    | kept p => exact nomatch heq
    | span s' => rwa [← Option.some.inj heq]
  · exact fun h => List.mem_filterMap.mpr ⟨.span s, h, rfl⟩

section Flatten

variable {ss : List (Segment Piece)} {seen seen' : List Draft}

/-- Which groups were seen only matters for those that are still to come. -/
theorem flattenGroups_congr (h : ∀ s, .span s ∈ ss → (s ∈ seen ↔ s ∈ seen')) :
    flattenGroups seen ss = flattenGroups seen' ss := by
  induction ss generalizing seen seen' with
  | nil => rfl
  | cons s ss ih =>
    have hss := fun s' hs' => h s' (List.mem_cons_of_mem s hs')
    cases s with
    | kept p => rw [flattenGroups, flattenGroups, ih hss]
    | span s =>
      have hs := h s List.mem_cons_self
      rw [flattenGroups, flattenGroups]
      by_cases hseen : s ∈ seen
      · rw [if_pos (List.contains_iff_mem.mpr hseen), if_pos (List.contains_iff_mem.mpr (hs.mp hseen)),
          ih hss]
      · have hseen' : ¬ s ∈ seen' := fun h' => hseen (hs.mpr h')
        rw [if_neg (fun h' => hseen (List.contains_iff_mem.mp h')),
          if_neg (fun h' => hseen' (List.contains_iff_mem.mp h')), ih fun s' hs' => ?_]
        rw [List.mem_cons, List.mem_cons, hss s' hs']

/-- Behind some segments, their groups were seen. -/
theorem exists_flattenGroups_append (seen : List Draft) (ss : List (Segment Piece)) :
    ∃ seen', (∀ s, s ∈ seen' ↔ s ∈ seen ∨ .span s ∈ ss) ∧
      ∀ ss', flattenGroups seen (ss ++ ss') = flattenGroups seen ss ++ flattenGroups seen' ss' := by
  induction ss generalizing seen with
  | nil => exact ⟨seen, fun s => by simp, fun _ => rfl⟩
  | cons s ss ih =>
    cases s with
    | kept p =>
      obtain ⟨seen', hmem, happend⟩ := ih seen
      refine ⟨seen', fun s => by simp [hmem], fun ss' => ?_⟩
      rw [List.cons_append, flattenGroups, happend, flattenGroups, List.cons_append]
    | span s =>
      by_cases hseen : seen.contains s = true
      · obtain ⟨seen', hmem, happend⟩ := ih seen
        refine ⟨seen', fun s' => ?_, fun ss' => ?_⟩
        · have hs : s' = s → s' ∈ seen := fun heq => heq ▸ List.contains_iff_mem.mp hseen
          rw [hmem, List.mem_cons, Segment.span.injEq]
          tauto
        · rw [List.cons_append, flattenGroups, if_pos hseen, happend, flattenGroups, if_pos hseen,
            List.append_assoc]
      · obtain ⟨seen', hmem, happend⟩ := ih (s :: seen)
        refine ⟨seen', fun s' => ?_, fun ss' => ?_⟩
        · rw [hmem, List.mem_cons, List.mem_cons, Segment.span.injEq]
          tauto
        · rw [List.cons_append, flattenGroups, if_neg hseen, happend, flattenGroups, if_neg hseen,
            List.append_assoc]

theorem char_beq_eq_false {c : Char} {t : Text} (h : c ∉ t) :
    ∀ c' ∈ t, (Piece.char c' == Piece.char c) = false := fun _ hc' =>
  beq_eq_false_iff_ne.mpr fun heq => h (Piece.char.inj heq ▸ hc')

theorem count_readSlashes (d : Draft) :
    (readSlashes d).count (.char '(') = d.count (.char '(') := by
  rw [List.count_eq_length_filter, filter_readSlashes (char_beq_eq_false (by decide)),
    List.count_eq_length_filter]

/-- Opening a group takes out one bracket, and each group that was not seen before is opened. -/
theorem count_flattenGroups (seen : List Draft)
    (hgroups : ∀ s, .span s ∈ ss → ∃ body, s = group body) :
    (flattenGroups seen ss).count (.char '(') + ((spans ss).toFinset \ seen.toFinset).card =
      (ss.flatMap Segment.elements).count (.char '(') := by
  induction ss generalizing seen with
  | nil => simp [flattenGroups, spans]
  | cons s ss ih =>
    have hss := fun seen => ih seen fun s' hs' => hgroups s' (List.mem_cons_of_mem s hs')
    rw [List.flatMap_cons, List.count_append]
    cases s with
    | kept p =>
      have hspans : spans (.kept p :: ss) = spans ss := rfl
      rw [flattenGroups, hspans, ← hss seen, ← List.singleton_append, List.count_append]
      exact Nat.add_assoc _ _ _
    | span s =>
      obtain ⟨body, rfl⟩ := hgroups s List.mem_cons_self
      have hspans : spans (.span (group body) :: ss) = group body :: spans ss := rfl
      have hgroup : (group body).count (.char '(') = body.count (.char '(') + 1 := by
        rw [group, List.cons_append, List.count_cons_self, List.count_append]
        rfl
      have helements : (Segment.span (group body)).elements = group body := rfl
      rw [flattenGroups, hspans, List.toFinset_cons, helements]
      by_cases hseen : group body ∈ seen
      · rw [if_pos (List.contains_iff_mem.mpr hseen), List.count_append,
          Finset.insert_sdiff_of_mem _ (List.mem_toFinset.mpr hseen), ← hss seen, Nat.add_assoc]
      · have hnot : group body ∉ seen.toFinset := fun h => hseen (List.mem_toFinset.mp h)
        have hcard : (insert (group body) ((spans ss).toFinset \ seen.toFinset)).card =
            ((spans ss).toFinset \ (group body :: seen).toFinset).card + 1 := by
          rw [List.toFinset_cons, Finset.sdiff_insert, ← Finset.erase_insert_eq_erase,
            Finset.card_erase_add_one (Finset.mem_insert_self _ _)]
        rw [if_neg (fun h => hseen (List.contains_iff_mem.mp h)), List.count_append,
          count_readSlashes, inner_group, Finset.insert_sdiff_of_notMem _ hnot, hcard,
          ← hss (group body :: seen), hgroup]
        omega

/-- A group that is equal to no other one is opened, and the rest does not depend on it. -/
theorem exists_flattenGroups_fresh (ss ss' : List (Segment Piece)) :
    ∃ d e, ∀ body, group body ∉ spans (ss ++ ss') →
      flattenGroups [] (ss ++ .span (group body) :: ss') = d ++ (readSlashes body ++ e) := by
  obtain ⟨seen, hseen, happend⟩ := exists_flattenGroups_append [] ss
  refine ⟨flattenGroups [] ss, flattenGroups seen ss', fun body hbody => ?_⟩
  rw [mem_spans, List.mem_append, not_or] at hbody
  have hnot : group body ∉ seen := fun hmem => by
    rw [hseen] at hmem
    exact hmem.elim List.not_mem_nil hbody.1
  have hafter : flattenGroups (group body :: seen) ss' = flattenGroups seen ss' :=
    flattenGroups_congr fun s hs => by
      rw [List.mem_cons]
      exact ⟨fun h => h.resolve_left fun heq => hbody.2 (heq ▸ hs), Or.inr⟩
  rw [happend, flattenGroups, if_neg fun h => hnot (List.contains_iff_mem.mp h), inner_group, hafter]

end Flatten

/-- The pass takes out one bracket for each of the groups, equal ones counted once. -/
theorem count_slashGroups_add_card (d : Draft) :
    (Pass.slashGroups.apply d).count (.char '(') +
      (spans (segments slashGroupSpan d)).toFinset.card = d.count (.char '(') := by
  have hgroups : ∀ s, .span s ∈ segments slashGroupSpan d → ∃ body, s = group body := fun s hs => by
    obtain ⟨body, rfl, -⟩ := exists_group_of_mem_segments hs
    exact ⟨body, rfl⟩
  have hcount := count_flattenGroups [] hgroups
  rwa [Text.flatten_segments, List.toFinset_nil, Finset.sdiff_empty] at hcount

theorem toFinset_spans_append_span (ss ss' : List (Segment Piece)) (s : Draft) :
    (spans (ss ++ .span s :: ss')).toFinset = insert s (spans (ss ++ ss')).toFinset := by
  ext s'
  simp only [List.mem_toFinset, mem_spans, List.mem_append, List.mem_cons, Finset.mem_insert,
    Segment.span.injEq]
  tauto

/-- Some digits make a group that is not in a list of groups. -/
theorem exists_group_not_mem (x y : Draft) (ds : List Draft) :
    ∃ m, IsDigits m ∧ group (x ++ (Draft.ofChars m ++ y)) ∉ ds := by
  refine ⟨List.replicate ((ds.map List.length).sum + 1) '0', isDigits_replicate _, fun hmem => ?_⟩
  have hle := List.le_sum_of_mem (List.mem_map_of_mem (f := List.length) hmem)
  simp [group, Draft.ofChars] at hle
  omega

/-- The pass for slash groups leaves the digits, or there are digits that it leaves more brackets
for than for others. -/
theorem slashGroups_around (a b : Draft) :
    (∃ x y, ∀ m, IsDigits m → Pass.slashGroups.apply (a ++ (Draft.ofChars m ++ b)) =
      x ++ (Draft.ofChars m ++ y)) ∨
    ∃ m m', IsDigits m ∧ IsDigits m' ∧
      (Pass.slashGroups.apply (a ++ (Draft.ofChars m ++ b))).count (.char '(') ≠
        (Pass.slashGroups.apply (a ++ (Draft.ofChars m' ++ b))).count (.char '(') := by
  have hslash : ∀ {m : Text}, IsDigits m → (Draft.ofChars m).contains (.char '/') = false :=
    fun hm => Bool.eq_false_iff.mpr fun h => not_mem_ofChars hm rfl (List.contains_iff_mem.mp h)
  have hcondition : ∀ x y m m', IsDigits m → IsDigits m' →
      (x ++ (Draft.ofChars m ++ y)).contains (Piece.char '/') =
        (x ++ (Draft.ofChars m' ++ y)).contains (.char '/') := by
    intro x y m m' hm hm'
    rw [List.contains_append, List.contains_append, List.contains_append, List.contains_append,
      hslash hm, hslash hm']
  rcases cutAround (fun body => body.contains (.char '/')) hcondition a b with
    ⟨ss, ss', h⟩ | ⟨x, y, ss, ss', -, -, h⟩
  · obtain ⟨seen, -, happend⟩ := exists_flattenGroups_append [] ss
    refine Or.inl ⟨flattenGroups [] ss, flattenGroups seen ss', fun m hm => ?_⟩
    rw [Pass.apply, slashGroupSpan, h m hm, happend, flattenGroups_map_kept_append]
  · by_cases htwin : ∃ m, IsDigits m ∧ group (x ++ (Draft.ofChars m ++ y)) ∈ spans (ss ++ ss')
    · -- With these digits the group is equal to another one, and one of the two stays closed.
      obtain ⟨m, hm, hmem⟩ := htwin
      obtain ⟨m', hm', hnot⟩ := exists_group_not_mem x y (spans (ss ++ ss'))
      refine Or.inr ⟨m, m', hm, hm', fun heq => ?_⟩
      have hcard : ∀ m, IsDigits m →
          (Pass.slashGroups.apply (a ++ (Draft.ofChars m ++ b))).count (.char '(') +
            (insert (group (x ++ (Draft.ofChars m ++ y))) (spans (ss ++ ss')).toFinset).card =
          a.count (.char '(') + b.count (.char '(') := by
        intro m hm
        have hcount := count_slashGroups_add_card (a ++ (Draft.ofChars m ++ b))
        rw [slashGroupSpan, h m hm, toFinset_spans_append_span, List.count_append,
          List.count_append, List.count_eq_zero_of_not_mem (not_mem_ofChars hm rfl), Nat.zero_add]
          at hcount
        exact hcount
      have hfirst := hcard m hm
      have hsecond := hcard m' hm'
      rw [Finset.insert_eq_of_mem (List.mem_toFinset.mpr hmem)] at hfirst
      rw [Finset.card_insert_of_notMem fun h => hnot (List.mem_toFinset.mp h)] at hsecond
      omega
    · obtain ⟨d, e, hfresh⟩ := exists_flattenGroups_fresh ss ss'
      refine Or.inl ⟨d ++ readSlashes x, readSlashes y ++ e, fun m hm => ?_⟩
      rw [Pass.apply, slashGroupSpan, h m hm, hfresh _ fun hmem => htwin ⟨m, hm, hmem⟩,
        readSlashes_append, readSlashes_append, readSlashes_of_not_mem (not_mem_ofChars hm rfl)]
      simp

/-! ## The digits that are left -/

/-- The pass for numerals, around a run of digits. -/
theorem numerals_around {a run b : Draft} (ha : a.getLast?.any Piece.isDigit = false)
    (hb : b.head?.any Piece.isDigit = false) (hne : run ≠ [])
    (hrun : ∀ p ∈ run, p.isDigit = true) :
    Pass.numerals.apply (a ++ (run ++ b)) = numeralsFrom none a ++
      ((if a.getLast?.any Piece.isWord || b.head?.any Piece.isWord then run else [.slot .number]) ++
        numeralsFrom none b) := by
  rw [apply_numerals, numeralsFrom_append (Or.inl ha), numeralsFrom_run hne hrun hb, Option.or_none,
    numeralsFrom_of_head hb run.getLast? none]

/-- A draft ends in a run of digits. -/
theorem exists_append_run (a : Draft) : ∃ a' l, a = a' ++ l ∧ (∀ p ∈ l, p.isDigit = true) ∧
    a'.getLast?.any Piece.isDigit = false := by
  refine ⟨(a.reverse.dropWhile Piece.isDigit).reverse, (a.reverse.takeWhile Piece.isDigit).reverse,
    ?_, fun p hp => List.mem_takeWhile_imp (List.mem_reverse.mp hp), ?_⟩
  · rw [← List.reverse_append, List.takeWhile_append_dropWhile, List.reverse_reverse]
  · rw [List.getLast?_reverse]
    exact Text.any_head?_dropWhile _ _

/-- A draft starts with a run of digits. -/
theorem exists_run_append (b : Draft) : ∃ r b', b = r ++ b' ∧ (∀ p ∈ r, p.isDigit = true) ∧
    b'.head?.any Piece.isDigit = false :=
  ⟨b.takeWhile Piece.isDigit, b.dropWhile Piece.isDigit, List.takeWhile_append_dropWhile.symm,
    fun _ => List.mem_takeWhile_imp, Text.any_head?_dropWhile _ _⟩

/-- Digits are part of a run that stands alone, or the pass keeps them all. -/
theorem standsAlone_or_countP (a b : Draft) :
    (∃ a' l r b', a = a' ++ l ∧ b = r ++ b' ∧ ∀ m, IsDigits m →
      StandsAlone Piece.isDigit Piece.isWord a' (l ++ (Draft.ofChars m ++ r)) b') ∨
    ∃ k, ∀ m, IsDigits m →
      (Pass.numerals.apply (a ++ (Draft.ofChars m ++ b))).countP Piece.isDigit = k + m.length := by
  obtain ⟨a, l, rfl, hl, ha⟩ := exists_append_run a
  obtain ⟨r, b, rfl, hr, hb⟩ := exists_run_append b
  have hdigits : ∀ m, IsDigits m → ∀ p ∈ l ++ (Draft.ofChars m ++ r), p.isDigit = true := by
    intro m hm p hp
    rcases List.mem_append.mp hp with hp | hp
    · exact hl p hp
    · exact (List.mem_append.mp hp).elim (isDigit_of_mem_ofChars hm p) (hr p)
  have hne : ∀ m, IsDigits m → l ++ (Draft.ofChars m ++ r) ≠ [] := by
    intro m hm hnil
    exact ofChars_ne_nil hm (List.append_eq_nil_iff.mp (List.append_eq_nil_iff.mp hnil).2).1
  by_cases hword : (a.getLast?.any Piece.isWord || b.head?.any Piece.isWord) = true
  · refine Or.inr ⟨(numeralsFrom none a).countP Piece.isDigit + l.length + r.length +
      (numeralsFrom none b).countP Piece.isDigit, fun m hm => ?_⟩
    have hassoc : a ++ l ++ (Draft.ofChars m ++ (r ++ b)) =
        a ++ (l ++ (Draft.ofChars m ++ r) ++ b) := by simp
    have hlength : (l ++ (Draft.ofChars m ++ r)).length = l.length + (m.length + r.length) := by
      simp [Draft.ofChars]
    rw [hassoc, numerals_around ha hb (hne m hm) (hdigits m hm), if_pos hword, List.countP_append,
      List.countP_append, List.countP_eq_length.mpr (hdigits m hm), hlength]
    omega
  · rw [Bool.not_eq_true, Bool.or_eq_false_iff] at hword
    exact Or.inl ⟨a, l, r, b, rfl, rfl, fun m hm => ⟨hne m hm, hdigits m hm, hword.1, hword.2⟩⟩

/-! ## Both ways to a slot -/

/-- Do digits between the two texts become the slot of their group, whatever they are? -/
def BecomesSlot (u v : Text) : Prop :=
  ∃ a b, ∀ m, IsDigits m →
    Pass.numericGroups.apply (quoted (u ++ (m ++ v))) = a ++ .slot .number :: b

/-- Are digits between the two texts, whatever they are, part of a run that stands alone when the
groups are opened? -/
def StaysNumeral (u v : Text) : Prop :=
  ∃ a l r b, ∀ m, IsDigits m →
    opened (u ++ (m ++ v)) = a ++ (l ++ (Draft.ofChars m ++ r) ++ b) ∧
      StandsAlone Piece.isDigit Piece.isWord a (l ++ (Draft.ofChars m ++ r)) b

section Collapse

variable {u v : Text}

theorem compile_eq_of_numerals_eq {t t' : Text}
    (h : Pass.numerals.apply (opened t) = Pass.numerals.apply (opened t')) :
    compile t = compile t' := by
  rw [compile, compile, draft_eq_opened, draft_eq_opened, h]

theorem BecomesSlot.compile_eq (h : BecomesSlot u v) {n m : Text} (hn : IsDigits n)
    (hm : IsDigits m) : compile (u ++ (m ++ v)) = compile (u ++ (n ++ v)) := by
  obtain ⟨a, b, hslot⟩ := h
  refine compile_eq_of_numerals_eq ?_
  rw [opened, opened, hslot m hm, hslot n hn]

theorem StaysNumeral.compile_eq (h : StaysNumeral u v) {n m : Text} (hn : IsDigits n)
    (hm : IsDigits m) : compile (u ++ (m ++ v)) = compile (u ++ (n ++ v)) := by
  obtain ⟨a, l, r, b, hopened⟩ := h
  have hnumerals : ∀ m, IsDigits m → Pass.numerals.apply (opened (u ++ (m ++ v))) =
      numeralsFrom none a ++ ([.slot .number] ++ numeralsFrom none b) := by
    intro m hm
    obtain ⟨heq, hstands⟩ := hopened m hm
    rw [heq, numerals_around (any_isDigit_of_any_isWord hstands.left)
      (any_isDigit_of_any_isWord hstands.right) hstands.nonempty hstands.digits, hstands.left,
      hstands.right]
    rfl
  refine compile_eq_of_numerals_eq ?_
  rw [hnumerals m hm, hnumerals n hn]

/-- The passes after the groups were opened keep the brackets. -/
theorem count_open_compile (t : Text) :
    (compile t).text.count '(' = (opened t).count (.char '(') := by
  rw [compile, count_finish_text (by decide) (by intro q; cases q <;> decide), draft_eq_opened,
    List.count_eq_length_filter, filter_brackets rfl,
    filter_slashes (char_beq_eq_false (by decide)), filter_numerals, List.count_eq_length_filter]
  intro p hp
  rw [eq_of_beq hp]
  exact ⟨rfl, by decide⟩

/-- If it does not matter which digits stand between the two texts, they become a slot. -/
theorem becomesSlot_or_staysNumeral (hleft : u.getLast?.any isWord = false)
    (hright : v.head?.any isWord = false) (hout : ¬ InsideLiteral u v)
    (hpublic : ∀ c ∈ u ++ v, isPrivate c = false)
    (h : ∀ m m', IsDigits m → IsDigits m' →
      compile (u ++ (m ++ v)) = compile (u ++ (m' ++ v))) :
    BecomesSlot u v ∨ StaysNumeral u v := by
  obtain ⟨a, b, ha, hb, hquoted⟩ := quoted_around hleft hright hout hpublic
  rcases numericGroups_around (any_isDigit_of_any_isWord ha) (any_isDigit_of_any_isWord hb) with
    ⟨x, y, hslot⟩ | ⟨x, y, hstay⟩
  · refine Or.inl ⟨x, y, fun m hm => ?_⟩
    rw [hquoted m hm, hslot m hm]
  · have hopened : ∀ m, IsDigits m → opened (u ++ (m ++ v)) =
        Pass.slashGroups.apply (x ++ (Draft.ofChars m ++ y)) := by
      intro m hm
      rw [opened, hquoted m hm, hstay m hm]
    rcases slashGroups_around x y with ⟨a, b, hslash⟩ | ⟨m, m', hm, hm', hne⟩
    · rcases standsAlone_or_countP a b with ⟨a, l, r, b, rfl, rfl, hstands⟩ | ⟨k, hcount⟩
      · refine Or.inr ⟨a, l, r, b, fun m hm => ⟨?_, hstands m hm⟩⟩
        rw [hopened m hm, hslash m hm]
        simp
      · -- The digits are kept, so the pattern has more of them for longer ones.
        have hlength : ∀ m, IsDigits m →
            (Draft.ofChars (compile (u ++ (m ++ v))).text).countP Piece.isDigit = k + m.length := by
          intro m hm
          rw [countP_isDigit_compile, hopened m hm, hslash m hm, hcount m hm]
        have hone := hlength _ (isDigits_replicate 0)
        have htwo := hlength _ (isDigits_replicate 1)
        rw [h _ _ (isDigits_replicate 0) (isDigits_replicate 1), htwo, List.length_replicate,
          List.length_replicate] at hone
        omega
    · have hcount := congrArg (fun p : Pattern => p.text.count '(') (h m m' hm hm')
      rw [count_open_compile, count_open_compile, hopened m hm, hopened m' hm'] at hcount
      exact absurd hcount hne

/-- Without groups nothing is joined to a numeral. -/
theorem staysNumeral_of_not_mem (hleft : u.getLast?.any isWord = false)
    (hright : v.head?.any isWord = false) (hout : ¬ InsideLiteral u v)
    (hpublic : ∀ c ∈ u ++ v, isPrivate c = false) (hgroup : '(' ∉ u ++ v) : StaysNumeral u v := by
  obtain ⟨a, b, ha, hb, hquoted⟩ := quoted_around hleft hright hout hpublic
  refine ⟨a, [], [], b, fun m hm => ?_⟩
  have hnot : '(' ∉ u ++ (m ++ v) := by
    intro hmem
    rcases List.mem_append.mp hmem with hmem | hmem
    · exact hgroup (List.mem_append_left v hmem)
    · rcases List.mem_append.mp hmem with hmem | hmem
      · exact absurd (hm.2 '(' hmem) (by decide)
      · exact hgroup (List.mem_append_right u hmem)
  rw [opened_of_not_mem hnot, hquoted m hm, List.append_nil, List.nil_append]
  exact ⟨rfl, ofChars_ne_nil hm, isDigit_of_mem_ofChars hm, ha, hb⟩

/-- Steps that differ only in a numeral compile to the same pattern just if its digits become the
slot of their group, or stand alone when the groups are opened.  So they do in a text without
groups. -/
theorem compile_digits_iff {n : Text} (hnumeral : IsNumeral u n v)
    (hout : ¬ InsideLiteral u (n ++ v)) (hpublic : ∀ c ∈ u ++ (n ++ v), isPrivate c = false) :
    ((∀ m, IsDigits m → compile (u ++ (m ++ v)) = compile (u ++ (n ++ v))) ↔
      BecomesSlot u v ∨ StaysNumeral u v) ∧
    ('(' ∉ u ++ v → ∀ m, IsDigits m → compile (u ++ (m ++ v)) = compile (u ++ (n ++ v))) := by
  have hn : IsDigits n := ⟨hnumeral.nonempty, hnumeral.digits⟩
  have hout' : ¬ InsideLiteral u v := fun h => hout ⟨h.1, List.mem_append_right n h.2⟩
  have hpublic' : ∀ c ∈ u ++ v, isPrivate c = false := fun c hc =>
    hpublic c ((List.mem_append.mp hc).elim (List.mem_append_left _) fun hc =>
      List.mem_append_right u (List.mem_append_right n hc))
  refine ⟨⟨fun h => ?_, fun h m hm => ?_⟩, fun hgroup m hm => ?_⟩
  · exact becomesSlot_or_staysNumeral hnumeral.left hnumeral.right hout' hpublic'
      fun m m' hm hm' => (h m hm).trans (h m' hm').symm
  · exact h.elim (fun h => h.compile_eq hn hm) fun h => h.compile_eq hn hm
  · exact (staysNumeral_of_not_mem hnumeral.left hnumeral.right hout' hpublic' hgroup).compile_eq
      hn hm

/-- A numeral beside a word, a slash and a literal. -/
theorem compile_digits_iff_wait :
    IsNumeral "wait \"a 1\"/".toList "5".toList "/min at v2".toList ∧
      ¬ InsideLiteral "wait \"a 1\"/".toList ("5".toList ++ "/min at v2".toList) ∧
      '(' ∉ "wait \"a 1\"/".toList ++ "/min at v2".toList ∧
      compile ("wait \"a 1\"/".toList ++ ("007".toList ++ "/min at v2".toList)) =
        compile ("wait \"a 1\"/".toList ++ ("5".toList ++ "/min at v2".toList)) ∧
      (BecomesSlot "wait \"a 1\"/".toList "/min at v2".toList ∨
        StaysNumeral "wait \"a 1\"/".toList "/min at v2".toList) := by
  have hnumeral : IsNumeral "wait \"a 1\"/".toList "5".toList "/min at v2".toList := by decide
  have hout : ¬ InsideLiteral "wait \"a 1\"/".toList ("5".toList ++ "/min at v2".toList) := by
    decide
  have hpublic : ∀ c ∈ "wait \"a 1\"/".toList ++ ("5".toList ++ "/min at v2".toList),
      isPrivate c = false := fun c hc =>
    Bool.eq_false_iff.mpr (List.any_eq_false.mp (by decide) c hc)
  have hgroup : '(' ∉ "wait \"a 1\"/".toList ++ "/min at v2".toList := by decide
  have hiff := compile_digits_iff hnumeral hout hpublic
  exact ⟨hnumeral, hout, hgroup, hiff.2 hgroup _ (by decide), hiff.1.mp (hiff.2 hgroup)⟩

/-- An opened group puts a word beside the numeral, so it is no numeral any more. -/
theorem compile_digits_ne :
    IsNumeral "tab ".toList "2".toList "(on/off)".toList ∧
      ¬ InsideLiteral "tab ".toList ("2".toList ++ "(on/off)".toList) ∧
      (∀ c ∈ "tab ".toList ++ ("2".toList ++ "(on/off)".toList), isPrivate c = false) ∧
      IsDigits "3".toList ∧
      compile ("tab ".toList ++ ("3".toList ++ "(on/off)".toList)) ≠
        compile ("tab ".toList ++ ("2".toList ++ "(on/off)".toList)) := by
  have hpublic : ∀ c ∈ "tab ".toList ++ ("2".toList ++ "(on/off)".toList), isPrivate c = false :=
    fun c hc => Bool.eq_false_iff.mpr (List.any_eq_false.mp (by decide) c hc)
  exact ⟨by decide +kernel, by decide, hpublic, by decide, by decide +kernel⟩

/-- The last group stays closed if it is equal to the first. -/
example : (compile "((5)/6) then ((5)/6)".toList).text =
      "\x7bint\x7d or \x7bint\x7d then \\(\x7bint\x7d or \x7bint\x7d\\)".toList ∧
    (compile "((5)/6) then ((5)/7)".toList).text =
      "\x7bint\x7d or \x7bint\x7d then \x7bint\x7d or \x7bint\x7d".toList := by
  decide +kernel

end Collapse

end Expression
end StepStubs
