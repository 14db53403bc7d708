/-
What becomes of the slashes of a draft.

The pass for slashes sweeps until a sweep changes nothing, and a sweep passes over some of the
slashes, since it uses up the word behind each one that it reads.  Yet the result can be told
without sweeping, from the two pieces beside a slash in the draft that the pass got: between words
and slots a slash reads as `or`, and any other gets a backslash unless it has one.  `resolve` writes
that down in one pass, and `slashes_settle_and_resolve` says that it is what the sweeps come to.

Reading a slash changes nothing for the others, since what is put in its place begins and ends with
a blank, which is as little a word as the slash was.  So a sweep leaves the reading of all slashes as
it was (`ReadsSome.readAlternativesFrom_eq`), and as it reads one if it changes anything, the
sweeping ends.
-/
import StepStubs.Proofs.Expression.Legal
import Mathlib.Data.List.TakeWhile

namespace StepStubs
namespace Expression

open Text (Segment segments segmentsFrom joinSegments replaceSpans)

/-! ## Settling -/

/-- The loop that applies `f` until it changes nothing goes from the first draft to the second and
ends there. -/
inductive SettlesTo (f : Draft → Draft) : Draft → Draft → Prop where
  | done {d : Draft} (h : f d = d) : SettlesTo f d d
  | again {d e : Draft} (h : f d ≠ d) (rest : SettlesTo f (f d) e) : SettlesTo f d e

section Settle

variable {f : Draft → Draft} {d e : Draft}

theorem SettlesTo.fixed (h : SettlesTo f d e) : f e = e := by
  induction h with
  | done h => exact h
  | again _ _ ih => exact ih

/-- The loop ends if each round that changes a draft makes it smaller, and its size is enough for the
number of rounds. -/
theorem settlesTo_settle (size : Draft → Nat) (hsize : ∀ d, f d ≠ d → size (f d) < size d) {n : Nat}
    (hn : size d ≤ n) : SettlesTo f d (settle f n d) := by
  induction n generalizing d with
  | zero =>
    have hd : f d = d := by
      by_contra hne
      have hless := hsize d hne
      omega
    exact .done hd
  | succ n ih =>
    rw [settle]
    split
    · next hd => exact .done hd
    · next hne =>
      have hless := hsize d hne
      exact .again hne (ih (by omega))

end Settle

/-! ## Words and slots -/

/-- Is the piece a word character or a slot? -/
def Piece.isOperand : Piece → Bool
  | char c => Text.isWord c
  | slot _ => true

/-- Does a slash between the two pieces read as `or`? -/
def separates (before after : Option Piece) : Bool :=
  before.any Piece.isOperand && after.any Piece.isOperand

/-- Has the draft no slash between words or slots? -/
def NoAlternative (d : Draft) : Prop :=
  ∀ before p q after, d = before ++ p :: .char '/' :: q :: after →
    ¬ (p.isOperand = true ∧ q.isOperand = true)

theorem isOperand_slash : Piece.isOperand (.char '/') = false := by decide

theorem isOperand_of_isWord {p : Piece} (h : p.isWord = true) : p.isOperand = true := by
  cases p with
  | char c => exact h
  | slot q => rfl

theorem not_mem_of_isOperand {x : Draft} (h : ∀ p ∈ x, p.isOperand = true) : .char '/' ∉ x :=
  fun hmem => Bool.false_ne_true (isOperand_slash.symm.trans (h _ hmem))

theorem NoAlternative.of_append {x d : Draft} (h : NoAlternative (x ++ d)) : NoAlternative d :=
  fun before p q after heq => h (x ++ before) p q after (by rw [heq, List.append_assoc])

/-! ## Reading all slashes -/

/-- The draft behind a piece, with each slash between words or slots reading as `or`. -/
def readAlternativesFrom : (before : Option Piece) → Draft → Draft
  | _, [] => []
  | before, p :: d =>
    (if p = .char '/' ∧ separates before d.head? = true then Draft.ofChars " or ".toList else [p]) ++
      readAlternativesFrom (some p) d

/-- Of the piece before a draft only matters whether it is a word or a slot. -/
theorem readAlternativesFrom_congr {b b' : Option Piece}
    (h : b.any Piece.isOperand = b'.any Piece.isOperand) (d : Draft) :
    readAlternativesFrom b d = readAlternativesFrom b' d := by
  cases d with
  | nil => rfl
  | cons p d => rw [readAlternativesFrom, readAlternativesFrom, separates, separates, h]

theorem readAlternativesFrom_of_noAlternative {b : Option Piece} {d : Draft}
    (h : NoAlternative (b.toList ++ d)) : readAlternativesFrom b d = d := by
  induction d generalizing b with
  | nil => rfl
  | cons p d ih =>
    have hnot : ¬ (p = .char '/' ∧ separates b d.head? = true) := by
      rintro ⟨rfl, hsep⟩
      rw [separates, Bool.and_eq_true] at hsep
      obtain ⟨hleft, hright⟩ := hsep
      cases b with
      | none => exact Bool.false_ne_true hleft
      | some b =>
        cases d with
        | nil => exact Bool.false_ne_true hright
        | cons q d => exact h [] b q d rfl ⟨hleft, hright⟩
    rw [readAlternativesFrom, if_neg hnot, ih (b := some p) h.of_append, List.singleton_append]

/-! ## Reading some slashes -/

/-- Is the second draft the first one, behind a piece, with some of the slashes between words or
slots reading as `or`? -/
inductive ReadsSome : (before : Option Piece) → Draft → Draft → Prop where
  | nil (b : Option Piece) : ReadsSome b [] []
  | keep {b : Option Piece} {d e : Draft} (p : Piece) (rest : ReadsSome (some p) d e) :
    ReadsSome b (p :: d) (p :: e)
  | read {b : Option Piece} {d e : Draft} (h : separates b d.head? = true)
    (rest : ReadsSome (some (.char '/')) d e) :
    ReadsSome b (.char '/' :: d) (Draft.ofChars " or ".toList ++ e)

namespace ReadsSome

variable {b : Option Piece} {d e : Draft}

theorem append_left (x : Draft) (h : ReadsSome (x.getLast?.or b) d e) :
    ReadsSome b (x ++ d) (x ++ e) := by
  induction x generalizing b with
  | nil => exact h
  | cons p x ih =>
    rw [Text.getLast?_cons_or] at h
    exact .keep p (ih h)

/-- The first piece is a word or a slot just if it was one before. -/
theorem any_head?_isOperand (h : ReadsSome b d e) :
    e.head?.any Piece.isOperand = d.head?.any Piece.isOperand := by
  cases h <;> rfl

/-- What is put in the place of a slash does not make any other slash read otherwise. -/
theorem readAlternativesFrom_eq (h : ReadsSome b d e) :
    readAlternativesFrom b e = readAlternativesFrom b d := by
  induction h with
  | nil => rfl
  | keep p rest ih =>
    rw [readAlternativesFrom, readAlternativesFrom, ih, separates, separates,
      rest.any_head?_isOperand]
  | @read b d e h _ ih =>
    have hor : ∀ b, readAlternativesFrom b (Draft.ofChars " or ".toList ++ e) =
        Draft.ofChars " or ".toList ++ readAlternativesFrom (some (.char ' ')) e := fun _ => rfl
    have hblank : readAlternativesFrom (some (.char ' ')) e =
        readAlternativesFrom (some (.char '/')) e := readAlternativesFrom_congr (by decide) e
    rw [hor, hblank, ih, readAlternativesFrom, if_pos ⟨rfl, h⟩]

/-- A slash that was read is gone. -/
theorem eq_or_count_lt (h : ReadsSome b d e) :
    e = d ∨ e.count (.char '/') < d.count (.char '/') := by
  induction h with
  | nil => exact Or.inl rfl
  | keep p _ ih =>
    refine ih.imp (congrArg (p :: ·)) fun hless => ?_
    rw [List.count_cons, List.count_cons]
    omega
  | @read b d e _ _ ih =>
    have hor : (Draft.ofChars " or ".toList ++ e).count (.char '/') = e.count (.char '/') := by
      rw [List.count_append]
      exact Nat.zero_add _
    refine Or.inr ?_
    rw [hor, List.count_cons_self]
    rcases ih with rfl | hless <;> omega

end ReadsSome

/-! ## What a sweep does -/

theorem readSlashes_of_not_mem {d : Draft} (h : .char '/' ∉ d) : readSlashes d = d := by
  induction d with
  | nil => rfl
  | cons p d ih =>
    rw [readSlashes, List.flatMap_cons, if_neg (List.ne_of_not_mem_cons h).symm, ← readSlashes,
      ih (List.not_mem_of_not_mem_cons h), List.singleton_append]

theorem readSlashes_append (d e : Draft) :
    readSlashes (d ++ e) = readSlashes d ++ readSlashes e := List.flatMap_append

theorem readSlashes_slash_cons (d : Draft) :
    readSlashes (.char '/' :: d) = Draft.ofChars " or ".toList ++ readSlashes d := rfl

theorem exists_operands_append (d : Draft) :
    ∃ x rest, d = x ++ rest ∧ x.length = wordOrSlotLength d ∧ ∀ p ∈ x, p.isOperand = true := by
  cases d with
  | nil => exact ⟨[], [], rfl, rfl, nofun⟩
  | cons p d =>
    cases p with
    | slot q => exact ⟨[.slot q], d, rfl, rfl, fun p hp => by rw [List.mem_singleton.mp hp]; rfl⟩
    | char c =>
      exact ⟨_, _, (List.takeWhile_append_dropWhile (p := Piece.isWord)).symm, rfl,
        fun p hp => isOperand_of_isWord (List.mem_takeWhile_imp hp)⟩

/-- What the rule for alternatives finds is a slash between words or slots. -/
theorem exists_alternative {b : Option Piece} {d : Draft} {k : Nat}
    (h : alternativeSpan b d = some k) :
    ∃ left right rest, d = left ++ .char '/' :: (right ++ rest) ∧ left ≠ [] ∧ right ≠ [] ∧
      (∀ p ∈ left, p.isOperand = true) ∧ (∀ p ∈ right, p.isOperand = true) ∧
      k = left.length + right.length := by
  obtain ⟨left, d', rfl, hleft, hleftop⟩ := exists_operands_append d
  rw [alternativeSpan, ← hleft, List.drop_left] at h
  split at h
  · next rest =>
    obtain ⟨right, rest, rfl, hright, hrightop⟩ := exists_operands_append rest
    rw [← hright] at h
    dsimp only at h
    split at h
    · exact nomatch h
    · next hne =>
      rw [not_or, List.length_eq_zero_iff, List.length_eq_zero_iff] at hne
      exact ⟨left, right, rest, rfl, hne.1, hne.2, hleftop, hrightop, (Option.some.inj h).symm⟩
  · exact nomatch h

theorem wordOrSlotLength_pos {p : Piece} (hp : p.isOperand = true) (d : Draft) :
    0 < wordOrSlotLength (p :: d) := by
  cases p with
  | slot q => exact Nat.one_pos
  | char c =>
    have hc : (Piece.char c).isWord = true := hp
    rw [wordOrSlotLength, List.takeWhile_cons_of_pos hc, List.length_cons]
    · exact Nat.succ_pos _
    · exact nofun

/-- The rule finds an alternative already behind the last character of a word. -/
theorem alternativeSpan_ne_none {p q : Piece} (hp : p.isOperand = true) (hq : q.isOperand = true)
    (b : Option Piece) (d : Draft) : alternativeSpan b (p :: .char '/' :: q :: d) ≠ none := by
  have hleft : wordOrSlotLength (p :: .char '/' :: q :: d) = 1 := by
    cases p with
    | slot r => rfl
    | char c =>
      have hc : (Piece.char c).isWord = true := hp
      rw [wordOrSlotLength, List.takeWhile_cons_of_pos hc,
        List.takeWhile_cons_of_neg (by decide), List.length_singleton]
      exact nofun
  have hright := wordOrSlotLength_pos hq d
  have hspan : alternativeSpan b (p :: .char '/' :: q :: d) =
      some (1 + wordOrSlotLength (q :: d)) := by
    rw [alternativeSpan, hleft]
    exact if_neg (by omega)
  rw [hspan]
  exact Option.some_ne_none _

/-- A sweep keeps the first piece, or it reads the slash behind the first word or slot. -/
theorem sweepAlternatives_cons (p : Piece) (d : Draft) :
    (alternativeSpan none (p :: d) = none ∧
        sweepAlternatives (p :: d) = p :: sweepAlternatives d) ∨
      ∃ left right rest, p :: d = left ++ .char '/' :: (right ++ rest) ∧ left ≠ [] ∧ right ≠ [] ∧
        (∀ p ∈ left, p.isOperand = true) ∧ (∀ p ∈ right, p.isOperand = true) ∧
        sweepAlternatives (p :: d) =
          left ++ (Draft.ofChars " or ".toList ++ (right ++ sweepAlternatives rest)) := by
  have hfrom : ∀ b d, joinSegments readSlashes (segmentsFrom alternativeSpan b 0 d) =
      sweepAlternatives d := fun b d => by
    rw [Text.segmentsFrom_eq_segments fun _ _ _ => rfl, sweepAlternatives, replaceSpans]
  cases hrule : alternativeSpan none (p :: d) with
  | none =>
    refine Or.inl ⟨rfl, ?_⟩
    rw [← hfrom none, Text.segmentsFrom_kept hrule, joinSegments, hfrom]
  | some k =>
    obtain ⟨left, right, rest, heq, hleft, hright, hleftop, hrightop, hk⟩ := exists_alternative hrule
    refine Or.inr ⟨left, right, rest, heq, hleft, hright, hleftop, hrightop, ?_⟩
    obtain ⟨a, left, rfl⟩ := List.exists_cons_of_ne_nil hleft
    have hlist : p :: d = a :: ((left ++ .char '/' :: right) ++ rest) := by
      rw [heq, List.cons_append, List.append_assoc, List.cons_append]
    have hlength : k = (left ++ Piece.char '/' :: right).length := by
      rw [hk, List.length_append, List.length_cons, List.length_cons]
      omega
    have hread : readSlashes (a :: (left ++ .char '/' :: right)) =
        a :: left ++ (Draft.ofChars " or ".toList ++ right) := by
      rw [← List.cons_append, readSlashes_append, readSlashes_slash_cons,
        readSlashes_of_not_mem (not_mem_of_isOperand hleftop),
        readSlashes_of_not_mem (not_mem_of_isOperand hrightop)]
    rw [hlist, hlength] at hrule
    rw [hlist, ← hfrom none, Text.segmentsFrom_span hrule, joinSegments, hfrom, hread,
      List.append_assoc, List.append_assoc]

/-- A sweep reads some slashes. -/
theorem readsSome_sweepAlternatives (b : Option Piece) (d : Draft) :
    ReadsSome b d (sweepAlternatives d) := by
  generalize hn : d.length = n
  induction n using Nat.strongRecOn generalizing b d with
  | _ n ih =>
    cases d with
    | nil => exact .nil b
    | cons p d =>
      rcases sweepAlternatives_cons p d with
        ⟨-, hsweep⟩ | ⟨left, right, rest, heq, hleft, hright, hleftop, hrightop, hsweep⟩
      · rw [hsweep]
        rw [List.length_cons] at hn
        exact .keep p (ih d.length (by omega) _ d rfl)
      · have hlength : rest.length < n := by
          rw [← hn, heq, List.length_append, List.length_cons, List.length_append]
          omega
        have hrest := fun b => ih rest.length hlength b rest rfl
        obtain ⟨l, hl⟩ := Option.isSome_iff_exists.mp (List.getLast?_isSome.mpr hleft)
        obtain ⟨r, right', rfl⟩ := List.exists_cons_of_ne_nil hright
        have hsep : separates (left.getLast?.or b) (r :: right' ++ rest).head? = true := by
          rw [hl, separates, Bool.and_eq_true]
          exact ⟨hleftop l (List.mem_of_getLast? hl), hrightop r List.mem_cons_self⟩
        rw [hsweep, heq]
        exact .append_left left (.read hsep (.append_left _ (hrest _)))

/-- A sweep that changes nothing has found nothing. -/
theorem noAlternative_of_sweepAlternatives_eq {d : Draft} (h : sweepAlternatives d = d) :
    NoAlternative d := by
  induction d with
  | nil => exact fun before p q after heq => by simp at heq
  | cons p d ih =>
    rcases sweepAlternatives_cons p d with
      ⟨hrule, hsweep⟩ | ⟨left, right, rest, heq, -, -, -, -, hsweep⟩
    · rw [hsweep] at h
      have hd := ih (List.cons.inj h).2
      intro before p' q after heq hop
      cases before with
      | nil =>
        rw [List.nil_append] at heq
        rw [heq] at hrule
        exact alternativeSpan_ne_none hop.1 hop.2 none after hrule
      | cons b before => exact hd before p' q after (List.cons.inj heq).2 hop
    · rw [hsweep, heq] at h
      exact absurd (List.cons.inj (List.append_cancel_left h)).1 (by decide)

/-! ## What the sweeps come to -/

theorem settlesTo_settleAlternatives (d : Draft) :
    SettlesTo sweepAlternatives d (settleAlternatives d) :=
  settlesTo_settle (fun d => d.count (.char '/'))
    (fun d hne => (readsSome_sweepAlternatives none d).eq_or_count_lt.resolve_left hne)
    (Nat.le_refl _)

theorem settleAlternatives_eq (d : Draft) :
    settleAlternatives d = readAlternativesFrom none d := by
  have hkept : readAlternativesFrom none (settleAlternatives d) = readAlternativesFrom none d :=
    settle_of_step (P := fun e => readAlternativesFrom none e = readAlternativesFrom none d)
      (fun e he => (readsSome_sweepAlternatives none e).readAlternativesFrom_eq.trans he) _ rfl
  have hfixed := noAlternative_of_sweepAlternatives_eq (settlesTo_settleAlternatives d).fixed
  exact (readAlternativesFrom_of_noAlternative (b := none) hfixed).symm.trans hkept

/-! ## All slashes in one pass -/

/-- Does the draft end in a backslash that escapes what comes next?  Backslashes are paired from the
left. -/
def escapesNext (d : Draft) : Bool :=
  d.foldl (fun escaped p => !escaped && p == .char '\\') false

/-- What is written for a piece, by the pieces before and after it. -/
def resolveAt (before : Draft) (p : Piece) (after : Draft) : Draft :=
  if p = .char '/' then
    if separates before.getLast? after.head? then Draft.ofChars " or ".toList
    else if escapesNext before then [p] else [.char '\\', p]
  else [p]

/-- What is written for the pieces of a draft behind another one. -/
def resolveFrom : (before : Draft) → Draft → Draft
  | _, [] => []
  | before, p :: d => resolveAt before p d ++ resolveFrom (before ++ [p]) d

/-- The draft with each slash between words or slots reading as `or`, and with a backslash before
each other slash that is not escaped. -/
def resolve (d : Draft) : Draft := resolveFrom [] d

theorem escapesNext_concat (d : Draft) (p : Piece) :
    escapesNext (d ++ [p]) = (!escapesNext d && p == .char '\\') := by
  rw [escapesNext, List.foldl_append]
  rfl

/-- A word or a slot escapes nothing. -/
theorem escapesNext_of_isOperand {d : Draft} (h : d.getLast?.any Piece.isOperand = true) :
    escapesNext d = false := by
  obtain ⟨p, hp, hop⟩ := (Option.any_eq_true _ _).mp h
  obtain ⟨d', rfl⟩ := List.getLast?_eq_some_iff.mp hp
  have hne : (p == .char '\\') = false := beq_eq_false_iff_ne.mpr fun heq => by
    rw [heq] at hop
    exact absurd hop (by decide)
  rw [escapesNext_concat, hne, Bool.and_false]

theorem escapeFrom_readAlternativesFrom (before d : Draft) :
    Text.escapeFrom (.char '\\') (· == .char '/') (escapesNext before)
      (readAlternativesFrom before.getLast? d) = resolveFrom before d := by
  induction d generalizing before with
  | nil => cases escapesNext before <;> rfl
  | cons p d ih =>
    have hrest := ih (before ++ [p])
    rw [List.getLast?_concat, escapesNext_concat] at hrest
    rw [readAlternativesFrom, resolveFrom, resolveAt, ← hrest]
    by_cases hp : p = .char '/'
    · subst hp
      have hslash : (Piece.char '/' == Piece.char '\\') = false := by decide
      rw [if_pos rfl, hslash, Bool.and_false]
      by_cases hsep : separates before.getLast? d.head? = true
      · -- The piece before the slash is no backslash, so nothing is escaped here.
        have hescape := escapesNext_of_isOperand ((Bool.and_eq_true _ _).mp hsep).1
        rw [if_pos ⟨rfl, hsep⟩, if_pos hsep, hescape]
        rfl
      · rw [if_neg fun h => hsep h.2, if_neg hsep]
        cases escapesNext before <;> rfl
    · rw [if_neg fun h => hp h.1, if_neg hp, List.singleton_append]
      cases hescape : escapesNext before with
      | true => rw [Text.escapeFrom]; rfl
      | false =>
        rw [Text.escapeFrom]
        by_cases hback : p = .char '\\'
        · subst hback
          rfl
        · rw [if_neg hback, if_neg (by simpa using hp), beq_eq_false_iff_ne.mpr hback]
          rfl

theorem apply_slashes_eq_resolve (d : Draft) : Pass.slashes.apply d = resolve d := by
  rw [Pass.apply, settleAlternatives_eq]
  exact escapeFrom_readAlternativesFrom [] d

/-- What follows the first piece of an escaped draft is escaped too, with that piece before it only
if it is a backslash. -/
theorem exists_isEscapedFrom_of_cons {special : Piece → Bool} {escaped : Bool} {p : Piece}
    {d : Draft} (h : Text.isEscapedFrom (.char '\\') special escaped (p :: d) = true) :
    ∃ e, Text.isEscapedFrom (.char '\\') special e d = true ∧ (p ≠ .char '\\' → e = false) := by
  cases escaped with
  | true => exact ⟨false, h, fun _ => rfl⟩
  | false =>
    rw [Text.isEscapedFrom] at h
    split at h
    · next hp => exact ⟨true, h, fun hne => absurd hp hne⟩
    · exact ⟨false, ((Bool.and_eq_true _ _).mp h).2, fun _ => rfl⟩

/-- A slash that is escaped stands behind a backslash. -/
theorem noAlternative_of_isEscapedFrom (special : Piece → Bool)
    (hslash : special (.char '/') = true) {escaped : Bool} {d : Draft}
    (h : Text.isEscapedFrom (.char '\\') special escaped d = true) : NoAlternative d := by
  induction d generalizing escaped with
  | nil => exact fun before p q after heq => by simp at heq
  | cons a d ih =>
    intro before p q after heq hop
    obtain ⟨e, hd, he⟩ := exists_isEscapedFrom_of_cons h
    cases before with
    | nil =>
      obtain ⟨rfl, rfl⟩ := List.cons.inj heq
      have ha : a ≠ .char '\\' := fun heq => by
        rw [heq] at hop
        exact absurd hop.1 (by decide)
      rw [he ha, Text.isEscapedFrom, if_neg (by decide), hslash] at hd
      exact absurd hd Bool.false_ne_true
    | cons b before => exact ih hd before p q after (List.cons.inj heq).2 hop

/-- The sweeping ends, and what the pass makes of a draft is told by what stands beside each of its
slashes.  No slash is left between words or slots. -/
theorem slashes_settle_and_resolve (d : Draft) :
    SettlesTo sweepAlternatives d (settleAlternatives d) ∧ Pass.slashes.apply d = resolve d ∧
      NoAlternative (Pass.slashes.apply d) :=
  ⟨settlesTo_settleAlternatives d, apply_slashes_eq_resolve d,
    noAlternative_of_isEscapedFrom (· == .char '/') rfl (Text.isEscaped_escape _)⟩

/-- Each slash of a chain is read, one beside a blank is escaped, and one that is escaped stays. -/
example : Pass.slashes.apply (Draft.ofChars "a/b/c/d or /e \\/f\\\\/g".toList) =
    Draft.ofChars "a or b or c or d or \\/e \\/f\\\\\\/g".toList := by
  decide +kernel

end Expression
end StepStubs
