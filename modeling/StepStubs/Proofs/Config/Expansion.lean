/-
How references are replaced.

A text with references is read once, from left to right.  Where a reference is written it is read
and the reading goes on behind it, and elsewhere one character is read and stays.  `Reads` says this
without the rule that finds references or the lengths by which they are cut out, and each text can
be read in one way only.

`expand_one_pass` says what comes out by that reading.  Its parts are put in place one after the
other, and values and defaults are copied as they are.  A text that cannot be expanded has a
reference to a variable that is not set, with no default, and the first of these is reported.
-/
import StepStubs.Config.Reference
import StepStubs.Proofs.Text.Numeral
import StepStubs.Proofs.Text.Segments

namespace StepStubs
namespace Config

namespace Reference

variable {t rest rest' : Text} {r r' : Reference}

/-! ## Reading a reference -/

/-- What is written behind the name. -/
def ending (r : Reference) : Text :=
  match r.fallback with
  | none => ['\x7d']
  | some d => ':' :: '-' :: (d ++ ['\x7d'])

/-- What is written behind the opening brace. -/
def body (r : Reference) : Text := r.name ++ r.ending

/-- The reference as it is written. -/
def text (r : Reference) : Text := '$' :: '\x7b' :: r.body

/-- Can the reference be written? -/
structure IsValid (r : Reference) : Prop where
  nonempty : r.name ≠ []
  unclosed : '\x7d' ∉ r.name
  undivided : ':' ∉ r.name
  fallback : ∀ d, r.fallback = some d → '\x7d' ∉ d

theorem forall_isNameChar_iff {u : Text} :
    (∀ c ∈ u, isNameChar c = true) ↔ '\x7d' ∉ u ∧ ':' ∉ u := by
  simp only [isNameChar, Bool.and_eq_true, decide_eq_true_eq, ne_eq]
  constructor
  · exact fun h => ⟨fun hmem => (h _ hmem).1 rfl, fun hmem => (h _ hmem).2 rfl⟩
  · rintro ⟨hclose, hcolon⟩ c hc
    exact ⟨fun he => hclose (he ▸ hc), fun he => hcolon (he ▸ hc)⟩

theorem forall_isFallbackChar_iff {u : Text} :
    (∀ c ∈ u, isFallbackChar c = true) ↔ '\x7d' ∉ u := by
  simp only [isFallbackChar, decide_eq_true_eq, ne_eq]
  constructor
  · exact fun h hmem => h _ hmem rfl
  · exact fun h c hc he => h (he ▸ hc)

theorem IsValid.ofBody?_append (hr : r.IsValid) (rest : Text) :
    ofBody? (r.body ++ rest) = some (r, r.body.length) := by
  obtain ⟨name, fallback⟩ := r
  have hname : ∀ c ∈ name, isNameChar c = true :=
    forall_isNameChar_iff.mpr ⟨hr.unclosed, hr.undivided⟩
  have hne : name ≠ [] := hr.nonempty
  cases fallback with
  | none =>
    have hspan : List.span isNameChar (name ++ '\x7d' :: rest) = (name, '\x7d' :: rest) :=
      Text.span_eq_iff.mpr ⟨rfl, hname, rfl⟩
    have hbody : body ⟨name, none⟩ ++ rest = name ++ '\x7d' :: rest :=
      List.append_assoc name ['\x7d'] rest
    rw [hbody, ofBody?, hspan]
    simp only [if_neg hne, body, ending, List.length_append, List.length_singleton]
  | some d =>
    have hd : ∀ c ∈ d, isFallbackChar c = true :=
      forall_isFallbackChar_iff.mpr (hr.fallback d rfl)
    have hspan : List.span isNameChar (name ++ ':' :: '-' :: (d ++ '\x7d' :: rest)) =
        (name, ':' :: '-' :: (d ++ '\x7d' :: rest)) :=
      Text.span_eq_iff.mpr ⟨rfl, hname, rfl⟩
    have hspan' : List.span isFallbackChar (d ++ '\x7d' :: rest) = (d, '\x7d' :: rest) :=
      Text.span_eq_iff.mpr ⟨rfl, hd, rfl⟩
    have hbody : body ⟨name, some d⟩ ++ rest = name ++ ':' :: '-' :: (d ++ '\x7d' :: rest) := by
      simp only [body, ending, List.append_assoc, List.cons_append, List.nil_append]
    rw [hbody, ofBody?, hspan]
    simp only [if_neg hne, hspan', body, ending, List.length_append, List.length_cons,
      List.length_nil, Option.some.injEq, Prod.mk.injEq, true_and]
    omega

theorem isValid_of_ofBody? {k : Nat} (h : ofBody? t = some (r, k)) :
    r.IsValid ∧ ∃ rest, t = r.body ++ rest := by
  rw [ofBody?] at h
  rcases hspan : List.span isNameChar t with ⟨name, behind⟩
  obtain ⟨rfl, hname, -⟩ := Text.span_eq_iff.mp hspan
  obtain ⟨hclose, hcolon⟩ := forall_isNameChar_iff.mp hname
  simp only [hspan] at h
  split at h
  · exact nomatch h
  next hne =>
  split at h
  · next rest =>
    obtain ⟨rfl, -⟩ := Prod.mk.inj (Option.some.inj h)
    exact ⟨⟨hne, hclose, hcolon, nofun⟩, rest, (List.append_assoc name ['\x7d'] rest).symm⟩
  · next more =>
    rcases hspan' : List.span isFallbackChar more with ⟨d, after⟩
    obtain ⟨rfl, hd, -⟩ := Text.span_eq_iff.mp hspan'
    simp only [hspan'] at h
    split at h
    · next rest =>
      obtain ⟨rfl, -⟩ := Prod.mk.inj (Option.some.inj h)
      refine ⟨⟨hne, hclose, hcolon, fun d' hd' => ?_⟩, rest, ?_⟩
      · rw [← Option.some.inj hd']
        exact forall_isFallbackChar_iff.mp hd
      · simp only [body, ending, List.append_assoc, List.cons_append, List.nil_append]
    · exact nomatch h
  · exact nomatch h

theorem IsValid.ofText?_append (hr : r.IsValid) (rest : Text) :
    ofText? (r.text ++ rest) = some (r, r.text.length) := by
  show (ofBody? (r.body ++ rest)).map _ = _
  rw [hr.ofBody?_append]
  rfl

theorem IsValid.ofText?_text (hr : r.IsValid) : ofText? r.text = some (r, r.text.length) := by
  have hread := hr.ofText?_append []
  rwa [List.append_nil] at hread

theorem isValid_of_ofText? {k : Nat} (h : ofText? t = some (r, k)) :
    r.IsValid ∧ ∃ rest, t = r.text ++ rest := by
  unfold ofText? at h
  split at h
  · next body =>
    obtain ⟨⟨r', k'⟩, hbody, hfound⟩ := Option.map_eq_some_iff.mp h
    obtain ⟨rfl, -⟩ := Prod.mk.inj hfound
    obtain ⟨hr, rest, rfl⟩ := isValid_of_ofBody? hbody
    exact ⟨hr, rest, rfl⟩
  · exact nomatch h

/-- What is written tells the reference and where it ends. -/
theorem IsValid.eq_of_text_append_eq (hr : r.IsValid) (hr' : r'.IsValid)
    (h : r.text ++ rest = r'.text ++ rest') : r = r' ∧ rest = rest' := by
  have hread := hr.ofText?_append rest
  rw [h, hr'.ofText?_append] at hread
  obtain ⟨rfl, -⟩ := Prod.mk.inj (Option.some.inj hread)
  exact ⟨rfl, List.append_cancel_left h⟩

/-- Is neither the variable set nor a default given? -/
def Lacks (env : Environment) (r : Reference) : Prop :=
  env.get? r.name = none ∧ r.fallback = none

theorem value_of_lacks {env : Environment} (h : r.Lacks env) : r.value env = .error r.name := by
  rw [value, h.1, h.2]

theorem value_of_not_lacks {env : Environment} (h : ¬ r.Lacks env) :
    r.value env = .ok ((env.get? r.name).getD (r.fallback.getD [])) := by
  rw [value]
  cases hget : env.get? r.name with
  | some v => rfl
  | none =>
    cases hfallback : r.fallback with
    | some d => rfl
    | none => exact absurd ⟨hget, hfallback⟩ h

end Reference

/-! ## Reading a text -/

/-- A part of a text: a character that stays, or a reference. -/
inductive Part where
  | kept (c : Char)
  | reference (r : Reference) (h : r.IsValid)

/-- Is a reference written at the front of the text? -/
def StartsReference (t : Text) : Prop := ∃ r : Reference, r.IsValid ∧ ∃ rest, t = r.text ++ rest

/-- Are these the parts of the text, from left to right? -/
inductive Reads : Text → List Part → Prop where
  | nil : Reads [] []
  | keep {c : Char} {t : Text} {ps : List Part} (h : ¬ StartsReference (c :: t))
    (rest : Reads t ps) : Reads (c :: t) (.kept c :: ps)
  | reference {r : Reference} {t : Text} {ps : List Part} (h : r.IsValid) (rest : Reads t ps) :
    Reads (r.text ++ t) (.reference r h :: ps)

section Reading

variable {t : Text} {ps ps' : List Part}

theorem startsReference_iff : StartsReference t ↔ ∃ found, Reference.ofText? t = some found := by
  constructor
  · rintro ⟨r, hr, rest, rfl⟩
    exact ⟨_, hr.ofText?_append rest⟩
  · rintro ⟨⟨r, k⟩, hfound⟩
    exact ⟨r, Reference.isValid_of_ofText? hfound⟩

/-- Each text can be read. -/
theorem exists_reads (t : Text) : ∃ ps, Reads t ps := by
  -- The reading goes on behind a reference, so the induction is on the length.
  generalize hn : t.length = n
  induction n using Nat.strongRecOn generalizing t with
  | _ n ih =>
    by_cases hstart : StartsReference t
    · obtain ⟨r, hr, rest, rfl⟩ := hstart
      have hlength : rest.length < n := by
        rw [← hn, List.length_append, Reference.text, List.length_cons]
        omega
      obtain ⟨ps, hps⟩ := ih _ hlength rest rfl
      exact ⟨_, .reference hr hps⟩
    · cases t with
      | nil => exact ⟨[], .nil⟩
      | cons c t =>
        rw [List.length_cons] at hn
        obtain ⟨ps, hps⟩ := ih t.length (by omega) t rfl
        exact ⟨_, .keep hstart hps⟩

/-- A text is read in one way only. -/
theorem Reads.unique (h : Reads t ps) (h' : Reads t ps') : ps = ps' := by
  induction h generalizing ps' with
  | nil =>
    cases h' with
    | nil => rfl
  | @keep c t ps hnot rest ih =>
    generalize hu : c :: t = u at h'
    cases h' with
    | nil => exact nomatch hu
    | keep _ rest' =>
      obtain ⟨rfl, rfl⟩ := List.cons.inj hu
      rw [ih rest']
    | reference hr rest' => exact absurd ⟨_, hr, _, hu⟩ hnot
  | @reference r t ps hr rest ih =>
    generalize hu : r.text ++ t = u at h'
    cases h' with
    | nil => exact nomatch hu
    | keep hnot rest' => exact absurd ⟨r, hr, t, hu.symm⟩ hnot
    | reference hr' rest' =>
      obtain ⟨rfl, rfl⟩ := hr.eq_of_text_append_eq hr' hu
      rw [ih rest']

/-- The segment that a part is. -/
def Part.segment : Part → Text.Segment Char
  | .kept c => .kept c
  | .reference r _ => .span r.text

theorem segments_keep {c : Char} (h : ¬ StartsReference (c :: t)) :
    Text.segments Reference.rule (c :: t) = .kept c :: Text.segments Reference.rule t := by
  have hnone : Reference.rule none (c :: t) = none := by
    rw [Reference.rule, Option.eq_none_iff_forall_ne_some.mpr fun found hfound =>
      h (startsReference_iff.mpr ⟨found, hfound⟩)]
    rfl
  rw [Text.segments, Text.segmentsFrom_kept hnone,
    Text.segmentsFrom_eq_segments fun _ _ _ => rfl]

theorem segments_reference {r : Reference} (hr : r.IsValid) (t : Text) :
    Text.segments Reference.rule (r.text ++ t) =
      .span r.text :: Text.segments Reference.rule t := by
  have hspan : Reference.rule none ('$' :: (('\x7b' :: r.body) ++ t)) =
      some ('\x7b' :: r.body).length := by
    show (Reference.ofText? (r.text ++ t)).map _ = _
    rw [hr.ofText?_append]
    rfl
  exact (Text.segmentsFrom_span hspan).trans
    (congrArg _ (Text.segmentsFrom_eq_segments (fun _ _ _ => rfl) _ t))

/-- Cutting a text into segments is reading it. -/
theorem Reads.segments_eq (h : Reads t ps) :
    Text.segments Reference.rule t = ps.map Part.segment := by
  induction h with
  | nil => rfl
  | keep hnot _ ih =>
    rw [segments_keep hnot, ih]
    rfl
  | reference hr _ ih =>
    rw [segments_reference hr, ih]
    rfl

/-- The reference that a part is, if it is one. -/
def Part.reference? : Part → Option Reference
  | .kept _ => none
  | .reference r _ => some r

theorem Reads.references_eq (h : Reads t ps) : references t = ps.filterMap Part.reference? := by
  rw [references, h.segments_eq, List.filterMap_map]
  congr 1
  funext p
  cases p with
  | kept c => rfl
  | reference r hr =>
    simp only [Function.comp_apply, Part.segment, Part.reference?, hr.ofText?_text, Option.map_some]

end Reading

/-! ## Replacing -/

section Replacing

variable {env env' : Environment} {t : Text} {ps before after : List Part} {p : Part}

/-- Is the part a reference that nothing can be put in place of? -/
def Part.Lacks (env : Environment) : Part → Prop
  | .kept _ => False
  | .reference r _ => r.Lacks env

/-- What comes in the place of a part: a character stays, and a reference becomes the value of the
variable, or its default if there is none. -/
def Part.replaced (env : Environment) : Part → Text
  | .kept c => [c]
  | .reference r _ => (env.get? r.name).getD (r.fallback.getD [])

theorem expandSegment_reference {r : Reference} (hr : r.IsValid) (env : Environment) :
    expandSegment env (.span r.text) = r.value env := by
  rw [expandSegment, hr.ofText?_text]

theorem Part.expandSegment_of_not_lacks (h : ¬ p.Lacks env) :
    expandSegment env p.segment = .ok (p.replaced env) := by
  cases p with
  | kept c => rfl
  | reference r hr => exact (expandSegment_reference hr env).trans (Reference.value_of_not_lacks h)

theorem mapM_expandSegment (h : ∀ p ∈ before, ¬ p.Lacks env) (ss : List (Text.Segment Char)) :
    (before.map Part.segment ++ ss).mapM (expandSegment env) =
      (ss.mapM (expandSegment env)).map (before.map (Part.replaced env) ++ ·) := by
  induction before with
  | nil =>
    rw [List.map_nil, List.nil_append]
    cases ss.mapM (expandSegment env) <;> rfl
  | cons p before ih =>
    rw [List.map_cons, List.cons_append, List.mapM_cons,
      Part.expandSegment_of_not_lacks (h p List.mem_cons_self),
      ih fun q hq => h q (List.mem_cons_of_mem p hq)]
    cases ss.mapM (expandSegment env) <;> rfl

theorem Reads.expand_eq_ok (h : Reads t ps) (hset : ∀ p ∈ ps, ¬ p.Lacks env) :
    expand env t = .ok (ps.flatMap (Part.replaced env)) := by
  have hall : (ps.map Part.segment).mapM (expandSegment env) =
      .ok (ps.map (Part.replaced env)) := by
    have hmap := mapM_expandSegment hset []
    rw [List.append_nil, List.mapM_nil] at hmap
    exact hmap.trans (congrArg Except.ok (List.append_nil _))
  rw [expand, h.segments_eq, hall, List.flatMap_def]
  rfl

theorem Reads.expand_eq_error {r : Reference} {hr : r.IsValid}
    (h : Reads t (before ++ .reference r hr :: after)) (hbefore : ∀ p ∈ before, ¬ p.Lacks env)
    (hlacks : r.Lacks env) : expand env t = .error r.name := by
  have hfirst : (Part.segment (.reference r hr) :: after.map Part.segment).mapM
      (expandSegment env) = .error r.name := by
    rw [List.mapM_cons, Part.segment, expandSegment_reference hr, Reference.value_of_lacks hlacks]
    rfl
  rw [expand, h.segments_eq, List.map_append, List.map_cons, mapM_expandSegment hbefore, hfirst]
  rfl

/-- Is this the first reference that nothing can be put in place of? -/
def IsFirstLacking (env : Environment) (ps : List Part) (r : Reference) : Prop :=
  ∃ before hr after, ps = before ++ .reference r hr :: after ∧
    (∀ p ∈ before, ¬ p.Lacks env) ∧ r.Lacks env

theorem exists_isFirstLacking (h : ∃ p ∈ ps, p.Lacks env) : ∃ r, IsFirstLacking env ps r := by
  classical
  obtain ⟨p, hp, hlacks⟩ := h
  have hfound : (ps.find? fun p => p.Lacks env).isSome = true :=
    List.find?_isSome.mpr ⟨p, hp, decide_eq_true hlacks⟩
  obtain ⟨q, hq⟩ := Option.isSome_iff_exists.mp hfound
  obtain ⟨hlacks, before, after, rfl, hbefore⟩ := List.find?_eq_some_iff_append.mp hq
  cases q with
  | kept c => exact (of_decide_eq_true hlacks).elim
  | reference r hr =>
    refine ⟨r, before, hr, after, rfl, fun p hp => ?_, of_decide_eq_true hlacks⟩
    simpa using hbefore p hp

theorem Reads.expand_eq_error_iff (h : Reads t ps) (name : Text) :
    expand env t = .error name ↔ ∃ r, IsFirstLacking env ps r ∧ r.name = name := by
  constructor
  · intro herror
    by_cases hlacks : ∃ p ∈ ps, p.Lacks env
    · obtain ⟨r, before, hr, after, rfl, hbefore, hr'⟩ := exists_isFirstLacking hlacks
      rw [h.expand_eq_error hbefore hr'] at herror
      exact ⟨r, ⟨before, hr, after, rfl, hbefore, hr'⟩, Except.error.inj herror⟩
    · rw [h.expand_eq_ok fun p hp hp' => hlacks ⟨p, hp, hp'⟩] at herror
      exact nomatch herror
  · rintro ⟨r, ⟨before, hr, after, rfl, hbefore, hr'⟩, rfl⟩
    exact h.expand_eq_error hbefore hr'

theorem Reads.expand_eq_ok_iff (h : Reads t ps) (u : Text) :
    expand env t = .ok u ↔ (∀ p ∈ ps, ¬ p.Lacks env) ∧ u = ps.flatMap (Part.replaced env) := by
  constructor
  · intro hok
    have hset : ∀ p ∈ ps, ¬ p.Lacks env := by
      intro p hp hlacks
      obtain ⟨r, hfirst⟩ := exists_isFirstLacking ⟨p, hp, hlacks⟩
      rw [(h.expand_eq_error_iff r.name).mpr ⟨r, hfirst, rfl⟩] at hok
      exact nomatch hok
    rw [h.expand_eq_ok hset] at hok
    exact ⟨hset, (Except.ok.inj hok).symm⟩
  · rintro ⟨hset, rfl⟩
    exact h.expand_eq_ok hset

/-- A variable that no reference names has no part in the result. -/
theorem Reads.expand_congr (h : Reads t ps)
    (hsame : ∀ r ∈ references t, env'.get? r.name = env.get? r.name) :
    expand env' t = expand env t := by
  have hpart : ∀ p ∈ ps, (p.Lacks env' ↔ p.Lacks env) ∧ p.replaced env' = p.replaced env := by
    intro p hp
    cases p with
    | kept c => exact ⟨Iff.rfl, rfl⟩
    | reference r hr =>
      have hr' : r ∈ references t := by
        rw [h.references_eq]
        exact List.mem_filterMap.mpr ⟨_, hp, rfl⟩
      simp only [Part.Lacks, Reference.Lacks, Part.replaced, hsame r hr', and_self]
  rcases hexpand : expand env t with name | u
  · obtain ⟨r, ⟨before, hr, after, rfl, hbefore, hlacks⟩, hname⟩ :=
      (h.expand_eq_error_iff name).mp hexpand
    refine (h.expand_eq_error_iff name).mpr ⟨r, ⟨before, hr, after, rfl, fun p hp => ?_, ?_⟩, hname⟩
    · rw [(hpart p (List.mem_append_left _ hp)).1]
      exact hbefore p hp
    · exact (hpart (.reference r hr) (List.mem_append_right _ List.mem_cons_self)).1.mpr hlacks
  · obtain ⟨hset, rfl⟩ := (h.expand_eq_ok_iff u).mp hexpand
    refine (h.expand_eq_ok_iff _).mpr ⟨fun p hp => ?_, ?_⟩
    · rw [(hpart p hp).1]
      exact hset p hp
    · rw [List.flatMap_def, List.flatMap_def, List.map_congr_left fun p hp => (hpart p hp).2]

/-- A text has one reading, and expanding it follows that reading.  It fails if and only if some
reference has neither a value nor a default, with the name in the first of these; else each
reference is replaced and every other character stays.  So only the variables that the references
name have to be known. -/
theorem expand_one_pass (t : Text) :
    ∃ ps, Reads t ps ∧ (∀ ps', Reads t ps' → ps' = ps) ∧
      references t = ps.filterMap Part.reference? ∧ ∀ env : Environment,
      ((∃ name, expand env t = .error name) ↔ ∃ p ∈ ps, p.Lacks env) ∧
      (∀ name, expand env t = .error name ↔ ∃ r, IsFirstLacking env ps r ∧ r.name = name) ∧
      (∀ u, expand env t = .ok u ↔
        (∀ p ∈ ps, ¬ p.Lacks env) ∧ u = ps.flatMap (Part.replaced env)) ∧
      ∀ env' : Environment,
        (∀ r ∈ references t, env'.get? r.name = env.get? r.name) →
          expand env' t = expand env t := by
  obtain ⟨ps, hps⟩ := exists_reads t
  refine ⟨ps, hps, fun ps' hps' => hps'.unique hps, hps.references_eq, fun env =>
    ⟨?_, hps.expand_eq_error_iff, hps.expand_eq_ok_iff, fun env' => hps.expand_congr⟩⟩
  constructor
  · rintro ⟨name, hname⟩
    obtain ⟨r, ⟨before, hr, after, rfl, -, hlacks⟩, -⟩ := (hps.expand_eq_error_iff name).mp hname
    exact ⟨.reference r hr, List.mem_append_right _ List.mem_cons_self, hlacks⟩
  · intro hlacks
    obtain ⟨r, hfirst⟩ := exists_isFirstLacking hlacks
    exact ⟨r.name, (hps.expand_eq_error_iff r.name).mpr ⟨r, hfirst, rfl⟩⟩

/-- A value that is written like a reference stays, and so does what only begins like one. -/
example : expand ⟨[(['A'], "$\x7bB\x7d".toList)]⟩ "$\x7bA\x7d $\x7bB:-x\x7d $\x7bC:y\x7d".toList =
    .ok "$\x7bB\x7d x $\x7bC:y\x7d".toList := by
  rfl

end Replacing

end Config
end StepStubs
