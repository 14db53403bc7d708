/-
Reading a stub file back.

`readDefinition?` takes one stub off the front of a text: the word of its phase, the body of
the template literal up to the first backtick that is not escaped, the arguments between the
brackets, the comment, and the comment about a data table where the last argument is one.
`readDefinitions` does so up to the end of the text.

A pattern may hold any text, also one that looks like the end of a stub.  The reader of the
literal carries one bit, whether the character is escaped, and each character of a pattern
takes it over an escape as a whole; so it stops at the backtick that the writer put last,
which is `read_encode`.  All else that a stub holds is of a fixed form.
-/
import StepStubs.Proofs.Text.Basic
import StepStubs.Stub.File

namespace StepStubs
namespace Stub

/-! ## The body of a template literal -/

namespace TemplateLiteral

/-- Is the character one that a backslash escapes in a template literal? -/
def isEscaped (c : Char) : Bool := c == '\\' || c == '\x60' || c == '$'

/-- The text up to the first unescaped backtick with its escapes undone, and what follows the
backtick.  `escaped` says that a backslash stands before the text. -/
def readFrom : (escaped : Bool) → Text → Option (Text × Text)
  | _, [] => none
  | true, c :: t =>
    if isEscaped c then (readFrom false t).map fun r => (c :: r.1, r.2) else none
  | false, c :: t =>
    if c = '\x60' then some ([], t)
    else if c = '\\' then readFrom true t
    else (readFrom false t).map fun r => (c :: r.1, r.2)

/-- The text up to the first unescaped backtick with its escapes undone, and what follows the
backtick. -/
def read (t : Text) : Option (Text × Text) := readFrom false t

/-- Reading an encoded text gives the text back, whatever follows its closing backtick. -/
theorem read_encode (t rest : Text) : read (encode t ++ '\x60' :: rest) = some (t, rest) := by
  induction t with
  | nil => rfl
  | cons c t ih =>
    rw [read] at ih ⊢
    rw [encode]
    by_cases h : c = '\\' ∨ c = '\x60' ∨ (c = '$' ∧ startsBrace t = true)
    · have hc : isEscaped c = true := by
        rcases h with rfl | rfl | ⟨rfl, _⟩ <;> decide
      rw [if_pos h, List.cons_append, List.cons_append, readFrom, if_neg (by decide), if_pos rfl,
        readFrom, if_pos hc, ih]
      rfl
    · rw [not_or, not_or] at h
      rw [if_neg (by simp only [not_or]; exact h), List.cons_append, readFrom, if_neg h.2.1,
        if_neg h.1, ih]
      rfl

theorem length_of_readFrom {escaped : Bool} {t body rest : Text}
    (h : readFrom escaped t = some (body, rest)) : rest.length < t.length := by
  induction t generalizing escaped body with
  | nil => cases escaped <;> exact nomatch h
  | cons c t ih =>
    have step : ∀ {b : Text}, (readFrom false t).map (fun r => (c :: r.1, r.2)) = some (b, rest) →
        rest.length < (c :: t).length := by
      intro b hb
      obtain ⟨⟨_, _⟩, hr, he⟩ := Option.map_eq_some_iff.mp hb
      obtain ⟨-, rfl⟩ := Prod.mk.inj he
      exact Nat.lt_succ_of_lt (ih hr)
    cases escaped with
    | true =>
      rw [readFrom] at h
      split at h
      · exact step h
      · exact nomatch h
    | false =>
      rw [readFrom] at h
      split at h
      · obtain ⟨-, rfl⟩ := Prod.mk.inj (Option.some.inj h)
        exact Nat.lt_succ_self _
      · split at h
        · exact Nat.lt_succ_of_lt (ih h)
        · exact step h

end TemplateLiteral

/-! ## Arguments -/

/-- The argument number `n`, for a parameter. -/
def argument (n : Nat) (p : Parameter) : Text :=
  "arg".toList ++ Text.ofNat n ++ ": ".toList ++ p.typeName

theorem argumentsFrom_cons (n : Nat) (p : Parameter) (ps : List Parameter) :
    argumentsFrom n (p :: ps) = argument n p :: argumentsFrom (n + 1) ps := rfl

/-- What stands before the comma that ends the argument number `n`.  A blank follows each
comma. -/
def field (n : Nat) (argument : Text) : Text := if n = 0 then argument else ' ' :: argument

/-- The parameters that the fields of a signature stand for, from the argument number `n` on,
and whether the last is the argument for a data table. -/
def readFields : (n : Nat) → List Text → Option (List Parameter × Bool)
  | _, [] => some ([], false)
  | n, f :: fs =>
    if f = field n tableArgument ∧ fs = [] then some ([], true)
    else do
      let p ← [Parameter.string, .number].find? fun p => field n (argument n p) = f
      let r ← readFields (n + 1) fs
      return (p :: r.1, r.2)

/-- The parameters that a signature stands for, and whether it has an argument for a data
table. -/
def readSignature (t : Text) : Option (List Parameter × Bool) :=
  readFields 0 (if t = [] then [] else t.splitOn ',')

/-- No argument holds a comma or a closing bracket, so the fields of a signature and its end
can be found. -/
theorem not_mem_argument {c : Char} (hc : c.isDigit = false)
    (ha : c ∉ "arg".toList ++ ": ".toList ++ "string".toList ++ "number".toList) (n : Nat)
    (p : Parameter) : c ∉ argument n p := by
  simp only [List.mem_append, not_or] at ha
  have ht : c ∉ p.typeName := by
    cases p
    · exact ha.1.2
    · exact ha.2
  unfold argument
  simp only [List.mem_append, not_or]
  exact ⟨⟨⟨ha.1.1.1, Text.not_mem_ofNat hc n⟩, ha.1.1.2⟩, ht⟩

theorem argument_inj {n : Nat} {p q : Parameter} (h : argument n p = argument n q) : p = q := by
  have ht : p.typeName = q.typeName := List.append_cancel_left h
  cases p <;> cases q
  · rfl
  · exact absurd ht (by decide)
  · exact absurd ht (by decide)
  · rfl

theorem argument_ne_nil (n : Nat) (p : Parameter) : argument n p ≠ [] := by
  unfold argument
  simp

theorem argument_ne_tableArgument (n : Nat) (p : Parameter) : argument n p ≠ tableArgument := by
  intro h
  have hhead : some 'a' = some 'd' := congrArg List.head? h
  exact absurd hhead (by decide)

/-- The arguments of a handler: one for each parameter, and one for the data table. -/
def arguments (n : Nat) (ps : List Parameter) (hasTable : Bool) : List Text :=
  argumentsFrom n ps ++ if hasTable then [tableArgument] else []

theorem forall_mem_arguments {P : Text → Prop} (h : ∀ n p, P (argument n p))
    (ht : P tableArgument) (n : Nat) (ps : List Parameter) (hasTable : Bool) :
    ∀ a ∈ arguments n ps hasTable, P a := by
  induction ps generalizing n with
  | nil =>
    intro a ha
    cases hasTable with
    | false => exact absurd ha List.not_mem_nil
    | true => rw [List.mem_singleton.mp ha]; exact ht
  | cons p ps ih =>
    intro a ha
    rw [arguments, argumentsFrom_cons, List.cons_append] at ha
    rcases List.mem_cons.mp ha with rfl | ha
    · exact h n p
    · exact ih (n + 1) a ha

/-- The fields of a row of arguments, the first of them with the number `n`. -/
def fieldsFrom (n : Nat) : List Text → List Text
  | [] => []
  | a :: as => field n a :: fieldsFrom (n + 1) as

/-- Cutting arguments that were put together at the commas gives their fields. -/
theorem splitOn_join {a : Text} {as : List Text} (h : ∀ b ∈ a :: as, ',' ∉ b) :
    (Text.join ", ".toList (a :: as)).splitOn ',' = a :: as.map (' ' :: ·) := by
  induction as generalizing a with
  | nil =>
    rw [Text.join, List.intercalate_singleton, List.splitOn_eq_singleton (h a List.mem_cons_self)]
    rfl
  | cons b as ih =>
    have hb : ∀ c ∈ b :: as, ',' ∉ c := fun c hc => h c (List.mem_cons_of_mem a hc)
    have hcut : Text.join ", ".toList (a :: b :: as) =
        a ++ ',' :: ' ' :: Text.join ", ".toList (b :: as) := by
      rw [Text.join, List.intercalate_cons_cons, List.append_assoc]
      rfl
    rw [hcut, List.splitOn_append_cons_self_of_not_mem (h a List.mem_cons_self),
      List.splitOn_cons_eq_if_modifyHead, if_neg (by decide), ih hb]
    rfl

theorem fieldsFrom_succ (n : Nat) (as : List Text) :
    fieldsFrom (n + 1) as = as.map (' ' :: ·) := by
  induction as generalizing n with
  | nil => rfl
  | cons a as ih => rw [fieldsFrom, ih, field, if_neg (Nat.succ_ne_zero n), List.map_cons]

theorem field_inj {n : Nat} {a b : Text} (h : field n a = field n b) : a = b := by
  rw [field, field] at h
  split at h
  · exact h
  · exact (List.cons.inj h).2

/-- The field of an argument tells its parameter. -/
theorem find?_argument (n : Nat) (p : Parameter) :
    ([Parameter.string, .number].find? fun q => field n (argument n q) = field n (argument n p)) =
      some p := by
  have hiff : ∀ q, (field n (argument n q) = field n (argument n p)) ↔ q = p := fun q =>
    ⟨fun h => argument_inj (field_inj h), fun h => h ▸ rfl⟩
  simp only [hiff]
  cases p <;> rfl

/-- Reading the fields of the arguments of a handler gives its parameters back. -/
theorem readFields_fieldsFrom (n : Nat) (ps : List Parameter) (hasTable : Bool) :
    readFields n (fieldsFrom n (arguments n ps hasTable)) = some (ps, hasTable) := by
  induction ps generalizing n with
  | nil =>
    cases hasTable with
    | false => rfl
    | true => exact if_pos ⟨rfl, rfl⟩
  | cons p ps ih =>
    rw [arguments, argumentsFrom_cons, List.cons_append, fieldsFrom, ← arguments, readFields,
      if_neg fun h => argument_ne_tableArgument n p (field_inj h.1), find?_argument, ih]
    rfl

theorem join_ne_nil {a : Text} (ha : a ≠ []) (separator : Text) (as : List Text) :
    Text.join separator (a :: as) ≠ [] := by
  cases as with
  | nil => rwa [Text.join, List.intercalate_singleton]
  | cons b as =>
    rw [Text.join, List.intercalate_cons_cons, List.append_assoc]
    exact fun h => ha (List.append_eq_nil_iff.mp h).1

theorem readSignature_signature (ps : List Parameter) (hasTable : Bool) :
    readSignature (signature ps hasTable) = some (ps, hasTable) := by
  have hcomma : ∀ a ∈ arguments 0 ps hasTable, ',' ∉ a :=
    forall_mem_arguments (fun n p => not_mem_argument (by decide) (by decide) n p) (by decide) _ _ _
  have hne : ∀ a ∈ arguments 0 ps hasTable, a ≠ [] :=
    forall_mem_arguments (fun n p => argument_ne_nil n p) (by decide) _ _ _
  rw [readSignature, ← readFields_fieldsFrom 0 ps hasTable, signature, ← arguments]
  cases has : arguments 0 ps hasTable with
  | nil => rfl
  | cons a as =>
    rw [has] at hcomma hne
    rw [if_neg (join_ne_nil (hne a List.mem_cons_self) _ as), splitOn_join hcomma, fieldsFrom,
      fieldsFrom_succ]
    rfl

/-- A signature ends where its closing bracket stands. -/
theorem not_mem_signature (ps : List Parameter) (hasTable : Bool) :
    ')' ∉ signature ps hasTable := by
  have hbracket : ∀ a ∈ arguments 0 ps hasTable, ')' ∉ a :=
    forall_mem_arguments (fun n p => not_mem_argument (by decide) (by decide) n p) (by decide) _ _ _
  have hjoin : ∀ as : List Text, (∀ a ∈ as, ')' ∉ a) → ')' ∉ Text.join ", ".toList as := by
    intro as
    induction as with
    | nil => exact fun _ => List.not_mem_nil
    | cons a as ih =>
      intro h
      have htail := ih fun b hb => h b (List.mem_cons_of_mem a hb)
      cases as with
      | nil =>
        rw [Text.join, List.intercalate_singleton]
        exact h a List.mem_cons_self
      | cons b as =>
        rw [Text.join, List.intercalate_cons_cons, ← Text.join, List.mem_append, List.mem_append]
        rintro ((hm | hm) | hm)
        · exact h a List.mem_cons_self hm
        · exact absurd hm (by decide)
        · exact htail hm
  exact hjoin _ hbracket

/-! ## Stubs -/

structure Entry where
  phase : Phase
  pattern : Text
  parameters : List Parameter
  hasTable : Bool
  deriving Repr, DecidableEq

namespace Entry

def ofStep (s : CompiledStep) : Entry := ⟨s.phase, s.pattern, s.parameters, s.hasTable⟩

def key (e : Entry) : StepKey := ⟨e.phase, e.pattern⟩

end Entry

/-- The phase whose word stands before the first backtick, with an opening bracket, and what
follows the backtick. -/
def readPhase? (t : Text) : Option (Phase × Text) := do
  let p ← Phase.all.find? fun p => p.word ++ ['('] = t.takeWhile (· ≠ '\x60')
  return (p, (t.dropWhile (· ≠ '\x60')).drop 1)

/-- What stands in a stub between its signature and its comment about a data table. -/
def bodyStart (p : Phase) : Text := ") => \x7b\n    // ".toList ++ p.comment ++ "\n".toList

def tablePart (hasTable : Bool) : Text := if hasTable then tableComment else []

/-- What the stub at the front of a text says, and what follows the stub. -/
def readDefinition? (t : Text) : Option (Entry × Text) := do
  let (phase, t) ← readPhase? t
  let (pattern, t) ← TemplateLiteral.read t
  let t ← Text.afterStart? ", (".toList t
  let (parameters, hasTable) ← readSignature (t.takeWhile (· ≠ ')'))
  let t ← Text.afterStart? (bodyStart phase) (t.dropWhile (· ≠ ')'))
  let t ← Text.afterStart? (tablePart hasTable) t
  let t ← Text.afterStart? "\x7d);\n".toList t
  return (⟨phase, pattern, parameters, hasTable⟩, t)

theorem takeWhile_append_cons {u t : Text} {c : Char} (h : c ∉ u) :
    (u ++ c :: t).takeWhile (· ≠ c) = u ∧ (u ++ c :: t).dropWhile (· ≠ c) = c :: t := by
  have hu : ∀ d ∈ u, decide (d ≠ c) = true := by
    intro d hd
    exact decide_eq_true fun e => h (e ▸ hd)
  rw [List.takeWhile_append_of_pos hu, List.dropWhile_append_of_pos hu,
    List.takeWhile_cons_of_neg (by simp), List.dropWhile_cons_of_neg (by simp), List.append_nil]
  exact ⟨rfl, rfl⟩

theorem readPhase?_word (p : Phase) (t : Text) :
    readPhase? (p.word ++ "(\x60".toList ++ t) = some (p, t) := by
  have hword : '\x60' ∉ p.word ++ ['('] := by cases p <;> decide
  have hsplit : p.word ++ "(\x60".toList ++ t = (p.word ++ ['(']) ++ '\x60' :: t := by
    rw [List.append_assoc, List.append_assoc]
    rfl
  have hfind : (Phase.all.find? fun q => q.word ++ ['('] = p.word ++ ['(']) = some p := by
    cases p <;> decide
  rw [hsplit, readPhase?, (takeWhile_append_cons hword).1, (takeWhile_append_cons hword).2, hfind]
  rfl

/-- The end of a stub, from the bracket that closes its signature on. -/
def definitionEnd (s : CompiledStep) : Text :=
  bodyStart s.phase ++ (tablePart s.hasTable ++ "\x7d);\n".toList)

theorem definition_append (s : CompiledStep) (t : Text) :
    definition s ++ t =
      s.phase.word ++ "(\x60".toList ++ (TemplateLiteral.encode s.pattern ++ '\x60' ::
        (", (".toList ++ (signature s.parameters s.hasTable ++ (definitionEnd s ++ t)))) := by
  have hopen : "\x60, (".toList = '\x60' :: ", (".toList := by decide
  unfold definition definitionEnd bodyStart tablePart
  rw [hopen]
  simp only [List.append_assoc, List.cons_append]

theorem exists_definitionEnd_eq_cons (s : CompiledStep) (t : Text) :
    ∃ rest, definitionEnd s ++ t = ')' :: rest := by
  have hclose : ") => \x7b\n    // ".toList = ')' :: " => \x7b\n    // ".toList := by decide
  unfold definitionEnd bodyStart
  rw [hclose, List.cons_append, List.cons_append]
  exact ⟨_, rfl⟩

/-- Reading the stub of a step tells what the stub was to say, whatever follows the stub. -/
theorem readDefinition?_definition (s : CompiledStep) (t : Text) :
    readDefinition? (definition s ++ t) = some (Entry.ofStep s, t) := by
  obtain ⟨rest, hrest⟩ := exists_definitionEnd_eq_cons s t
  have hsig := takeWhile_append_cons (not_mem_signature s.parameters s.hasTable) (t := rest)
  rw [← hrest] at hsig
  have hend : Text.afterStart? (bodyStart s.phase) (definitionEnd s ++ t) =
      some (tablePart s.hasTable ++ ("\x7d);\n".toList ++ t)) := by
    rw [definitionEnd, List.append_assoc, Text.afterStart?_append, List.append_assoc]
  rw [definition_append, readDefinition?, readPhase?_word]
  simp only [Option.bind_eq_bind, Option.bind_some, TemplateLiteral.read_encode,
    Text.afterStart?_append, hsig.1, hsig.2, readSignature_signature, hend]
  rfl

/-! ## Whole files -/

theorem length_of_afterStart? {start t rest : Text} (h : Text.afterStart? start t = some rest) :
    rest.length ≤ t.length := by
  rw [Text.eq_append_of_afterStart? h, List.length_append]
  exact Nat.le_add_left _ _

theorem length_of_readPhase? {t rest : Text} {p : Phase} (h : readPhase? t = some (p, rest)) :
    rest.length ≤ t.length := by
  obtain ⟨q, -, hq⟩ := Option.bind_eq_some_iff.mp h
  obtain ⟨-, rfl⟩ := Prod.mk.inj (Option.some.inj hq)
  rw [List.length_drop]
  exact Nat.le_trans (Nat.sub_le _ _) (List.dropWhile_sublist _).length_le

theorem length_of_readDefinition? {t rest : Text} {e : Entry}
    (h : readDefinition? t = some (e, rest)) : rest.length < t.length := by
  obtain ⟨⟨p, t₁⟩, h₁, h⟩ := Option.bind_eq_some_iff.mp h
  obtain ⟨⟨body, t₂⟩, h₂, h⟩ := Option.bind_eq_some_iff.mp h
  obtain ⟨t₃, h₃, h⟩ := Option.bind_eq_some_iff.mp h
  obtain ⟨⟨ps, hasTable⟩, -, h⟩ := Option.bind_eq_some_iff.mp h
  obtain ⟨t₄, h₄, h⟩ := Option.bind_eq_some_iff.mp h
  obtain ⟨t₅, h₅, h⟩ := Option.bind_eq_some_iff.mp h
  obtain ⟨t₆, h₆, h⟩ := Option.bind_eq_some_iff.mp h
  obtain ⟨-, rfl⟩ := Prod.mk.inj (Option.some.inj h)
  have hsig : (t₃.dropWhile (· ≠ ')')).length ≤ t₃.length := (List.dropWhile_sublist _).length_le
  have l₁ := length_of_readPhase? h₁
  have l₂ := TemplateLiteral.length_of_readFrom h₂
  have l₃ := length_of_afterStart? h₃
  have l₄ := length_of_afterStart? h₄
  have l₅ := length_of_afterStart? h₅
  have l₆ := length_of_afterStart? h₆
  omega

/-- What the stubs of a text say, up to the end of the text.  An empty line follows each. -/
def readDefinitions (t : Text) : Option (List Entry) :=
  if t = [] then some []
  else
    match _h : readDefinition? t with
    | some (e, '\n' :: rest) => (readDefinitions rest).map (e :: ·)
    | _ => none
termination_by t.length
decreasing_by exact Nat.lt_of_succ_lt (length_of_readDefinition? _h)

theorem readDefinitions_of_readDefinition? {t rest : Text} {e : Entry}
    (h : readDefinition? t = some (e, '\n' :: rest)) :
    readDefinitions t = (readDefinitions rest).map (e :: ·) := by
  have hne : t ≠ [] := by
    rintro rfl
    exact nomatch h
  rw [readDefinitions, if_neg hne]
  split
  · next e' rest' h' =>
    obtain ⟨rfl, hrest⟩ := Prod.mk.inj (Option.some.inj (h'.symm.trans h))
    rw [(List.cons.inj hrest).2]
  · next hno => exact absurd h (hno e rest)

/-- Reading the stubs of a row of steps tells what each stub was to say, in order. -/
theorem readDefinitions_flatMap (ss : List CompiledStep) :
    readDefinitions (ss.flatMap fun s => definition s ++ "\n".toList) =
      some (ss.map Entry.ofStep) := by
  induction ss with
  | nil => rw [List.flatMap_nil, readDefinitions, if_pos rfl, List.map_nil]
  | cons s ss ih =>
    have hcons := readDefinitions_of_readDefinition? (readDefinition?_definition s
      ('\n' :: ss.flatMap fun s => definition s ++ "\n".toList))
    rw [ih] at hcons
    rw [List.flatMap_cons, List.append_assoc]
    exact hcons

end Stub
end StepStubs
