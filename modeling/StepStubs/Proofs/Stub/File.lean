/-
What a stub file says.

The stubs of a file are those of the first step with each key, phase by phase, and each can
be read back, so the file says of every key what its first step says.  The numbers in the
header can be read back as well, since no digit follows them.  Two sets of steps therefore
have the same stub file only if they agree on all that a stub says, in the same order.

A key does not tell whether its steps have data tables.  Where two steps share a key and
only one has a table, the stub is right for those that agree with the first.
-/
import StepStubs.Proofs.Expression.Legal
import StepStubs.Proofs.Step.Set
import StepStubs.Proofs.Stub.Reader
import Mathlib.Data.List.Nodup

namespace StepStubs
namespace Stub

/-! ## The order of the stubs -/

/-- The keys of the steps, each once, in the order of their stubs. -/
def keysInFileOrder (ts : List CompiledStep) : List StepKey :=
  Phase.all.flatMap fun p => (distinctKeys ts).filter fun k => k.phase = p

theorem mem_keysInFileOrder {k : StepKey} {ts : List CompiledStep} :
    k ∈ keysInFileOrder ts ↔ k ∈ distinctKeys ts := by
  rw [keysInFileOrder, List.mem_flatMap]
  constructor
  · rintro ⟨_, -, h⟩
    exact (List.mem_filter.mp h).1
  · intro h
    have hall : k.phase ∈ Phase.all := by cases k.phase <;> decide
    exact ⟨k.phase, hall, List.mem_filter.mpr ⟨h, decide_eq_true rfl⟩⟩

theorem nodup_keysInFileOrder (ts : List CompiledStep) : (keysInFileOrder ts).Nodup := by
  rw [keysInFileOrder, List.nodup_flatMap]
  refine ⟨fun p _ => (nodup_distinctKeys ts).filter _, ?_⟩
  have hphases : Phase.all.Nodup := by decide
  refine hphases.imp fun {p q} hpq k hp hq => hpq ?_
  exact (of_decide_eq_true (List.mem_filter.mp hp).2).symm.trans
    (of_decide_eq_true (List.mem_filter.mp hq).2)

theorem map_key_inFileOrder (ts : List CompiledStep) :
    (inFileOrder (StepSet.ofList ts)).map CompiledStep.key = keysInFileOrder ts := by
  rw [inFileOrder, List.map_flatMap, keysInFileOrder]
  refine congrArg Phase.all.flatMap (funext fun p => ?_)
  rw [StepSet.ofPhase, StepSet.toList_ofList, ← map_key_firstOfEachKey, List.filter_map]
  rfl

theorem mem_inFileOrder {s : StepSet} {t : CompiledStep} : t ∈ inFileOrder s → t ∈ s.toList := by
  rw [inFileOrder, List.mem_flatMap]
  rintro ⟨_, -, h⟩
  exact (List.mem_filter.mp h).1

theorem filter_inFileOrder (s : StepSet) (p : Phase) :
    (inFileOrder s).filter (fun t => t.phase = p) = s.ofPhase p := by
  have hsame : (s.ofPhase p).filter (fun t => t.phase = p) = s.ofPhase p := by
    refine List.filter_eq_self.mpr fun t ht => ?_
    exact (List.mem_filter.mp ht).2
  have hother : ∀ q, q ≠ p → (s.ofPhase q).filter (fun t => t.phase = p) = [] := by
    intro q hq
    refine List.filter_eq_nil_iff.mpr fun t ht hp => hq ?_
    exact (of_decide_eq_true (List.mem_filter.mp ht).2).symm.trans (of_decide_eq_true hp)
  rw [inFileOrder, Phase.all]
  simp only [List.flatMap_cons, List.flatMap_nil, List.filter_append, List.filter_nil]
  cases p with
  | context => simp only [hsame, hother .action nofun, hother .outcome nofun, List.append_nil]
  | action =>
    simp only [hsame, hother .context nofun, hother .outcome nofun, List.append_nil,
      List.nil_append]
  | outcome =>
    simp only [hsame, hother .context nofun, hother .action nofun, List.append_nil,
      List.nil_append]

/-! ## What the stubs of a file say -/

/-- What the stubs of a file say that was written for steps of a feature file. -/
def readFile? (ts : List CompiledStep) (source module file : Text) : Option (List Entry) :=
  (Text.afterStart? (header module source ts.length (distinctKeys ts).length) file).bind
    readDefinitions

theorem readFile?_ofFeature (content source module : Text) :
    readFile? (Feature.compiledSteps content) source module (ofFeature content source module) =
      some ((inFileOrder (StepSet.ofList (Feature.compiledSteps content))).map Entry.ofStep) := by
  rw [readFile?, ofFeature, file, StepSet.size_ofList, Text.afterStart?_append, Option.bind_some,
    readDefinitions_flatMap]

theorem key_ofStep (s : CompiledStep) : (Entry.ofStep s).key = s.key := rfl

theorem map_key_map_ofStep (ss : List CompiledStep) :
    (ss.map Entry.ofStep).map Entry.key = ss.map CompiledStep.key := by
  rw [List.map_map]
  rfl

/-- What the stub of a key says is what the first step with the key says. -/
theorem firstWithKey?_of_mem_inFileOrder {ts : List CompiledStep} {e : Entry}
    (he : e ∈ (inFileOrder (StepSet.ofList ts)).map Entry.ofStep) :
    (firstWithKey? ts e.key).map Entry.ofStep = some e := by
  obtain ⟨t, ht, rfl⟩ := List.mem_map.mp he
  have hfirst := mem_inFileOrder ht
  rw [StepSet.toList_ofList] at hfirst
  rw [key_ofStep, firstWithKey?_of_mem_firstOfEachKey hfirst, Option.map_some]

/-! ## What tells two files apart -/

/-- A header tells the number of steps, and where it ends. -/
theorem header_append_inj {module source t t' : Text} {total total' unique unique' : Nat}
    (h : header module source total unique ++ t = header module source total' unique' ++ t') :
    total = total' ∧ t = t' := by
  have hmiddle : " (".toList = ' ' :: ['('] := by decide
  have hend : " unique)\n\n\n".toList = ' ' :: "unique)\n\n\n".toList := by decide
  unfold header at h
  rw [hmiddle, hend] at h
  simp only [List.append_assoc, List.cons_append, List.nil_append] at h
  have hnumbers := List.append_cancel_left (List.append_cancel_left (List.append_cancel_left
    (List.append_cancel_left (List.append_cancel_left h))))
  obtain ⟨htotal, hrest⟩ := Text.ofNat_append_inj (by decide) hnumbers
  obtain ⟨-, hbody⟩ := Text.ofNat_append_inj (by decide) (List.cons.inj hrest).2
  exact ⟨htotal, List.append_cancel_left hbody⟩

/-- The stubs of all phases tell those of each phase. -/
theorem map_ofPhase_eq {s s' : StepSet}
    (h : (inFileOrder s).map Entry.ofStep = (inFileOrder s').map Entry.ofStep) (p : Phase) :
    (s.ofPhase p).map Entry.ofStep = (s'.ofPhase p).map Entry.ofStep := by
  have key : ∀ u : StepSet, (u.ofPhase p).map Entry.ofStep =
      ((inFileOrder u).map Entry.ofStep).filter fun e => e.phase = p := by
    intro u
    rw [List.filter_map, ← filter_inFileOrder]
    rfl
  rw [key, key, h]

theorem map_inFileOrder_eq {s s' : StepSet}
    (h : ∀ p, (s.ofPhase p).map Entry.ofStep = (s'.ofPhase p).map Entry.ofStep) :
    (inFileOrder s).map Entry.ofStep = (inFileOrder s').map Entry.ofStep := by
  rw [inFileOrder, inFileOrder, List.map_flatMap, List.map_flatMap]
  exact congrArg Phase.all.flatMap (funext h)

theorem length_inFileOrder (s : StepSet) : (inFileOrder s).length = s.size := by
  have hsplit : ∀ ts : List CompiledStep,
      (Phase.all.flatMap fun p => ts.filter fun t => t.phase = p).length = ts.length := by
    intro ts
    induction ts with
    | nil => rfl
    | cons t ts ih =>
      simp only [Phase.all, List.flatMap_cons, List.flatMap_nil, List.length_append,
        List.filter_cons, List.length_cons, List.length_nil] at ih ⊢
      cases t.phase <;> simp <;> omega
  have hsize : s.size = s.toList.length := List.length_reverse.symm
  rw [hsize]
  exact hsplit s.toList

theorem size_eq_of_map_inFileOrder_eq {s s' : StepSet}
    (h : (inFileOrder s).map Entry.ofStep = (inFileOrder s').map Entry.ofStep) :
    s.size = s'.size := by
  have hlength := congrArg List.length h
  rwa [List.length_map, List.length_map, length_inFileOrder, length_inFileOrder] at hlength

/-- The stub of a step, for all that the stub says. -/
theorem definition_eq_of_ofStep_eq {s t : CompiledStep} (h : Entry.ofStep s = Entry.ofStep t) :
    definition s = definition t := by
  have hphase : s.phase = t.phase := congrArg Entry.phase h
  have hpattern : s.pattern = t.pattern := congrArg Entry.pattern h
  have hparameters : s.parameters = t.parameters := congrArg Entry.parameters h
  have htable : s.hasTable = t.hasTable := congrArg Entry.hasTable h
  unfold definition
  rw [hphase, hpattern, hparameters, htable]

theorem flatMap_definition_eq {ss ts : List CompiledStep}
    (h : ss.map Entry.ofStep = ts.map Entry.ofStep) :
    (ss.flatMap fun s => definition s ++ "\n".toList) =
      ts.flatMap fun s => definition s ++ "\n".toList := by
  induction ss generalizing ts with
  | nil =>
    rw [List.map_nil] at h
    rw [List.map_eq_nil_iff.mp h.symm]
  | cons s ss ih =>
    cases ts with
    | nil => exact nomatch h
    | cons t ts =>
      obtain ⟨hst, hrest⟩ := List.cons.inj h
      rw [List.flatMap_cons, List.flatMap_cons, definition_eq_of_ofStep_eq hst, ih hrest]

/-- The stubs of a file say of each key, in order, what the first step with it says.  Two sets
of steps with the same stub file agree on their number and on what the stubs of each phase
say. -/
theorem readFile?_ofFeature_and_file_eq_file_iff :
    (∀ content source module : Text,
      let steps := Feature.compiledSteps content
      ∃ entries, readFile? steps source module (ofFeature content source module) = some entries ∧
        entries.map Entry.key = keysInFileOrder steps ∧ (entries.map Entry.key).Nodup ∧
        ∀ e ∈ entries, (firstWithKey? steps e.key).map Entry.ofStep = some e) ∧
      ∀ (s s' : StepSet) (total total' : Nat) (source module : Text),
        file s total source module = file s' total' source module ↔
          total = total' ∧
            ∀ p, (s.ofPhase p).map Entry.ofStep = (s'.ofPhase p).map Entry.ofStep := by
  constructor
  · intro content source module steps
    have hkeys : ((inFileOrder (StepSet.ofList steps)).map Entry.ofStep).map Entry.key =
        keysInFileOrder steps := by
      rw [map_key_map_ofStep, map_key_inFileOrder]
    refine ⟨_, readFile?_ofFeature content source module, hkeys, ?_,
      fun e he => firstWithKey?_of_mem_inFileOrder he⟩
    rw [hkeys]
    exact nodup_keysInFileOrder steps
  · intro s s' total total' source module
    constructor
    · intro h
      obtain ⟨htotal, hstubs⟩ := header_append_inj h
      -- Reading both files gives the same entries back.
      have hentries := congrArg readDefinitions hstubs
      rw [readDefinitions_flatMap, readDefinitions_flatMap] at hentries
      exact ⟨htotal, map_ofPhase_eq (Option.some.inj hentries)⟩
    · rintro ⟨rfl, h⟩
      have hentries := map_inFileOrder_eq h
      rw [file, file, size_eq_of_map_inFileOrder_eq hentries, flatMap_definition_eq hentries]

/-! ## The handler of a step -/

theorem parameters_eq_of_mem {content : Text} {s t : CompiledStep}
    (hs : s ∈ Feature.compiledSteps content) (ht : t ∈ Feature.compiledSteps content)
    (h : s.key = t.key) : s.parameters = t.parameters := by
  rw [Feature.compiledSteps] at hs ht
  obtain ⟨_, -, rfl⟩ := List.mem_map.mp hs
  obtain ⟨_, -, rfl⟩ := List.mem_map.mp ht
  exact Expression.parameters_eq_of_key_eq h

theorem signature_eq_iff (ps : List Parameter) (hasTable hasTable' : Bool) :
    signature ps hasTable = signature ps hasTable' ↔ hasTable = hasTable' := by
  constructor
  · intro h
    have hread := congrArg readSignature h
    rw [readSignature_signature, readSignature_signature] at hread
    exact congrArg Prod.snd (Option.some.inj hread)
  · rintro rfl
    rfl

/-- Each step has one stub, and its parameters are those of the step.  The stub takes a data
table if the first step with the key has one, so it takes the arguments of the step just when
the two agree about that. -/
theorem signature_stub_eq_iff (content source module : Text) {s : CompiledStep}
    (hs : s ∈ Feature.compiledSteps content) :
    ∃ entries first,
      readFile? (Feature.compiledSteps content) source module
        (ofFeature content source module) = some entries ∧
      firstWithKey? (Feature.compiledSteps content) s.key = some first ∧
      (∃! e, e ∈ entries ∧ e.key = s.key) ∧
      ∀ e ∈ entries, e.key = s.key → e.parameters = s.parameters ∧
        e.hasTable = first.hasTable ∧
        (signature e.parameters e.hasTable = signature s.parameters s.hasTable ↔
          first.hasTable = s.hasTable) := by
  have hkey : s.key ∈ distinctKeys (Feature.compiledSteps content) :=
    mem_distinctKeys.mpr ⟨s, hs, rfl⟩
  obtain ⟨first, hfirst, hfirstKey⟩ := firstWithKey?_eq_some hkey
  -- Any stub with the key is that of the first step with it.
  have hentry : ∀ e ∈ (inFileOrder (StepSet.ofList (Feature.compiledSteps content))).map
      Entry.ofStep, e.key = s.key → e = Entry.ofStep first := by
    intro e he hek
    have h := firstWithKey?_of_mem_inFileOrder he
    rw [hek, hfirst, Option.map_some] at h
    exact (Option.some.inj h).symm
  have hparameters : first.parameters = s.parameters :=
    parameters_eq_of_mem (mem_of_firstWithKey? hfirst) hs hfirstKey
  refine ⟨_, first, readFile?_ofFeature content source module, hfirst, ?_, ?_⟩
  · have hmem := mem_keysInFileOrder.mpr hkey
    rw [← map_key_inFileOrder, ← map_key_map_ofStep] at hmem
    obtain ⟨e, he, hek⟩ := List.mem_map.mp hmem
    refine ⟨e, ⟨he, hek⟩, fun e' he' => ?_⟩
    rw [hentry e' he'.1 he'.2, hentry e he hek]
  · intro e he hek
    rw [hentry e he hek]
    refine ⟨hparameters, rfl, ?_⟩
    show signature first.parameters first.hasTable = _ ↔ _
    rw [hparameters, signature_eq_iff]

/-- A feature file with two steps of one key, of which the second has a table. -/
def tableSecond : Text := "Given users exist\nAnd users exist:\n".toList

/-- The step with the table. -/
def stepWithTable : CompiledStep :=
  ⟨.context, "users exist".toList, "users exist".toList, [], true, 2⟩

theorem compiledSteps_tableSecond :
    Feature.compiledSteps tableSecond =
      [⟨.context, "users exist".toList, "users exist".toList, [], false, 1⟩, stepWithTable] := by
  decide

/-- The two steps share a stub, and it takes no table, as the first has none. -/
theorem hasTable_stub_tableSecond :
    stepWithTable ∈ Feature.compiledSteps tableSecond ∧
      ∃ entries, readFile? (Feature.compiledSteps tableSecond) [] []
          (ofFeature tableSecond [] []) = some entries ∧
        ∃ e ∈ entries, e.key = stepWithTable.key ∧ e.parameters = stepWithTable.parameters ∧
          e.hasTable = false := by
  have hs : stepWithTable ∈ Feature.compiledSteps tableSecond := by
    rw [compiledSteps_tableSecond]
    exact List.mem_cons_of_mem _ List.mem_cons_self
  obtain ⟨entries, first, hread, hfirst, ⟨e, ⟨he, hek⟩, -⟩, hall⟩ :=
    signature_stub_eq_iff tableSecond [] [] hs
  have hnone : first.hasTable = false := by
    rw [compiledSteps_tableSecond] at hfirst
    rw [← Option.some.inj hfirst]
  obtain ⟨hparameters, htable, -⟩ := hall e he hek
  exact ⟨hs, entries, hread, e, he, hek, hparameters, htable.trans hnone⟩

/-- The stub of a step with a table need not take one. -/
theorem exists_signature_stub_ne :
    stepWithTable ∈ Feature.compiledSteps tableSecond ∧
      ¬ ∃ entries, readFile? (Feature.compiledSteps tableSecond) [] []
          (ofFeature tableSecond [] []) = some entries ∧
        ∃ e ∈ entries, e.key = stepWithTable.key ∧
          signature e.parameters e.hasTable =
            signature stepWithTable.parameters stepWithTable.hasTable := by
  rw [readFile?_ofFeature, compiledSteps_tableSecond]
  refine ⟨List.mem_cons_of_mem _ List.mem_cons_self, ?_⟩
  rintro ⟨entries, hread, e, he, -, hsig⟩
  have hentries : entries = [⟨.context, "users exist".toList, [], false⟩] := by
    rw [← Option.some.inj hread]
    decide
  rw [hentries, List.mem_singleton] at he
  rw [he] at hsig
  exact absurd hsig (by decide)

end Stub
end StepStubs
