/-
The steps of one file, each key once.

The first step with a key is kept, and the steps stay in the order in which they came, so
definitions are written in the order in which they first appear.  The keys are kept a second
time, as a set of their own: whether a step is new is asked of that set and not of the steps.
-/
import StepStubs.Step.Compiled

namespace StepStubs

/-- A collection of steps with distinct keys, in the order of their arrival. -/
structure StepSet where
  /-- The keys that were taken in, each once. -/
  seen : List StepKey
  /-- The steps, latest first. -/
  latestFirst : List CompiledStep
  deriving Repr, DecidableEq

namespace StepSet

/-- The set without steps. -/
def empty : StepSet := ⟨[], []⟩

/-- The steps in the order of their arrival. -/
def toList (s : StepSet) : List CompiledStep := s.latestFirst.reverse

/-- Was a step with the key taken in? -/
def contains (s : StepSet) (k : StepKey) : Bool := s.seen.contains k

/-- Was the step taken in, and the set afterwards.  A step whose key was seen before changes
nothing. -/
def offer (s : StepSet) (t : CompiledStep) : Bool × StepSet :=
  if s.contains t.key then (false, s) else (true, ⟨s.seen.insert t.key, t :: s.latestFirst⟩)

/-- The set with the step, unless its key is taken. -/
def insert (s : StepSet) (t : CompiledStep) : StepSet := (s.offer t).2

/-- The set after inserting the steps one after the other. -/
def insertAll (s : StepSet) (ts : List CompiledStep) : StepSet := ts.foldl insert s

/-- The set of the first step with each key. -/
def ofList (ts : List CompiledStep) : StepSet := empty.insertAll ts

def size (s : StepSet) : Nat := s.latestFirst.length

/-- The keys in the order of their arrival. -/
def keys (s : StepSet) : List StepKey := s.toList.map CompiledStep.key

/-- The steps of one phase, in order. -/
def ofPhase (s : StepSet) (p : Phase) : List CompiledStep := s.toList.filter fun t => t.phase = p

def count (s : StepSet) (p : Phase) : Nat := (s.ofPhase p).length

end StepSet

/-- The steps without those whose key came before. -/
def dedup (ts : List CompiledStep) : List CompiledStep := (StepSet.ofList ts).toList

end StepStubs
