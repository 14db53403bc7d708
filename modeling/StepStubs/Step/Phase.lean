/-
Phases of a scenario and the words that lead a step line.

A step belongs to one of three phases: it sets up the context, it acts, or it states the
outcome.  Three leading words name a phase; the other two continue the phase before them.
The types keep the two apart, so no step is ever left with `And` or `But` as its phase.
-/
import StepStubs.Text.Basic

namespace StepStubs

/-- What a step does in its scenario. -/
inductive Phase where
  /-- Sets up the state that the scenario starts from. -/
  | context
  /-- Describes what happens. -/
  | action
  /-- Describes what is expected afterwards. -/
  | outcome
  deriving Repr, DecidableEq

namespace Phase

/-- The phases in the order in which their definitions are written. -/
def all : List Phase := [context, action, outcome]

def word : Phase → Text
  | context => "Given".toList
  | action => "When".toList
  | outcome => "Then".toList

def ofWord? (w : Text) : Option Phase := all.find? fun p => p.word = w

def comment : Phase → Text
  | context => "[Given] Sets up the initial state of the system.".toList
  | action => "[When] Describes the action or event that triggers the scenario.".toList
  | outcome => "[Then] Describes the expected outcome or result of the scenario.".toList

theorem ofWord?_word (p : Phase) : ofWord? p.word = some p := by cases p <;> decide

end Phase

inductive LeadWord where
  | primary (phase : Phase)
  | and
  | but
  deriving Repr, DecidableEq

namespace LeadWord

def all : List LeadWord :=
  [primary .context, primary .action, primary .outcome, and, but]

def word : LeadWord → Text
  | primary p => p.word
  | and => "And".toList
  | but => "But".toList

/-- The leading word that is spelled like this.  Case counts. -/
def ofWord? (w : Text) : Option LeadWord := all.find? fun l => l.word = w

def phase? : LeadWord → Option Phase
  | primary p => some p
  | and => none
  | but => none

/-- The phase that the word stands for after a step of the phase `previous`. -/
def resolve (l : LeadWord) (previous : Phase) : Phase := l.phase?.getD previous

theorem ofWord?_word (l : LeadWord) : ofWord? l.word = some l := by
  cases l with
  | primary p => cases p <;> decide
  | and => decide
  | but => decide

end LeadWord
end StepStubs
