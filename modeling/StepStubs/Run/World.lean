/-
What a run changes.

A run works on files, logs events and says how far it has come.  All three are kept when it
fails, so a run is a state transformer under an error transformer.
-/
import StepStubs.Files.Writing
import StepStubs.Log.Event
import StepStubs.Run.Progress

namespace StepStubs
namespace Run

structure World where
  files : Files.FileSystem
  /-- The events, latest first. -/
  events : List Log.Event
  /-- What was said, latest first. -/
  said : List Progress

/-- The world before a run. -/
def World.start (fs : Files.FileSystem) : World := ⟨fs, [], []⟩

abbrev Action (ε α : Type) := ExceptT ε (StateM World) α

variable {ε α : Type}

def onFiles (operation : Files.Operation ε α) : Action ε α := fun w =>
  let (result, fs) := operation w.files
  (result, { w with files := fs })

def askFiles (question : Files.FileSystem → Except ε α) : Action ε α := fun w =>
  (question w.files, w)

def log (e : Log.Event) : Action ε Unit := modify fun w => { w with events := e :: w.events }

/-- Says something, if anything is to be said. -/
def say (speaks : Bool) (p : Progress) : Action ε Unit :=
  if speaks then modify fun w => { w with said := p :: w.said } else pure ()

end Run
end StepStubs
