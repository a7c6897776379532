import StackSteps.Session

/-!
# The viewer

What a page that draws the steps talks to: a session of which it sees texts only, written by an
encoder that may fail. Starting values come as texts too, a register name and a number in decimal
or, behind `0x`, in hexadecimal digits.
-/

namespace StackSteps

inductive Refusal where
  | invalidSetup
  | tooManySeeds
  | unknownRegister
  | invalidValue
  | noSuchState
  | couldNotEncode
deriving DecidableEq

/-- How the viewer reports a fault of the setup. -/
def Refusal.ofFault : Fault → Refusal
  | .tooManySeeds => tooManySeeds
  | .outOfBounds _ | .sizeExceeded _ | .badStackSize _ => invalidSetup

def seedValue? : List Char → Option Word
  | '0' :: 'x' :: digits | '0' :: 'X' :: digits => (Word.ofDigits 16 digits).toOption
  | digits => (Word.ofDigits 10 digits).toOption

/-- Reads a register and its starting value, the name first. -/
def readSeed (name value : String) : Except Refusal (Register × Word) :=
  match Register.read name with
  | .error _ => .error .unknownRegister
  | .ok r =>
    match seedValue? value.toList with
    | none => .error .invalidValue
    | some v => .ok (r, v)

/-- A session seen through texts. -/
structure Viewer where
  session : Session
deriving DecidableEq

namespace Viewer

/-- A viewer with the standard starting values and an empty listing. -/
def start (slots : Nat) : Except Refusal Viewer :=
  match Session.start (Setup.standard.withSlots slots) with
  | .error f => .error (.ofFault f)
  | .ok session => .ok ⟨session⟩

def stateCount (v : Viewer) : Nat :=
  v.session.trace.states.length

def failureLine (v : Viewer) : Option Nat :=
  v.session.trace.failure.map (·.line)

def failureMessage (v : Viewer) : Option String :=
  v.session.trace.failure.map (·.error.message)

/-- A request that may be refused. The viewer that it has reached stays either way. -/
abbrev Request := EStateM Refusal Viewer

variable (encode : Json.Encoder)

def stateText (v : Viewer) (i : Nat) : Except Refusal String :=
  match v.session.trace.states[i]? with
  | none => .error .noSuchState
  | some s =>
    match s.text encode with
    | none => .error .couldNotEncode
    | some text => .ok text

/-- A change of the session, with the text of the new trace as its answer. If there is no such text
the session has changed all the same. -/
def change (c : Session.Change Trace) : Request String := fun v =>
  match c.run v.session with
  | .error f session => .error (.ofFault f) ⟨session⟩
  | .ok trace session =>
    match trace.text encode with
    | none => .error .couldNotEncode ⟨session⟩
    | some text => .ok text ⟨session⟩

def update (source : String) : Request String :=
  change encode do
    modify (·.update source)
    return (← get).trace

def setSeed (name value : String) : Request String := do
  let (r, v) ← MonadExcept.ofExcept (readSeed name value)
  change encode (Session.setRegister r v)

def setLifetime (lifetime : Nat) : Request String := do
  let setup := (← get).session.setup
  change encode (Session.reconfigure (setup.withLifetime lifetime))

end Viewer

end StackSteps
