import StackSteps.Machine.Execute
import StackSteps.Statement.Decode

/-!
# Stepping through lines

A statement is applied in one step: what the step before touched is forgotten, an instruction is
executed, and a snapshot is taken. A blank line and an unsupported mnemonic change nothing else.
-/

namespace StackSteps.Machine

inductive Outcome where
  | executed
  | empty
  | unsupported (mnemonic : String)
deriving DecidableEq

/-- The picture after a line, and what became of it. -/
structure Step where
  state : Snapshot
  outcome : Outcome
deriving DecidableEq

/-- Applies a decoded line. Its text, without blanks at its ends, goes into the snapshot. -/
def apply (statement : Statement) (text : String) : Effect Step := do
  modify clearTouched
  let outcome : Outcome ←
    match statement with
    | .empty => pure .empty
    | .unsupported mnemonic => pure (.unsupported mnemonic)
    | .instruction i => do
      execute i
      pure .executed
  return ⟨(← get).snapshot (Text.trim text), outcome⟩

/-- Why a line has no step. -/
inductive StepError where
  | decode (error : DecodeError)
  | fault (fault : Fault)
deriving DecidableEq

def StepError.message : StepError → String
  | decode e => e.message
  | fault f => f.message

/-- Decodes a line and applies it. A line that is refused leaves the machine alone. -/
def step (line : String) : EStateM StepError Machine Step := fun m =>
  match Statement.decode line with
  | .error e => .error (.decode e) m
  | .ok statement =>
    match (apply statement line).run m with
    | .ok s m => .ok s m
    | .error f m => .error (.fault f) m

end StackSteps.Machine
