import StackSteps.Json
import StackSteps.Machine.Step
import StackSteps.Snapshot.Json
import StackSteps.Text.Lines

/-!
# Running a listing

The trace of a listing has a snapshot of the machine at the start and one after each line that is
not blank. A line with an unsupported mnemonic is noted and passed over. The first line that is
refused or that fails ends the run. Labels fade after every step.
-/

namespace StackSteps

/-- A line that the machine passed over. -/
structure Notice where
  line : Nat
  mnemonic : String
deriving DecidableEq

def Notice.message (n : Notice) : String :=
  "line " ++ Text.decimal n.line ++ ": unsupported opcode `" ++ n.mnemonic ++ "`"

/-- The line that ended a run early. -/
structure Failure where
  line : Nat
  text : String
  error : Machine.StepError
deriving DecidableEq

/-- The course of a run. -/
structure Trace where
  states : List Snapshot
  notices : List Notice
  failure : Option Failure
deriving DecidableEq

namespace Trace

def done : Trace := ⟨[], [], none⟩

def stopped (failure : Failure) : Trace := ⟨[], [], some failure⟩

/-- A step of a line in front of the course of the lines behind it. -/
def cons (line : Nat) (step : Machine.Step) (rest : Trace) : Trace where
  states := step.state :: rest.states
  notices :=
    match step.outcome with
    | .unsupported mnemonic => ⟨line, mnemonic⟩ :: rest.notices
    | .executed | .empty => rest.notices
  failure := rest.failure

def complete (t : Trace) : Bool :=
  t.failure.isNone

def last? (t : Trace) : Option Snapshot :=
  t.states.getLast?

def follow (m : Machine) (counter : LineCounter) : List String → Trace
  | [] => done
  | line :: rest =>
    let text := Text.trim line
    match counter.decode text with
    | (counter, .error e) => stopped ⟨counter.count, text, .decode e⟩
    | (counter, .ok .empty) => follow m counter rest
    | (counter, .ok statement) =>
      match (m.apply statement text) with
      | .error f _ => stopped ⟨counter.count, text, .fault f⟩
      | .ok step m => cons counter.count step (follow m.fade counter rest)

def run (m : Machine) (source : String) : Trace :=
  let rest := follow m {} ((Text.lines source.toList).map String.ofList)
  { rest with states := m.snapshot "init" :: rest.states }

open Json in
/-- The trace as an object: the snapshots, the wording of the notices, and the failure. -/
def toJson (t : Trace) : Json :=
  object [
    ("states", ofList Snapshot.toJson t.states),
    ("diagnostics", ofList (fun n => string n.message) t.notices),
    ("failure",
      match t.failure with
      | none => null
      | some f =>
        object [
          ("line", integer f.line), ("text", string f.text), ("message", string f.error.message)])]

def text (encode : Json.Encoder) (t : Trace) : Option String :=
  encode t.toJson

end Trace

end StackSteps
