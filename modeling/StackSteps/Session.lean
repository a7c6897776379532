import StackSteps.Setup
import StackSteps.Trace

/-!
# Sessions

A session keeps a setup, the machine that every run starts from, the listing, and the trace of its
last run. Every change of the listing or of the setup runs the listing again from the starting
machine.
-/

namespace StackSteps

/-- A listing under a setup, with its trace. -/
structure Session where
  setup : Setup
  machine : Machine
  source : String
  trace : Trace
deriving DecidableEq

namespace Session

def start (setup : Setup) : Except Fault Session := do
  let machine ← setup.machine
  return { setup, machine, source := "", trace := ⟨[machine.snapshot "init"], [], none⟩ }

def run (s : Session) (source : String) : Trace :=
  Trace.run s.machine source

def update (s : Session) (source : String) : Session :=
  { s with source, trace := s.run source }

/-- A change that may fail. The session that it has reached stays either way. -/
abbrev Change := EStateM Fault Session

/-- Starts anew under another setup, with the same listing. -/
def reconfigure (setup : Setup) : Change Trace := do
  let machine ← MonadExcept.ofExcept setup.machine
  modify ({ · with machine })
  modify ({ · with setup })
  modify fun s => { s with trace := s.run s.source }
  return (← get).trace

/-- Gives a register a starting value and starts anew. -/
def setRegister (r : Register) (v : Word) : Change Trace := do
  let setup ← MonadExcept.ofExcept ((← get).setup.withSeed r v)
  reconfigure setup

end Session

end StackSteps
