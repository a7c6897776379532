import StackSteps.Proofs.Machine.Effects

/-!
# Reachable machines

The machines that come out of a constructor and any sequence of calls, also of calls that fail.
-/
namespace StackSteps.Machine

/-- The machine that an effect leaves, whether it fails or not. -/
def after {ε α : Type} (x : EStateM ε Machine α) (m : Machine) : Machine :=
  match x.run m with
  | .ok _ m' => m'
  | .error _ m' => m'

inductive Reachable : Machine → Prop
  | start {slots : Nat} {m : Machine} (h : Machine.start slots = .ok m) : Reachable m
  | seeded {slots : Nat} {seeds : List (Register × Word)} {m : Machine}
      (h : Machine.seeded slots seeds = .ok m) : Reachable m
  | seed {m : Machine} (h : Reachable m) (r : Register) (v : Word) : Reachable (m.seed r v)
  | withLifetime {m : Machine} (h : Reachable m) (lifetime : Nat) :
      Reachable (m.withLifetime lifetime)
  | clearTouched {m : Machine} (h : Reachable m) : Reachable m.clearTouched
  | fade {m : Machine} (h : Reachable m) : Reachable m.fade
  | execute {m : Machine} (h : Reachable m) (i : Instruction) : Reachable (after (execute i) m)
  | apply {m : Machine} (h : Reachable m) (statement : Statement) (text : String) :
      Reachable (after (apply statement text) m)
  | step {m : Machine} (h : Reachable m) (line : String) : Reachable (after (step line) m)

theorem after_of_run_ok {ε α : Type} {x : EStateM ε Machine α} {m m' : Machine} {a : α}
    (h : x.run m = .ok a m') : after x m = m' := by
  rw [after, h]

end StackSteps.Machine
