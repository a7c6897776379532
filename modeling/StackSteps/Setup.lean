import StackSteps.Machine

/-!
# Setups

What decides how a run starts: the number of slots, the lifetime of labels and the starting values
of registers. Starting values are a list with room for as many entries as there are registers. Main
statement: `length_renew` (a further value for a register that has one takes no room).
-/

namespace StackSteps

/-- How a run starts. -/
structure Setup where
  slots : Nat
  lifetime : Nat
  seeds : List (Register × Word)
  seeds_le : seeds.length ≤ 33
deriving DecidableEq

namespace Setup

def unseeded : Setup where
  slots := 16
  lifetime := Label.standardLifetime
  seeds := []
  seeds_le := by decide

/-- The unseeded setup with marks in the registers that a call saves. -/
def standard : Setup where
  slots := 16
  lifetime := Label.standardLifetime
  seeds := [(.general 29, 0x1111111111111111), (.general 30, 0x2222222222222222)]
  seeds_le := by decide

def withSlots (s : Setup) (slots : Nat) : Setup :=
  { s with slots }

def withLifetime (s : Setup) (lifetime : Nat) : Setup :=
  { s with lifetime }

def pushSeed (s : Setup) (r : Register) (v : Word) : Except Fault Setup :=
  if h : s.seeds.length < 33 then
    .ok { s with seeds := s.seeds ++ [(r, v)], seeds_le := by rw [List.length_append]; exact h }
  else .error .tooManySeeds

/-- The list with the first value for a register replaced. -/
def renew (r : Register) (v : Word) : List (Register × Word) → List (Register × Word)
  | [] => []
  | (s, u) :: rest => if s = r then (s, v) :: rest else (s, u) :: renew r v rest

@[simp] theorem length_renew (r : Register) (v : Word) (seeds : List (Register × Word)) :
    (renew r v seeds).length = seeds.length := by
  induction seeds with
  | nil => rfl
  | cons seed rest ih =>
    rw [renew]
    split <;> simp [ih]

/-- The setup with a starting value for a register. A register that has one already has its first
entry replaced, and another gets a new one, if there is room. -/
def withSeed (s : Setup) (r : Register) (v : Word) : Except Fault Setup :=
  if s.seeds.any (·.1 = r) then
    .ok { s with seeds := renew r v s.seeds, seeds_le := by simpa using s.seeds_le }
  else s.pushSeed r v

/-- Whether a machine can be made, and why not. -/
def validate (s : Setup) : Except Fault Unit :=
  if 0 < s.slots ∧ s.slots ≤ Stack.maxSize then .ok () else .error (.badStackSize s.slots)

def machine (s : Setup) : Except Fault Machine := do
  s.validate
  let m ← Machine.seeded s.slots s.seeds
  return m.withLifetime s.lifetime

end Setup

end StackSteps
