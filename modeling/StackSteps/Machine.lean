import StackSteps.Data.OrderedSet
import StackSteps.Instruction
import StackSteps.Register.Bank
import StackSteps.Snapshot
import StackSteps.Stack

/-!
# The machine

Registers, stack and labels, together with what the last step touched and for how many steps a label
is shown. Main statements: the questions that a snapshot answers are answered as by the machine
(`register_snapshot`, `slot_snapshot`, `labelsOfSlot_snapshot`, `labelsOfRegister_snapshot`,
`touchedSlot_snapshot`, `touchedView_snapshot`).
-/

namespace StackSteps

instance : Ranked View := ⟨View.rank, View.rank_inj.mp⟩

def Label.standardLifetime : Nat := 2

/-- The state of a run. -/
structure Machine where
  bank : Bank
  stack : Stack
  labels : Labels
  touchedSlots : OrderedSet Nat
  touchedViews : OrderedSet View
  lifetime : Nat
deriving DecidableEq

namespace Machine

/-- A machine with a stack of zeros. The pointers hold the address of the highest slot. -/
def start (slots : Nat) : Except Fault Machine := do
  let stack ← Stack.start slots
  return {
    bank := .start stack.top
    stack
    labels := .start stack.size
    touchedSlots := .empty
    touchedViews := .empty
    lifetime := Label.standardLifetime }

/-- The machine with another value in a register, which counts as no step. -/
def seed (m : Machine) (r : Register) (v : Word) : Machine :=
  { m with bank := m.bank.set r v }

/-- A machine with a stack of zeros and with values in some registers, the last one for a register
winning. -/
def seeded (slots : Nat) (seeds : List (Register × Word)) : Except Fault Machine :=
  (start slots).map fun m => seeds.foldl (fun m (r, v) => m.seed r v) m

def withLifetime (m : Machine) (lifetime : Nat) : Machine :=
  { m with lifetime }

/-- The machine as if the last step had touched nothing. -/
def clearTouched (m : Machine) : Machine :=
  { m with touchedSlots := .empty, touchedViews := .empty }

def fade (m : Machine) : Machine :=
  { m with labels := m.labels.fade }

def value (m : Machine) : Operand → Word
  | .register v => m.bank.read v
  | .immediate imm => imm.bits

/-- The number of the byte that an address means, which may lie outside the stack. -/
def target (m : Machine) (a : Address) : Int :=
  (m.bank.read a.base).toNat + a.offset.toInt

def snapshot (m : Machine) (text : String) : Snapshot where
  instruction := text
  stack := m.stack.slots
  registers := m.bank.values.map some
  slotLabels := m.labels.slotEntries
  registerLabels := m.labels.registerEntries
  touchedSlots := m.touchedSlots.toList
  touchedViews := m.touchedViews.toList

@[simp] theorem register_snapshot (m : Machine) (text : String) (r : Register) :
    (m.snapshot text).register r = some (m.bank.get r) := by
  simp [snapshot, Snapshot.register, Bank.get]

@[simp] theorem slot_snapshot (m : Machine) (text : String) (i : Nat) :
    (m.snapshot text).slot i = m.stack.slots[i]? := rfl

@[simp] theorem labelsOfSlot_snapshot (m : Machine) (text : String) (i : Nat) :
    (m.snapshot text).labelsOfSlot i = m.labels.slot i := by
  simp only [snapshot, Snapshot.labelsOfSlot, Labels.slotEntries, Sparse.get?_filled, Labels.slot]
  cases m.labels.slots[i]? with
  | none => rfl
  | some labels => cases labels <;> rfl

@[simp] theorem labelsOfRegister_snapshot (m : Machine) (text : String) (r : Register) :
    (m.snapshot text).labelsOfRegister r = m.labels.register r := by
  simp only [snapshot, Snapshot.labelsOfRegister, Labels.registerEntries, Table.get_map,
    Labels.register]
  split
  · rename_i h
    simp [h]
  · rfl

@[simp] theorem touchedSlot_snapshot (m : Machine) (text : String) (i : Nat) :
    (m.snapshot text).touchedSlot i = true ↔ i ∈ m.touchedSlots :=
  decide_eq_true_iff

@[simp] theorem touchedView_snapshot (m : Machine) (text : String) (v : View) :
    (m.snapshot text).touchedView v = true ↔ v ∈ m.touchedViews :=
  decide_eq_true_iff

end Machine

end StackSteps
