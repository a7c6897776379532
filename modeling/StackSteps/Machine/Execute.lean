import StackSteps.Machine

/-!
# Executing instructions

An instruction has an effect on the machine: it reads the state, changes it part by part, and may
fail, in which case the state keeps the changes made so far. Main statements: one equation for each
part of an effect (`run_writeView` to `run_writeByte`), from which those of the instructions follow.
-/

namespace StackSteps.Machine

/-- An effect that may fail. The state that it has reached stays either way. -/
abbrev Effect := EStateM Fault Machine

namespace Effect

def ask {α : Type} (f : Machine → Except Fault α) : Effect α := do
  MonadExcept.ofExcept (f (← get))

def touchSlot (i : Nat) : Effect Unit :=
  modify fun m => { m with touchedSlots := m.touchedSlots.insert i }

/-- Marks a view as touched, and with a low view the whole register. -/
def touchView (v : View) : Effect Unit :=
  modify fun m =>
    let touched := m.touchedViews.insert v
    { m with touchedViews := if v.isAlias then touched.insert v.backing else touched }

/-- Sets a label on a slot, to be shown once. -/
def labelSlot (i : Nat) (text : String) : Effect Unit :=
  modify fun m => { m with labels := m.labels.addSlot i text 1 }

/-- Leaves one label on a slot, to be shown once. -/
def relabelSlot (i : Nat) (text : String) : Effect Unit :=
  modify fun m => { m with labels := m.labels.replaceSlot i ⟨text, 1⟩ }

/-- Sets a label on the register of a view, to be shown for the machine's lifetime of labels. -/
def labelView (v : View) (text : String) : Effect Unit :=
  modify fun m => { m with labels := m.labels.addRegister v.register text m.lifetime }

def writeView (v : View) (value : Word) : Effect Unit :=
  modify fun m => { m with bank := m.bank.write v value }

def writeSlot (i : Nat) (value : Word) : Effect Unit := do
  let stack ← ask (·.stack.write i value 8)
  modify ({ · with stack })

def writeByte (p : Place) (b : UInt8) : Effect Unit := do
  let stack ← ask (·.stack.writeByte p b)
  modify ({ · with stack })

theorem run_ask {α : Type} (f : Machine → Except Fault α) (m : Machine) :
    (ask f).run m =
      match f m with
      | .ok a => .ok a m
      | .error e => .error e m := by
  have hrun : (ask f).run m = (MonadExcept.ofExcept (f m) : Effect α).run m := rfl
  rw [hrun]
  cases f m <;> rfl

@[simp] theorem run_touchSlot (i : Nat) (m : Machine) :
    (touchSlot i).run m = .ok () { m with touchedSlots := m.touchedSlots.insert i } := rfl

@[simp] theorem run_touchView (v : View) (m : Machine) :
    (touchView v).run m =
      .ok () { m with
        touchedViews :=
          if v.isAlias then (m.touchedViews.insert v).insert v.backing
          else m.touchedViews.insert v } := rfl

@[simp] theorem run_labelSlot (i : Nat) (text : String) (m : Machine) :
    (labelSlot i text).run m = .ok () { m with labels := m.labels.addSlot i text 1 } := rfl

@[simp] theorem run_relabelSlot (i : Nat) (text : String) (m : Machine) :
    (relabelSlot i text).run m =
      .ok () { m with labels := m.labels.replaceSlot i ⟨text, 1⟩ } := rfl

@[simp] theorem run_labelView (v : View) (text : String) (m : Machine) :
    (labelView v text).run m =
      .ok () { m with labels := m.labels.addRegister v.register text m.lifetime } := rfl

@[simp] theorem run_writeView (v : View) (value : Word) (m : Machine) :
    (writeView v value).run m = .ok () { m with bank := m.bank.write v value } := rfl

theorem run_writeSlot {i : Nat} {m : Machine} (hi : i < m.stack.size) (value : Word) :
    (writeSlot i value).run m = .ok () { m with stack := m.stack.set i value } := by
  rw [writeSlot, EStateM.run_bind, run_ask, Stack.write_whole hi]
  rfl

theorem run_writeByte {p : Place} {m : Machine} (hp : p.slot < m.stack.slots.length) (b : UInt8) :
    (writeByte p b).run m =
      .ok () { m with
        stack := m.stack.set p.slot (Word.setByte m.stack.slots[p.slot] p.lane b) } := by
  rw [writeByte, EStateM.run_bind, run_ask, Stack.writeByte_of_lt hp]
  rfl

/-- Writes a result through a view, and labels and marks it. -/
def assign (dst : View) (value : Word) (label : String) : Effect Unit := do
  writeView dst value
  labelView dst label
  touchView dst

/-- Copies an operand. A copy of a pointer names the slot that the pointer points to, if there is
one, after the destination. -/
def move (dst : View) (src : Operand) : Effect Unit := do
  let value := (← get).value src
  assign dst value ("mov " ++ src.text)
  if let .register v := src then
    if v.register.isPointer then relabelSlot (value.toNat / 8) dst.name

def storeByte (src : View) (address : Address) : Effect Unit := do
  let place ← ask fun m => m.stack.locate (m.target address)
  writeByte place (Word.byte ((← get).bank.read src) 0)
  labelSlot place.slot (src.name ++ "[0:8]")
  touchSlot place.slot

def loadByte (dst : View) (address : Address) : Effect Unit := do
  let place ← ask fun m => m.stack.locate (m.target address)
  let byte ← ask (·.stack.readByte place)
  writeView dst byte.toUInt64
  labelView dst ("ldrb " ++ address.place)
  labelSlot place.slot ("ldrb " ++ dst.name ++ "[" ++ Text.decimal place.byte ++ "]")
  touchView dst

/-- The word that points to an address. -/
def pointer (address : Int) : Except Fault Word :=
  if 0 ≤ address ∧ address < 18446744073709551616 then .ok (UInt64.ofNat address.toNat)
  else .error (.outOfBounds address)

/-- Stores two registers, the first in the slot at the address and the second in the slot above.
With writeback the base is moved to the address afterwards. -/
def storePair (first second : View) (address : Address) : Effect Unit := do
  let target := (← get).target address
  let low ← ask (·.stack.locate target)
  let high ← ask (·.stack.locate (target + 8))
  let base ← ask fun _ => pointer target
  let firstValue := (← get).bank.read first
  let secondValue := (← get).bank.read second
  writeSlot low.slot firstValue
  writeSlot high.slot secondValue
  labelSlot low.slot ("stp " ++ first.name)
  labelSlot high.slot ("stp " ++ second.name)
  touchSlot low.slot
  touchSlot high.slot
  if address.writeback then
    writeView address.base base
    touchView address.base

end Effect

open Effect in
def execute : Instruction → Effect Unit
  | .add dst lhs rhs => do
    let m ← get
    assign dst (m.bank.read lhs + m.value rhs) ("add " ++ dst.name)
  | .sub dst lhs rhs => do
    let m ← get
    assign dst (m.bank.read lhs - m.value rhs) ("sub " ++ dst.name)
  | .mov dst src => move dst src
  | .strb src address => storeByte src address
  | .ldrb dst address => loadByte dst address
  | .stp first second address => storePair first second address

end StackSteps.Machine
