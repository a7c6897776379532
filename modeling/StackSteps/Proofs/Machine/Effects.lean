import StackSteps.Data.Except
import StackSteps.Machine.Step
import StackSteps.Proofs.Stack.Bytes

/-!
# What an instruction does, in one piece

An instruction either finds every address that it needs and does all that it does, or changes
nothing: `executed` gives the machine afterwards or the fault, and the effect that changes the
machine part by part computes it (`run_execute`). A statement is applied to the machine without its
marks of touched places (`run_apply`), and a line that is refused leaves even these (`run_step`).
-/
namespace StackSteps

namespace Machine

def markView (m : Machine) (v : View) : Machine :=
  { m with
    touchedViews :=
      if v.isAlias then (m.touchedViews.insert v).insert v.backing else m.touchedViews.insert v }

/-- The machine with a result written through a view, which is labelled and marked. -/
def assigned (m : Machine) (dst : View) (value : Word) (label : String) : Machine :=
  { m with
    bank := m.bank.write dst value
    labels := m.labels.addRegister dst.register label m.lifetime }.markView dst

/-- A copied pointer names the slot that it points to. -/
def moved (m : Machine) (dst : View) (src : Operand) : Machine :=
  let m' := m.assigned dst (m.value src) ("mov " ++ src.text)
  match src with
  | .register v =>
    if v.register.isPointer then
      { m' with labels := m'.labels.replaceSlot ((m.value src).toNat / 8) ⟨dst.name, 1⟩ }
    else m'
  | .immediate _ => m'

def byteStored (m : Machine) (src : View) (p : Place) : Machine :=
  { m with
    stack := m.stack.set p.slot
      (Word.setByte (m.stack.slot p.slot) p.lane (Word.byte (m.bank.read src) 0))
    labels := m.labels.addSlot p.slot (src.name ++ "[0:8]") 1
    touchedSlots := m.touchedSlots.insert p.slot }

def byteLoaded (m : Machine) (dst : View) (address : Address) (p : Place) : Machine :=
  { m with
    bank := m.bank.write dst (Word.byte (m.stack.slot p.slot) p.lane).toUInt64
    labels := (m.labels.addRegister dst.register ("ldrb " ++ address.place) m.lifetime).addSlot
      p.slot ("ldrb " ++ dst.name ++ "[" ++ Text.decimal p.byte ++ "]") 1 }.markView dst

/-- Both values are those before the store, also where a stored register is the base. -/
def pairStored (m : Machine) (first second : View) (address : Address) (low high : Place) :
    Machine :=
  let m' : Machine := { m with
    stack := (m.stack.set low.slot (m.bank.read first)).set high.slot (m.bank.read second)
    labels := (m.labels.addSlot low.slot ("stp " ++ first.name) 1).addSlot high.slot
      ("stp " ++ second.name) 1
    touchedSlots := (m.touchedSlots.insert low.slot).insert high.slot }
  if address.writeback then
    { m' with
      bank := m.bank.write address.base (UInt64.ofNat (m.target address).toNat) }.markView
        address.base
  else m'

/-- The machine after an instruction, or the fault of the first address that has no place. -/
def executed (m : Machine) : Instruction → Except Fault Machine
  | .add dst lhs rhs => .ok (m.assigned dst (m.bank.read lhs + m.value rhs) ("add " ++ dst.name))
  | .sub dst lhs rhs => .ok (m.assigned dst (m.bank.read lhs - m.value rhs) ("sub " ++ dst.name))
  | .mov dst src => .ok (m.moved dst src)
  | .strb src address => do
    let p ← m.stack.locate (m.target address)
    return m.byteStored src p
  | .ldrb dst address => do
    let p ← m.stack.locate (m.target address)
    return m.byteLoaded dst address p
  | .stp first second address => do
    let low ← m.stack.locate (m.target address)
    let high ← m.stack.locate (m.target address + 8)
    return m.pairStored first second address low high

namespace Effect

theorem run_assign (dst : View) (value : Word) (label : String) (m : Machine) :
    (assign dst value label).run m = .ok () (m.assigned dst value label) := rfl

theorem run_move (dst : View) (src : Operand) (m : Machine) :
    (move dst src).run m = .ok () (m.moved dst src) := by
  cases src with
  | register v =>
    by_cases h : v.register.isPointer = true
    · simp [move, moved, run_assign, h]
    · simp [move, moved, run_assign, h]
  | immediate imm => rfl

/-- A look-up that fails ends the effect where it is. -/
theorem run_ask_bind {α β : Type} (f : Machine → Except Fault α) (k : α → Effect β) (m : Machine) :
    (ask f >>= k).run m =
      match f m with
      | .ok a => (k a).run m
      | .error e => .error e m := by
  rw [EStateM.run_bind, run_ask]
  cases f m <;> rfl

theorem run_writeSlot_bind {β : Type} {i : Nat} {m : Machine} (hi : i < m.stack.size)
    (value : Word) (k : Unit → Effect β) :
    (writeSlot i value >>= k).run m = (k ()).run { m with stack := m.stack.set i value } := by
  rw [EStateM.run_bind, run_writeSlot hi]

theorem run_storeByte (src : View) (address : Address) (m : Machine) :
    (storeByte src address).run m =
      match m.stack.locate (m.target address) with
      | .ok p => .ok () (m.byteStored src p)
      | .error f => .error f m := by
  unfold storeByte
  rw [run_ask_bind]
  cases h : m.stack.locate (m.target address) with
  | error f => rfl
  | ok p =>
    have hp : p.slot < m.stack.slots.length := (Stack.locate_eq_ok_iff.mp h).1
    simp [EStateM.run_bind, run_writeByte hp, Stack.getElem_slots hp, byteStored]

theorem run_loadByte (dst : View) (address : Address) (m : Machine) :
    (loadByte dst address).run m =
      match m.stack.locate (m.target address) with
      | .ok p => .ok () (m.byteLoaded dst address p)
      | .error f => .error f m := by
  unfold loadByte
  rw [run_ask_bind]
  cases h : m.stack.locate (m.target address) with
  | error f => rfl
  | ok p =>
    have hp : p.slot < m.stack.slots.length := (Stack.locate_eq_ok_iff.mp h).1
    have hread : m.stack.readByte p = .ok (Word.byte (m.stack.slot p.slot) p.lane) := by
      rw [Stack.readByte_of_lt hp, Stack.getElem_slots hp]
    dsimp only
    rw [run_ask_bind, hread]
    rfl

/-- An address that has a place in a stack has a word that points to it. -/
theorem pointer_of_locate {s : Stack} {address : Int} {p : Place} (h : s.locate address = .ok p) :
    pointer address = .ok (UInt64.ofNat address.toNat) := by
  obtain ⟨hslot, hbyte, rfl⟩ := Stack.locate_eq_ok_iff.mp h
  have hsize : s.size ≤ 4096 := s.size_le
  exact if_pos (by omega)

theorem run_storePair (first second : View) (address : Address) (m : Machine) :
    (storePair first second address).run m =
      match m.stack.locate (m.target address) with
      | .error f => .error f m
      | .ok low =>
        match m.stack.locate (m.target address + 8) with
        | .error f => .error f m
        | .ok high => .ok () (m.pairStored first second address low high) := by
  unfold storePair
  rw [run_get_bind, run_ask_bind]
  cases hlow : m.stack.locate (m.target address) with
  | error f => rfl
  | ok low =>
    dsimp only
    rw [run_ask_bind]
    cases hhigh : m.stack.locate (m.target address + 8) with
    | error f => rfl
    | ok high =>
      have hl : low.slot < m.stack.size := (Stack.locate_eq_ok_iff.mp hlow).1
      have hh : high.slot < (m.stack.set low.slot (m.bank.read first)).size := by
        rw [Stack.size_set]
        exact (Stack.locate_eq_ok_iff.mp hhigh).1
      dsimp only
      rw [run_ask_bind, pointer_of_locate hlow]
      dsimp only
      rw [run_get_bind, run_get_bind, run_writeSlot_bind hl, run_writeSlot_bind hh]
      cases hw : address.writeback with
      | false => simp [EStateM.run_bind, pairStored, hw]
      | true => simp [EStateM.run_bind, pairStored, hw, markView]

end Effect

open Effect in
/-- What execution computes part by part. -/
theorem run_execute (i : Instruction) (m : Machine) :
    (execute i).run m =
      match m.executed i with
      | .ok m' => .ok () m'
      | .error f => .error f m := by
  cases i with
  | add dst lhs rhs => rfl
  | sub dst lhs rhs => rfl
  | mov dst src => exact run_move dst src m
  | strb src address =>
    show (storeByte src address).run m = _
    rw [run_storeByte, executed]
    cases m.stack.locate (m.target address) <;> rfl
  | ldrb dst address =>
    show (loadByte dst address).run m = _
    rw [run_loadByte, executed]
    cases m.stack.locate (m.target address) <;> rfl
  | stp first second address =>
    show (storePair first second address).run m = _
    rw [run_storePair, executed]
    cases m.stack.locate (m.target address) with
    | error f => rfl
    | ok low => cases m.stack.locate (m.target address + 8) <;> rfl

/-- What becomes of a statement, whatever the machine. -/
def Outcome.ofStatement : Statement → Outcome
  | .empty => .empty
  | .unsupported mnemonic => .unsupported mnemonic
  | .instruction _ => .executed

/-- The machine after a statement. -/
def applied (m : Machine) : Statement → Except Fault Machine
  | .empty | .unsupported _ => .ok m.clearTouched
  | .instruction i => m.clearTouched.executed i

theorem run_apply (statement : Statement) (text : String) (m : Machine) :
    (apply statement text).run m =
      match m.applied statement with
      | .ok m' => .ok ⟨m'.snapshot (Text.trim text), .ofStatement statement⟩ m'
      | .error f => .error f m.clearTouched := by
  cases statement with
  | empty => rfl
  | unsupported mnemonic => rfl
  | instruction i =>
    have hexecute := run_execute i m.clearTouched
    unfold apply applied
    simp only [EStateM.run_bind, EStateM.run_modify, hexecute]
    cases m.clearTouched.executed i <;> rfl

theorem run_step (line : String) (m : Machine) :
    (step line).run m =
      match Statement.decode line with
      | .error e => .error (.decode e) m
      | .ok statement =>
        match m.applied statement with
        | .ok m' => .ok ⟨m'.snapshot (Text.trim line), .ofStatement statement⟩ m'
        | .error f => .error (.fault f) m.clearTouched := by
  unfold step EStateM.run
  cases Statement.decode line with
  | error e => rfl
  | ok statement =>
    have happly : apply statement line m = _ := run_apply statement line m
    dsimp only
    rw [happly]
    cases m.applied statement <;> rfl

end Machine

end StackSteps
