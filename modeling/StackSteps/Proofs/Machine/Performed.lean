import StackSteps.Proofs.Machine.Effects

/-!
# Instructions that come through

An instruction asks nothing but that its addresses lie in the stack. `Instruction.fault?` decides
this by the addresses alone, `Machine.performed` is the machine after an instruction that comes
through, and `executed_eq` puts execution together from the two. What an instruction does to each
part of the machine is stated of `performed`: registers change through one view at most
(`performed_of_written?_eq_some`), and slots that are not named keep their values
(`performed_slot_of_not_mem`).
-/
namespace StackSteps

namespace Instruction

/-- The fault of an instruction on a stack of so many slots. The second register of a pair goes
eight bytes above the first. -/
def fault? (slots : Nat) (target : Address → Int) : Instruction → Option Fault
  | add .. | sub .. | mov .. => none
  | strb _ address | ldrb _ address =>
    let a := target address
    if a < 0 ∨ 8 * slots ≤ a then some (.outOfBounds a) else none
  | stp _ _ address =>
    let a := target address
    if a < 0 ∨ 8 * slots ≤ a + 8 then
      some (.outOfBounds (if 0 ≤ a ∧ a < 8 * slots then a + 8 else a))
    else none

section fault?

variable {slots : Nat} {target : Address → Int} {address : Address}

theorem fault?_strb_eq_none_iff {src : View} :
    (strb src address).fault? slots target = none ↔
      0 ≤ target address ∧ target address < 8 * slots := by
  simp only [fault?, ite_eq_right_iff, reduceCtorEq, imp_false]
  omega

theorem fault?_ldrb_eq_none_iff {dst : View} :
    (ldrb dst address).fault? slots target = none ↔
      0 ≤ target address ∧ target address < 8 * slots := by
  simp only [fault?, ite_eq_right_iff, reduceCtorEq, imp_false]
  omega

theorem fault?_stp_eq_none_iff {first second : View} :
    (stp first second address).fault? slots target = none ↔
      0 ≤ target address ∧ target address + 8 < 8 * slots := by
  simp only [fault?, ite_eq_right_iff, reduceCtorEq, imp_false]
  omega

end fault?

/-- The view that an instruction writes through. -/
def written? : Instruction → Option View
  | add dst .. | sub dst .. | mov dst _ | ldrb dst _ => some dst
  | strb .. => none
  | stp _ _ address => if address.writeback then some address.base else none

/-- The slots that an instruction writes, in ascending order. -/
def writtenSlots (target : Address → Int) : Instruction → List Nat
  | add .. | sub .. | mov .. | ldrb .. => []
  | strb _ address => [(target address).toNat / 8]
  | stp _ _ address => [(target address).toNat / 8, (target address).toNat / 8 + 1]

/-- No instruction that comes through writes past the end of the stack. -/
theorem writtenSlots_lt {slots : Nat} {target : Address → Int} {i : Instruction}
    (h : i.fault? slots target = none) : ∀ k ∈ i.writtenSlots target, k < slots := by
  cases i with
  | add dst lhs rhs | sub dst lhs rhs | mov dst src | ldrb dst address =>
    exact fun k hk => absurd hk List.not_mem_nil
  | strb src address =>
    obtain ⟨hlow, hhigh⟩ := fault?_strb_eq_none_iff.mp h
    intro k hk
    have hk : k = (target address).toNat / 8 := by simpa [writtenSlots] using hk
    omega
  | stp first second address =>
    obtain ⟨hlow, hhigh⟩ := fault?_stp_eq_none_iff.mp h
    intro k hk
    have hk : k = (target address).toNat / 8 ∨ k = (target address).toNat / 8 + 1 := by
      simpa [writtenSlots] using hk
    omega

end Instruction

namespace Machine

/-- The machine after an instruction whose addresses all lie in the stack. -/
def performed (m : Machine) : Instruction → Machine
  | .add dst lhs rhs => m.assigned dst (m.bank.read lhs + m.value rhs) ("add " ++ dst.name)
  | .sub dst lhs rhs => m.assigned dst (m.bank.read lhs - m.value rhs) ("sub " ++ dst.name)
  | .mov dst src => m.moved dst src
  | .strb src address => m.byteStored src (.ofAddress (m.target address))
  | .ldrb dst address => m.byteLoaded dst address (.ofAddress (m.target address))
  | .stp first second address =>
    m.pairStored first second address (.ofAddress (m.target address))
      (.ofAddress (m.target address + 8))

theorem executed_eq (m : Machine) (i : Instruction) :
    m.executed i =
      match i.fault? m.stack.size m.target with
      | some f => .error f
      | none => .ok (m.performed i) := by
  cases i with
  | add dst lhs rhs => rfl
  | sub dst lhs rhs => rfl
  | mov dst src => rfl
  | strb src address =>
    simp only [executed, Stack.locate_eq, Instruction.fault?]
    split_ifs <;> rfl
  | ldrb dst address =>
    simp only [executed, Stack.locate_eq, Instruction.fault?]
    split_ifs <;> rfl
  | stp first second address =>
    simp only [executed, Stack.locate_eq, Instruction.fault?]
    -- the second address is only looked at when the first one lies in the stack
    by_cases hlow : m.target address < 0 ∨ 8 * m.stack.size ≤ m.target address
    · have hout : m.target address < 0 ∨ 8 * m.stack.size ≤ m.target address + 8 := by omega
      have hnot : ¬ (0 ≤ m.target address ∧ m.target address < 8 * m.stack.size) := by omega
      rw [if_pos hlow, if_pos hout, if_neg hnot]
      rfl
    · have hin : 0 ≤ m.target address ∧ m.target address < 8 * m.stack.size := by omega
      rw [if_neg hlow, if_pos hin]
      by_cases hhigh : 8 * m.stack.size ≤ m.target address + 8
      · rw [if_pos (.inr hhigh), if_pos (.inr hhigh)]
        rfl
      · have hfits : ¬ (m.target address + 8 < 0 ∨ 8 * m.stack.size ≤ m.target address + 8) := by
          omega
        have hnone : ¬ (m.target address < 0 ∨ 8 * m.stack.size ≤ m.target address + 8) := by
          omega
        rw [if_neg hfits, if_neg hnone]
        rfl

theorem executed_eq_ok_iff {m m' : Machine} {i : Instruction} :
    m.executed i = .ok m' ↔ i.fault? m.stack.size m.target = none ∧ m' = m.performed i := by
  rw [executed_eq]
  cases i.fault? m.stack.size m.target with
  | some f => simp
  | none => simp [eq_comm]

theorem executed_eq_error_iff {m : Machine} {i : Instruction} {f : Fault} :
    m.executed i = .error f ↔ i.fault? m.stack.size m.target = some f := by
  rw [executed_eq]
  cases i.fault? m.stack.size m.target <;> simp

/-- A line that comes through clears the marks, and then it does what its instruction does. -/
theorem applied_cases {m m' : Machine} {statement : Statement}
    (h : m.applied statement = .ok m') :
    (statement = .empty ∧ m' = m.clearTouched) ∨
    (∃ mnemonic, statement = .unsupported mnemonic ∧ m' = m.clearTouched) ∨
    ∃ i, statement = .instruction i ∧ i.fault? m.stack.size m.target = none ∧
      m' = m.clearTouched.performed i := by
  cases statement with
  | empty => exact .inl ⟨rfl, (Except.ok.inj h).symm⟩
  | unsupported mnemonic => exact .inr (.inl ⟨mnemonic, rfl, (Except.ok.inj h).symm⟩)
  | instruction i =>
    obtain ⟨hnone, hm'⟩ := executed_eq_ok_iff.mp h
    exact .inr (.inr ⟨i, rfl, hnone, hm'⟩)

section moved

variable (m : Machine) (dst : View) (src : Operand)

/-- But for the labels of slots, a copy is an assignment. -/
theorem moved_eq :
    m.moved dst src =
      { m.assigned dst (m.value src) ("mov " ++ src.text) with
        labels := (m.moved dst src).labels } := by
  cases src with
  | immediate imm => rfl
  | register v =>
    unfold moved
    dsimp only
    split <;> rfl

@[simp] theorem bank_moved : (m.moved dst src).bank = m.bank.write dst (m.value src) := by
  rw [moved_eq]
  rfl

@[simp] theorem stack_moved : (m.moved dst src).stack = m.stack := by
  rw [moved_eq]
  rfl

@[simp] theorem touchedViews_moved :
    (m.moved dst src).touchedViews = (m.markView dst).touchedViews := by
  rw [moved_eq]
  rfl

@[simp] theorem touchedSlots_moved : (m.moved dst src).touchedSlots = m.touchedSlots := by
  rw [moved_eq]
  rfl

@[simp] theorem lifetime_moved : (m.moved dst src).lifetime = m.lifetime := by
  rw [moved_eq]
  rfl

end moved

section pairStored

variable (m : Machine) (first second : View) (address : Address) (low high : Place)

@[simp] theorem stack_pairStored :
    (m.pairStored first second address low high).stack =
      (m.stack.set low.slot (m.bank.read first)).set high.slot (m.bank.read second) := by
  unfold pairStored
  dsimp only
  split <;> rfl

@[simp] theorem labels_pairStored :
    (m.pairStored first second address low high).labels =
      (m.labels.addSlot low.slot ("stp " ++ first.name) 1).addSlot high.slot
        ("stp " ++ second.name) 1 := by
  unfold pairStored
  dsimp only
  split <;> rfl

@[simp] theorem touchedSlots_pairStored :
    (m.pairStored first second address low high).touchedSlots =
      (m.touchedSlots.insert low.slot).insert high.slot := by
  unfold pairStored
  dsimp only
  split <;> rfl

@[simp] theorem lifetime_pairStored :
    (m.pairStored first second address low high).lifetime = m.lifetime := by
  unfold pairStored
  dsimp only
  split <;> rfl

end pairStored

variable {m : Machine} {i : Instruction}

theorem performed_of_written?_eq_none (h : i.written? = none) :
    (m.performed i).bank = m.bank ∧ (m.performed i).touchedViews = m.touchedViews := by
  cases i with
  | add dst lhs rhs => contradiction
  | sub dst lhs rhs => contradiction
  | mov dst src => contradiction
  | strb src address => exact ⟨rfl, rfl⟩
  | ldrb dst address => contradiction
  | stp first second address =>
    have hw : address.writeback = false := by simpa [Instruction.written?] using h
    simp [performed, pairStored, hw]

theorem performed_of_written?_eq_some {v : View} (h : i.written? = some v) :
    (∃ value, (m.performed i).bank = m.bank.write v value) ∧
      (m.performed i).touchedViews = (m.markView v).touchedViews := by
  cases i with
  | add dst lhs rhs =>
    cases h
    exact ⟨⟨_, rfl⟩, rfl⟩
  | sub dst lhs rhs =>
    cases h
    exact ⟨⟨_, rfl⟩, rfl⟩
  | mov dst src =>
    cases h
    exact ⟨⟨_, bank_moved m v src⟩, touchedViews_moved m v src⟩
  | strb src address => contradiction
  | ldrb dst address =>
    cases h
    exact ⟨⟨_, rfl⟩, rfl⟩
  | stp first second address =>
    obtain ⟨hw, rfl⟩ : address.writeback = true ∧ address.base = v := by
      simpa [Instruction.written?] using h
    simp only [performed, pairStored, hw, if_true]
    exact ⟨⟨_, rfl⟩, rfl⟩

/-- An instruction marks the view that it writes through, and with a low view the whole register. -/
theorem mem_touchedViews_performed {u : View} :
    u ∈ (m.performed i).touchedViews ↔
      (∃ v, i.written? = some v ∧ (u = v ∨ u = v.backing)) ∨ u ∈ m.touchedViews := by
  cases hw : i.written? with
  | none => simp [(performed_of_written?_eq_none hw).2]
  | some v =>
    obtain ⟨r, width⟩ := v
    rw [(performed_of_written?_eq_some hw).2]
    cases width with
    | x => simp [markView, View.isAlias, View.backing]
    | w => simp [markView, View.isAlias, or_assoc, or_left_comm]

theorem performed_touchedSlots (h : i.fault? m.stack.size m.target = none) :
    (m.performed i).touchedSlots =
      (i.writtenSlots m.target).foldl OrderedSet.insert m.touchedSlots := by
  cases i with
  | add dst lhs rhs => rfl
  | sub dst lhs rhs => rfl
  | mov dst src => exact touchedSlots_moved m dst src
  | strb src address => rfl
  | ldrb dst address => rfl
  | stp first second address =>
    have hlow := (Instruction.fault?_stp_eq_none_iff.mp h).1
    rw [performed, touchedSlots_pairStored, Place.slot_ofAddress_add_eight hlow]
    rfl

/-- A pair goes into two slots that lie side by side. -/
theorem stack_performed_stp {first second : View} {address : Address} (h : 0 ≤ m.target address) :
    (m.performed (.stp first second address)).stack =
      (m.stack.set ((m.target address).toNat / 8) (m.bank.read first)).set
        ((m.target address).toNat / 8 + 1) (m.bank.read second) := by
  rw [performed, stack_pairStored, Place.slot_ofAddress, Place.slot_ofAddress_add_eight h]

/-- The stack is written in the named slots. -/
theorem performed_slot_of_not_mem (h : i.fault? m.stack.size m.target = none) {j : Nat}
    (hj : j ∉ i.writtenSlots m.target) :
    (m.performed i).stack.slots[j]? = m.stack.slots[j]? := by
  cases i with
  | add dst lhs rhs => rfl
  | sub dst lhs rhs => rfl
  | mov dst src => rw [performed, stack_moved]
  | strb src address =>
    have hne : (m.target address).toNat / 8 ≠ j := by
      simpa [Instruction.writtenSlots, eq_comm] using hj
    exact List.getElem?_set_ne hne
  | ldrb dst address => rfl
  | stp first second address =>
    have hlow := (Instruction.fault?_stp_eq_none_iff.mp h).1
    obtain ⟨hfirst, hsecond⟩ :
        (m.target address).toNat / 8 ≠ j ∧ (m.target address).toNat / 8 + 1 ≠ j := by
      simpa [Instruction.writtenSlots, eq_comm] using hj
    rw [stack_performed_stp hlow, Stack.slots_set, List.getElem?_set_ne hsecond, Stack.slots_set,
      List.getElem?_set_ne hfirst]

@[simp] theorem size_performed (m : Machine) (i : Instruction) :
    (m.performed i).stack.size = m.stack.size := by
  cases i <;> simp [performed, assigned, markView, byteStored, byteLoaded]

/-- Only slots of the stack are marked. -/
theorem lt_size_of_mem_touchedSlots_performed (hm : ∀ k ∈ m.touchedSlots, k < m.stack.size)
    (h : i.fault? m.stack.size m.target = none) :
    ∀ k ∈ (m.performed i).touchedSlots, k < (m.performed i).stack.size := by
  intro k hk
  rw [performed_touchedSlots h, OrderedSet.mem_foldl_insert] at hk
  rw [size_performed]
  rcases hk with hk | hk
  · exact Instruction.writtenSlots_lt h k hk
  · exact hm k hk

@[simp] theorem lifetime_performed (m : Machine) (i : Instruction) :
    (m.performed i).lifetime = m.lifetime := by
  cases i <;> simp [performed, assigned, markView, byteStored, byteLoaded]

end Machine

end StackSteps
