import StackSteps.Proofs.Machine.Bounds

/-!
# Programs that name low halves

An instruction sees the registers through the views that it names and changes them through one of
these at most (`Machine.performed_withBank`, `Machine.bank_performed`). Instructions that name of
every general register the low half alone cannot tell two machines apart that differ in upper
halves, however many of them are executed and whether or not they fail, and they leave the upper
halves as they are (`Machine.agreeLow_of_narrow`).
-/
namespace StackSteps

/-- Whether a view shows no upper half of a general register. -/
def View.Narrow (v : View) : Prop :=
  v.register.isPointer = false → v.width = .w

/-- The views that an operand names. -/
def Operand.views : Operand → List View
  | register view => [view]
  | immediate _ => []

namespace Instruction

/-- The views that an instruction names, for what it writes, what it reads and where an address
starts. -/
def views : Instruction → List View
  | add dst lhs rhs | sub dst lhs rhs => dst :: lhs :: rhs.views
  | mov dst src => dst :: src.views
  | strb register address | ldrb register address => [register, address.base]
  | stp first second address => [first, second, address.base]

/-- Whether an instruction names of general registers the low halves alone. -/
def Narrow (i : Instruction) : Prop :=
  ∀ v ∈ i.views, v.Narrow

theorem mem_views_of_written? {i : Instruction} {v : View} (h : i.written? = some v) :
    v ∈ i.views := by
  cases i with
  | add dst lhs rhs | sub dst lhs rhs | mov dst src | ldrb dst address =>
    cases h
    exact List.mem_cons_self
  | strb src address => contradiction
  | stp first second address =>
    obtain ⟨-, rfl⟩ : address.writeback = true ∧ address.base = v := by
      simpa [written?] using h
    simp [views]

end Instruction

namespace Bank

/-- The value of a register of which a view of the width is written. -/
def patch : Width → Word → Word → Word
  | .x, _, value => value
  | .w, old, value => Word.withLow old value

theorem get_write (b : Bank) (v : View) (value : Word) (r : Register) :
    (b.write v value).get r =
      if v.register = r then patch v.width (b.get r) value else b.get r := by
  obtain ⟨s, width⟩ := v
  by_cases h : s = r
  · subst h
    cases width <;> simp [write, patch]
  · rw [if_neg h, get_write_of_ne b h]

@[simp] theorem lowHalf_patch (width : Width) (old value : Word) :
    Word.lowHalf (patch width old value) = Word.lowHalf value := by
  cases width <;> simp [patch]

/-- Banks that differ in the upper halves of general registers at most. -/
structure AgreeLow (b c : Bank) : Prop where
  pointer : ∀ r, r.isPointer = true → b.get r = c.get r
  low : ∀ number, Word.lowHalf (b.get (.general number)) = Word.lowHalf (c.get (.general number))

/-- Banks with the same upper halves of general registers. -/
def SameUpper (b c : Bank) : Prop :=
  ∀ number, Word.upperHalf (b.get (.general number)) = Word.upperHalf (c.get (.general number))

variable {b c : Bank} {v : View}

theorem AgreeLow.read (h : b.AgreeLow c) (hv : v.Narrow) : b.read v = c.read v := by
  obtain ⟨r, width⟩ := v
  cases r with
  | general number =>
    obtain rfl : width = .w := hv rfl
    exact h.low number
  | sp => exact congrArg (cut width) (h.pointer .sp rfl)
  | fp => exact congrArg (cut width) (h.pointer .fp rfl)

/-- The same value goes into both banks, through whatever view. -/
theorem AgreeLow.write (h : b.AgreeLow c) (v : View) (value : Word) :
    (b.write v value).AgreeLow (c.write v value) where
  pointer r hr := by
    rw [get_write, get_write, h.pointer r hr]
  low number := by
    rw [get_write, get_write]
    split
    · rw [lowHalf_patch, lowHalf_patch]
    · exact h.low number

theorem SameUpper.write (h : b.SameUpper c) (hv : v.Narrow) (value : Word) :
    (b.write v value).SameUpper c := by
  intro number
  rw [get_write]
  split
  · rename_i hr
    have hw : v.width = .w := hv (by rw [hr]; rfl)
    rw [hw, patch, Word.upperHalf_withLow]
    exact h number
  · exact h number

end Bank

namespace Machine

/-- The value that an instruction writes through the view that it writes through, if it writes
one. -/
def result (m : Machine) : Instruction → Word
  | .add _ lhs rhs => m.bank.read lhs + m.value rhs
  | .sub _ lhs rhs => m.bank.read lhs - m.value rhs
  | .mov _ src => m.value src
  | .ldrb _ address =>
    let p := Place.ofAddress (m.target address)
    (Word.byte (m.stack.slot p.slot) p.lane).toUInt64
  | .stp _ _ address => UInt64.ofNat (m.target address).toNat
  | .strb .. => 0

theorem bank_performed (m : Machine) (i : Instruction) :
    (m.performed i).bank =
      match i.written? with
      | none => m.bank
      | some v => m.bank.write v (m.result i) := by
  cases i with
  | add dst lhs rhs => rfl
  | sub dst lhs rhs => rfl
  | mov dst src => exact bank_moved m dst src
  | strb src address => rfl
  | ldrb dst address => rfl
  | stp first second address =>
    simp only [performed, pairStored, Instruction.written?]
    cases address.writeback <;> rfl

section reads

variable {m n : Machine} {i : Instruction}

theorem value_congr {o : Operand} (h : ∀ v ∈ o.views, n.bank.read v = m.bank.read v) :
    n.value o = m.value o := by
  cases o with
  | register v => exact h v (by simp [Operand.views])
  | immediate imm => rfl

theorem target_congr {address : Address}
    (h : n.bank.read address.base = m.bank.read address.base) :
    n.target address = m.target address := by
  rw [target, target, h]

theorem fault?_congr (hsize : n.stack.size = m.stack.size)
    (h : ∀ v ∈ i.views, n.bank.read v = m.bank.read v) :
    i.fault? n.stack.size n.target = i.fault? m.stack.size m.target := by
  cases i with
  | add dst lhs rhs | sub dst lhs rhs | mov dst src => rfl
  | strb register address | ldrb register address | stp first second address =>
    have htarget := target_congr (h address.base (by simp [Instruction.views]))
    simp only [Instruction.fault?, htarget, hsize]

/-- The value that is written depends on the named views and, for a load, on the byte. -/
theorem result_congr (h : ∀ v ∈ i.views, n.bank.read v = m.bank.read v)
    (hload : ∀ dst address, i = .ldrb dst address →
      let p := Place.ofAddress (m.target address)
      Word.byte (n.stack.slot p.slot) p.lane = Word.byte (m.stack.slot p.slot) p.lane) :
    n.result i = m.result i := by
  cases i with
  | add dst lhs rhs | sub dst lhs rhs =>
    have hlhs := h lhs (by simp [Instruction.views])
    have hrhs : n.value rhs = m.value rhs :=
      value_congr fun v hv => h v (by simp [Instruction.views, hv])
    simp only [result, hlhs, hrhs]
  | mov dst src => exact value_congr fun v hv => h v (by simp [Instruction.views, hv])
  | strb src address => rfl
  | ldrb dst address =>
    have htarget := target_congr (h address.base (by simp [Instruction.views]))
    simp only [result, htarget, hload dst address rfl]
  | stp first second address =>
    have htarget := target_congr (h address.base (by simp [Instruction.views]))
    simp only [result, htarget]

end reads

/-- The machine with other values in its registers. -/
def withBank (m : Machine) (bank : Bank) : Machine :=
  { m with bank }

@[simp] theorem bank_withBank (m : Machine) (b : Bank) : (m.withBank b).bank = b := rfl

@[simp] theorem stack_withBank (m : Machine) (b : Bank) : (m.withBank b).stack = m.stack := rfl

section withBank

variable {m : Machine} {b : Bank} {i : Instruction}

theorem result_withBank (h : ∀ v ∈ i.views, b.read v = m.bank.read v) :
    (m.withBank b).result i = m.result i :=
  result_congr h fun _ _ _ => rfl

/-- Registers that look the same through the named views make a difference to the registers
alone. -/
theorem performed_withBank (h : ∀ v ∈ i.views, b.read v = m.bank.read v) :
    (m.withBank b).performed i = (m.performed i).withBank ((m.withBank b).performed i).bank := by
  cases i with
  | add dst lhs rhs | sub dst lhs rhs => rfl
  | mov dst src =>
    -- the value shows in the number of the slot that is named after the destination
    have hvalue : (m.withBank b).value src = m.value src := result_withBank h
    simp only [performed, moved, hvalue]
    cases src with
    | immediate imm => rfl
    | register v =>
      dsimp only
      split <;> rfl
  | strb src address =>
    have htarget : (m.withBank b).target address = m.target address :=
      target_congr (h address.base (by simp [Instruction.views]))
    have hsrc := h src (by simp [Instruction.views])
    simp only [performed, byteStored, htarget, bank_withBank, hsrc]
    rfl
  | ldrb dst address =>
    have htarget : (m.withBank b).target address = m.target address :=
      target_congr (h address.base (by simp [Instruction.views]))
    simp only [performed, byteLoaded, htarget]
    rfl
  | stp first second address =>
    have htarget : (m.withBank b).target address = m.target address :=
      target_congr (h address.base (by simp [Instruction.views]))
    have hfirst := h first (by simp [Instruction.views])
    have hsecond := h second (by simp [Instruction.views])
    simp only [performed, pairStored, htarget, bank_withBank, hfirst, hsecond]
    split <;> rfl

end withBank

/-- Machines that differ in the upper halves of general registers at most. -/
structure AgreeLow (m n : Machine) : Prop where
  bank : m.bank.AgreeLow n.bank
  stack : m.stack = n.stack
  labels : m.labels = n.labels
  touchedSlots : m.touchedSlots = n.touchedSlots
  touchedViews : m.touchedViews = n.touchedViews
  lifetime : m.lifetime = n.lifetime

/-- The fault with which an instruction fails on a machine, if it fails. -/
def failure? (m : Machine) (i : Instruction) : Option Fault :=
  match (execute i).run m with
  | .ok _ _ => none
  | .error f _ => some f

/-- What each of a list of instructions fails with, if it fails, where each is executed on the
machine that the ones before it leave, also those that failed. -/
def failures (m : Machine) : List Instruction → List (Option Fault)
  | [] => []
  | i :: rest => m.failure? i :: (after (execute i) m).failures rest

section agreeLow

variable {m n : Machine} {i : Instruction}

theorem failure?_eq (m : Machine) (i : Instruction) :
    m.failure? i = i.fault? m.stack.size m.target := by
  rw [failure?, run_execute, executed_eq]
  cases i.fault? m.stack.size m.target <;> rfl

theorem after_execute_eq (m : Machine) (i : Instruction) :
    after (execute i) m = if m.failure? i = none then m.performed i else m := by
  rw [failure?_eq, after, run_execute, executed_eq]
  cases i.fault? m.stack.size m.target <;> rfl

theorem AgreeLow.eq_withBank (h : m.AgreeLow n) : n = m.withBank n.bank := by
  obtain ⟨bank, stack, labels, touchedSlots, touchedViews, lifetime⟩ := n
  obtain ⟨-, rfl, rfl, rfl, rfl, rfl⟩ := h
  rfl

theorem AgreeLow.performed (h : m.AgreeLow n) (hi : i.Narrow) :
    (m.performed i).AgreeLow (n.performed i) := by
  have hread : ∀ v ∈ i.views, n.bank.read v = m.bank.read v :=
    fun v hv => (h.bank.read (hi v hv)).symm
  have hbank : (m.performed i).bank.AgreeLow (n.performed i).bank := by
    have hresult : n.result i = m.result i := by
      rw [h.eq_withBank]
      exact result_withBank hread
    rw [bank_performed, bank_performed, hresult]
    cases i.written? with
    | none => exact h.bank
    | some v => exact h.bank.write v _
  have hn := performed_withBank hread
  rw [← h.eq_withBank] at hn
  rw [hn]
  exact ⟨hbank, rfl, rfl, rfl, rfl, rfl⟩

theorem AgreeLow.failure? (h : m.AgreeLow n) (hi : i.Narrow) : n.failure? i = m.failure? i := by
  have hread : ∀ v ∈ i.views, n.bank.read v = m.bank.read v :=
    fun v hv => (h.bank.read (hi v hv)).symm
  rw [failure?_eq, failure?_eq]
  exact fault?_congr (congrArg Stack.size h.stack.symm) hread

theorem AgreeLow.after_execute (h : m.AgreeLow n) (hi : i.Narrow) :
    (after (execute i) m).AgreeLow (after (execute i) n) := by
  rw [after_execute_eq, after_execute_eq, h.failure? hi]
  split
  · exact h.performed hi
  · exact h

theorem sameUpper_after_execute {b : Bank} (h : m.bank.SameUpper b) (hi : i.Narrow) :
    (after (execute i) m).bank.SameUpper b := by
  rw [after_execute_eq]
  split
  · rw [bank_performed]
    cases hw : i.written? with
    | none => exact h
    | some v => exact h.write (hi v (Instruction.mem_views_of_written? hw)) _
  · exact h

variable {is : List Instruction}

theorem AgreeLow.failures (h : m.AgreeLow n) (his : ∀ i ∈ is, i.Narrow) :
    n.failures is = m.failures is := by
  induction is generalizing m n with
  | nil => rfl
  | cons i is ih =>
    obtain ⟨hi, his⟩ := List.forall_mem_cons.mp his
    rw [Machine.failures, Machine.failures, h.failure? hi, ih (h.after_execute hi) his]

theorem AgreeLow.afterCalls (h : m.AgreeLow n) (his : ∀ i ∈ is, i.Narrow) :
    (m.afterCalls (is.map .execute)).AgreeLow (n.afterCalls (is.map .execute)) := by
  induction is generalizing m n with
  | nil => exact h
  | cons i is ih =>
    obtain ⟨hi, his⟩ := List.forall_mem_cons.mp his
    exact ih (h.after_execute hi) his

theorem sameUpper_afterCalls {b : Bank} (h : m.bank.SameUpper b) (his : ∀ i ∈ is, i.Narrow) :
    (m.afterCalls (is.map .execute)).bank.SameUpper b := by
  induction is generalizing m with
  | nil => exact h
  | cons i is ih =>
    obtain ⟨hi, his⟩ := List.forall_mem_cons.mp his
    exact ih (sameUpper_after_execute h hi) his

/-- Instructions that name of general registers the low halves alone do the same on two machines
that differ in the upper halves of general registers at most: each fails on both with the same fault
or on neither, the machines differ in nothing else after each, and none changes an upper half. -/
theorem agreeLow_of_narrow (h : m.AgreeLow n) (his : ∀ i ∈ is, i.Narrow) :
    n.failures is = m.failures is ∧
    ∀ k,
      let m' := m.afterCalls ((is.take k).map .execute)
      let n' := n.afterCalls ((is.take k).map .execute)
      m'.AgreeLow n' ∧ m'.bank.SameUpper m.bank ∧ n'.bank.SameUpper n.bank := by
  refine ⟨h.failures his, fun k => ?_⟩
  have htake : ∀ i ∈ is.take k, i.Narrow := fun i hi => his i (List.mem_of_mem_take hi)
  exact ⟨h.afterCalls htake, sameUpper_afterCalls (fun _ => rfl) htake,
    sameUpper_afterCalls (fun _ => rfl) htake⟩

end agreeLow

/-- A number above the low half of `x0` is not seen by an addition, the store of a pair with
writeback and a load that fails, and it is still there afterwards. -/
theorem agreeLow_after_pair_and_load :
    let w0 : View := .low (.general 0)
    let w1 : View := .low (.general 1)
    let is : List Instruction := [.add w1 w0 (.immediate ⟨112, .decimal⟩),
      .stp w0 w1 ⟨w0, 16, true⟩, .ldrb w1 ⟨w0, 1000, false⟩]
    ∃ m₀ m n, start 16 = .ok m₀ ∧ m = m₀.seed (.general 0) 0x1111111100000008 ∧
      n = m₀.seed (.general 0) 8 ∧ m.AgreeLow n ∧ (∀ i ∈ is, i.Narrow) ∧
      n.failures is = [none, none, some (.outOfBounds 1024)] ∧ n.failures is = m.failures is ∧
      (m.afterCalls (is.map .execute)).AgreeLow (n.afterCalls (is.map .execute)) ∧
      Word.upperHalf ((m.afterCalls (is.map .execute)).bank.get (.general 0)) = 0x11111111 := by
  intro w0 w1 is
  have hfails : (start 16).map (fun m => (m.seed (.general 0) 8).failures is) =
      .ok [none, none, some (.outOfBounds 1024)] := by
    decide +kernel
  obtain ⟨m₀, hm₀, hfails⟩ := map_eq_ok_iff.mp hfails
  have hagree : (m₀.seed (.general 0) 0x1111111100000008).AgreeLow (m₀.seed (.general 0) 8) := by
    refine ⟨⟨fun r hr => ?_, fun number => ?_⟩, rfl, rfl, rfl, rfl, rfl⟩
    · cases r <;> simp_all [seed, Register.isPointer]
    · by_cases h : number = 0
      · subst h
        simp [seed, Word.lowHalf]
      · simp [seed, Ne.symm h]
  have hnarrow : ∀ i ∈ is, i.Narrow := by
    simp [is, w0, w1, Instruction.Narrow, Instruction.views, Operand.views, View.Narrow]
  obtain ⟨hsame, hsteps⟩ := agreeLow_of_narrow hagree hnarrow
  obtain ⟨hafter, hupper, -⟩ := hsteps 3
  refine ⟨m₀, _, _, hm₀, rfl, rfl, hagree, hnarrow, hfails, hsame, hafter, ?_⟩
  refine (hupper 0).trans ?_
  simp [seed, Word.upperHalf]

end Machine

end StackSteps
