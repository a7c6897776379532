import StackSteps.Proofs.Machine.Bounds

/-!
# The bytes of the stack

An instruction stores a byte at an address or leaves the byte there alone (`byteAt_performed`). A
run on a new machine therefore leaves at each address the last byte that was stored there, zero if
there is none, and that byte is what a load from the address finds (`byte_after_instructions`).
-/
namespace StackSteps

namespace Machine

/-- The byte that an instruction stores at an address. A byte goes to its own address alone, and a
pair fills two slots. -/
def stored? (m : Machine) (a : Nat) : Instruction → Option UInt8
  | .add .. | .sub .. | .mov .. | .ldrb .. => none
  | .strb src address =>
    if m.target address = a then some (Word.byte (m.bank.read src) 0) else none
  | .stp first second address =>
    let slot := (m.target address).toNat / 8
    if a / 8 = slot then some (Word.byte (m.bank.read first) (a % 8))
    else if a / 8 = slot + 1 then some (Word.byte (m.bank.read second) (a % 8))
    else none

/-- The bytes that instructions store at an address, each instruction from the machine that the
ones before it leave. -/
def storedAt (m : Machine) (a : Nat) : List Instruction → List UInt8
  | [] => []
  | i :: rest => (m.stored? a i).toList ++ (after (execute i) m).storedAt a rest

variable {m : Machine} {i : Instruction} {a : Nat}

theorem byteAt_performed (h : i.fault? m.stack.size m.target = none) (a : Nat) :
    (m.performed i).stack.byteAt a = (m.stored? a i).getD (m.stack.byteAt a) := by
  cases i with
  | add dst lhs rhs => rfl
  | sub dst lhs rhs => rfl
  | mov dst src => rw [performed, stack_moved]; rfl
  | ldrb dst address => rfl
  | strb src address =>
    obtain ⟨hlow, hhigh⟩ := Instruction.fault?_strb_eq_none_iff.mp h
    have hslot : (m.target address).toNat / 8 < m.stack.size := by omega
    have hbyte : (m.target address).toNat % 8 < 8 := Nat.mod_lt _ (by decide)
    -- the slot is written whole, with one byte of it exchanged
    have hset := Stack.byteAt_setByte hslot hbyte (Word.byte (m.bank.read src) 0) a
    rw [performed, byteStored, Place.lane_ofAddress, Place.slot_ofAddress, hset, stored?]
    by_cases ha : m.target address = a
    · rw [if_pos (by omega), if_pos ha]
      rfl
    · rw [if_neg (by omega), if_neg ha]
      rfl
  | stp first second address =>
    obtain ⟨hlow, hhigh⟩ := Instruction.fault?_stp_eq_none_iff.mp h
    have hfirst : (m.target address).toNat / 8 < m.stack.size := by omega
    have hsecond : (m.target address).toNat / 8 + 1 < m.stack.size := by omega
    rw [stack_performed_stp hlow, Stack.byteAt_set (by rwa [Stack.size_set]),
      Stack.byteAt_set hfirst, stored?]
    by_cases ha : a / 8 = (m.target address).toNat / 8
    · rw [if_neg (by omega), if_pos ha.symm, if_pos ha]
      rfl
    · rw [if_neg ha]
      by_cases ha' : a / 8 = (m.target address).toNat / 8 + 1
      · rw [if_pos ha'.symm, if_pos ha']
        rfl
      · rw [if_neg (Ne.symm ha'), if_neg (Ne.symm ha), if_neg ha']
        rfl

theorem forM_cons_eq_ok_iff {is : List Instruction} {m' : Machine} :
    (forM (i :: is) execute).run m = .ok () m' ↔
      i.fault? m.stack.size m.target = none ∧
        (forM is execute).run (m.performed i) = .ok () m' := by
  rw [List.forM_cons, EStateM.run_bind, run_execute, executed_eq]
  cases i.fault? m.stack.size m.target <;> simp

theorem size_of_forM {is : List Instruction} {m m' : Machine}
    (h : (forM is execute).run m = .ok () m') : m'.stack.size = m.stack.size := by
  induction is generalizing m with
  | nil =>
    cases h
    rfl
  | cons i is ih =>
    obtain ⟨-, hrest⟩ := forM_cons_eq_ok_iff.mp h
    rw [ih hrest, size_performed]

theorem byteAt_of_forM {is : List Instruction} {m m' : Machine}
    (h : (forM is execute).run m = .ok () m') (a : Nat) :
    m'.stack.byteAt a = (m.storedAt a is).getLast?.getD (m.stack.byteAt a) := by
  induction is generalizing m with
  | nil =>
    cases h
    rfl
  | cons i is ih =>
    obtain ⟨hnone, hrest⟩ := forM_cons_eq_ok_iff.mp h
    have hafter : after (execute i) m = m.performed i :=
      after_of_run_ok (execute_eq_ok_iff.mpr ⟨hnone, rfl⟩)
    rw [ih hrest, byteAt_performed hnone, storedAt, hafter, List.getLast?_append]
    -- a byte stored later hides the one that this instruction stores
    cases ((m.performed i).storedAt a is).getLast? with
    | some b => rfl
    | none => cases m.stored? a i <;> rfl

/-- A byte fits every view. -/
theorem cut_toUInt64 (width : Width) (b : UInt8) : Bank.cut width b.toUInt64 = b.toUInt64 := by
  cases width with
  | x => rfl
  | w =>
    have hb := b.toNat_lt
    rw [Bank.cut, ← UInt64.toNat_inj, Word.toNat_lowHalf, UInt8.toNat_toUInt64]
    omega

theorem load_eq_byteAt {address : Address} (ha : a < 8 * m.stack.size)
    (htarget : m.target address = a) (dst : View) :
    ∃ m', (execute (.ldrb dst address)).run m = .ok () m' ∧
      m'.bank.read dst = (m.stack.byteAt a).toUInt64 := by
  have hbank : (m.performed (.ldrb dst address)).bank =
      m.bank.write dst (m.stack.byteAt a).toUInt64 := by
    rw [performed, htarget, byteLoaded, Place.lane_ofAddress]
    rfl
  refine ⟨m.performed (.ldrb dst address), execute_eq_ok_iff.mpr ⟨?_, rfl⟩, ?_⟩
  · rw [Instruction.fault?_ldrb_eq_none_iff]
    omega
  · rw [hbank, Bank.read_write_self, cut_toUInt64]

/-- After instructions that all came through on a new machine, each address of the stack holds the
last byte that was stored there, and zero if there is none. A load from the address finds it. -/
theorem byte_after_instructions {slots : Nat} {m₀ m : Machine} (h₀ : MadeWith slots m₀)
    {is : List Instruction} (h : (forM is execute).run m₀ = .ok () m) {a : Nat}
    (ha : a < 8 * slots) :
    let b := (m₀.storedAt a is).getLast?.getD 0
    (m.stack.locate a >>= m.stack.readByte) = .ok b ∧
    ∀ (dst : View) (address : Address),
      ((m.bank.read address.base).toNat : Int) + address.offset.toInt = a →
      ∃ m', (execute (.ldrb dst address)).run m = .ok () m' ∧ m'.bank.read dst = b.toUInt64 := by
  intro b
  have hsize : m.stack.size = slots := (size_of_forM h).trans h₀.size
  have hbyte : m.stack.byteAt a = b := by
    obtain ⟨stack, bank, hstack, rfl⟩ := h₀.eq
    rw [byteAt_of_forM h, Stack.byteAt_start hstack]
  rw [← hsize] at ha
  rw [← hbyte]
  exact ⟨Stack.locate_readByte ha, fun dst address htarget => load_eq_byteAt ha htarget dst⟩

/-- A pair stored at an address inside a slot fills that slot and the next one, with the base as it
was before it is moved. A byte stored over the pair hides one byte of it. -/
theorem byte_after_pair_and_byte :
    let is : List Instruction := [
      .mov (.whole (.general 1)) (.immediate ⟨0x1122334455667788, .hexadecimal⟩),
      .stp (.whole .sp) (.whole (.general 1)) ⟨.whole .sp, -12, true⟩,
      .strb (.low (.general 1)) ⟨.whole .sp, 8, false⟩]
    ∃ m₀ m, MadeWith 16 m₀ ∧ (forM is execute).run m₀ = .ok () m ∧
      m₀.storedAt 104 is = [120] ∧ (m.stack.locate 104 >>= m.stack.readByte) = .ok 120 ∧
      m₀.storedAt 116 is = [0x44, 0x88] ∧
        (m.stack.locate 116 >>= m.stack.readByte) = .ok 0x88 := by
  intro is
  obtain ⟨m₀, m, hstart, hrun⟩ : ∃ m₀ m, start 16 = .ok m₀ ∧ (forM is execute).run m₀ = .ok () m :=
    ⟨_, _, rfl, rfl⟩
  have hstored : (start 16).map (fun m => (m.storedAt 104 is, m.storedAt 116 is)) =
      .ok ([120], [0x44, 0x88]) := by
    decide +kernel
  rw [hstart] at hstored
  obtain ⟨hfirst, hsecond⟩ := Prod.mk.inj (Except.ok.inj hstored)
  refine ⟨m₀, m, .inl hstart, hrun, hfirst, ?_, hsecond, ?_⟩
  · have h := (byte_after_instructions (.inl hstart) hrun (show 104 < 8 * 16 by decide)).1
    rwa [hfirst] at h
  · have h := (byte_after_instructions (.inl hstart) hrun (show 116 < 8 * 16 by decide)).1
    rwa [hsecond] at h

end Machine

end StackSteps
