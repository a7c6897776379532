import StackSteps.Proofs.Machine.LowViews
import StackSteps.Proofs.Register.Views

/-!
# The store of a pair

Two registers go into the slot that the address lies in and into the next one, and with writeback
the base comes to hold the address, whichever of the registers coincide (`execute_stp`). A base with
a low view has room for the address since the largest stack ends far below two to the thirty-second
power.
-/
namespace StackSteps.Machine

variable {m : Machine} {first second : View} {address : Address} {a : Nat}

/-- Without writeback an address is no more than read. -/
theorem bank_performed_stp (hwriteback : address.writeback = false) :
    (m.performed (.stp first second address)).bank = m.bank := by
  rw [bank_performed, Instruction.written?, hwriteback]
  rfl

theorem bank_performed_stp_writeback (htarget : m.target address = a)
    (hwriteback : address.writeback = true) :
    (m.performed (.stp first second address)).bank =
      m.bank.write address.base (UInt64.ofNat a) := by
  rw [bank_performed, Instruction.written?, if_pos hwriteback]
  dsimp only [result]
  rw [htarget, Int.toNat_natCast]

/-- An address below the end of a stack is read back through any view that it was written
through. -/
theorem toNat_read_write_address (ha : a < 8 * m.stack.size) (v : View) :
    ((m.bank.write v (UInt64.ofNat a)).read v).toNat = a := by
  have hsize : m.stack.size ≤ 4096 := m.stack.size_le
  have hmodulus := v.width.le_modulus
  have hword : (UInt64.ofNat a).toNat = a := by
    rw [UInt64.toNat_ofNat']
    exact Nat.mod_eq_of_lt (by omega)
  rw [Bank.toNat_read_write_self, hword]
  exact Nat.mod_eq_of_lt (by omega)

/-- A pair whose address is the integer `a` and whose second slot lies in the stack is stored: the
slot of the address holds the first register, the next slot holds the second, both with the values
from before, and no other slot has changed. Without writeback no register has changed. With
writeback the base reads `a`, and nothing has changed in the registers but what the base shows. -/
theorem execute_stp (m : Machine) (first second : View) (address : Address) {a : Nat}
    (htarget : ((m.bank.read address.base).toNat : Int) + address.offset.toInt = a)
    (hfits : a + 8 < 8 * m.stack.size) :
    ∃ m', (execute (.stp first second address)).run m = .ok () m' ∧
      m'.stack.slots[a / 8]? = some (m.bank.read first) ∧
      m'.stack.slots[a / 8 + 1]? = some (m.bank.read second) ∧
      (∀ k, k ≠ a / 8 → k ≠ a / 8 + 1 → m'.stack.slots[k]? = m.stack.slots[k]?) ∧
      (address.writeback = false → m'.bank = m.bank) ∧
      (address.writeback = true →
        (m'.bank.read address.base).toNat = a ∧
          Bank.SameBut address.base m.bank m'.bank) := by
  have htarget : m.target address = a := htarget
  have hrun : (execute (.stp first second address)).run m =
      .ok () (m.performed (.stp first second address)) := by
    refine execute_eq_ok_iff.mpr ⟨Instruction.fault?_stp_eq_none_iff.mpr ?_, rfl⟩
    omega
  have hstack : (m.performed (.stp first second address)).stack =
      (m.stack.set (a / 8) (m.bank.read first)).set (a / 8 + 1) (m.bank.read second) := by
    rw [stack_performed_stp (by omega), htarget, Int.toNat_natCast]
  have hsize : m.stack.size = m.stack.slots.length := rfl
  have hlow : a / 8 < m.stack.slots.length := by omega
  have hhigh : a / 8 + 1 < m.stack.slots.length := by omega
  refine ⟨_, hrun, ?_, ?_, ?_, bank_performed_stp, fun hwriteback => ?_⟩
  · simp [hstack, hlow]
  · simp [hstack, hhigh]
  · intro k hfirst hsecond
    simp [hstack, hfirst.symm, hsecond.symm]
  · rw [bank_performed_stp_writeback htarget hwriteback]
    exact ⟨toNat_read_write_address (by omega) address.base, Bank.sameBut_write ..⟩

/-- The base is stored whole and by its low half, both from before, at an address inside the third
slot. It then reads the address through the low view, and its upper half has stayed. -/
theorem stp_of_its_low_base :
    let base := View.low (.general 1)
    let address : Address := ⟨base, -12, true⟩
    ∃ m, seeded 16 [(.general 1, 0xffffffff00000020)] = .ok m ∧
      ((m.bank.read base).toNat : Int) + address.offset.toInt = (20 : Nat) ∧
      20 + 8 < 8 * m.stack.size ∧
      ∃ m', (execute (.stp (.whole (.general 1)) base address)).run m = .ok () m' ∧
        m'.stack.slots[2]? = some 0xffffffff00000020 ∧ m'.stack.slots[3]? = some 0x20 ∧
        (m'.bank.read base).toNat = 20 ∧
        Word.upperHalf (m'.bank.get (.general 1)) = 0xffffffff := by
  intro base address
  obtain ⟨m, hm⟩ : ∃ m, seeded 16 [(.general 1, 0xffffffff00000020)] = .ok m := ⟨_, rfl⟩
  have hstate : (seeded 16 [(.general 1, 0xffffffff00000020)]).map
      (fun m => (m.bank.get (.general 1), m.stack.size)) = .ok (0xffffffff00000020, 16) := rfl
  rw [hm] at hstate
  obtain ⟨hget, hsize⟩ := Prod.mk.inj (Except.ok.inj hstate)
  have hwhole : m.bank.read (.whole (.general 1)) = 0xffffffff00000020 := hget
  have hlow : m.bank.read base = 0x20 := by
    simp [base, Bank.read, Bank.cut, hget, Word.lowHalf]
  have htarget : ((m.bank.read base).toNat : Int) + address.offset.toInt = (20 : Nat) := by
    rw [hlow]
    rfl
  have hfits : 20 + 8 < 8 * m.stack.size := by omega
  obtain ⟨m', hrun, hfirst, hsecond, -, -, hbase⟩ :=
    execute_stp m (.whole (.general 1)) base address htarget hfits
  obtain ⟨hread, hsame⟩ := hbase rfl
  rw [hwhole] at hfirst
  rw [hlow] at hsecond
  refine ⟨m, hm, htarget, hfits, m', hrun, hfirst, hsecond, hread, ?_⟩
  have hupper : Word.upperHalf (m'.bank.get (.general 1)) =
      Word.upperHalf (m.bank.get (.general 1)) := hsame.upper rfl
  rw [hupper, hget]
  rfl

end StackSteps.Machine
