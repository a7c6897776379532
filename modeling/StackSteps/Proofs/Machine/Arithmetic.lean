import StackSteps.Proofs.Machine.StoredBytes
import StackSteps.Proofs.Register.Views

/-!
# Exact sums and differences

An addition or subtraction gives the sum or difference of the integers that its operands stand for,
modulo the number of values that the destination has, whatever the widths of the operands and also
where the destination is one of them. Nothing else changes but the destination's labels and marks
(`sums_and_differences`), and so a subtraction undoes the addition before it.
-/
namespace StackSteps.Machine

/-- The integer that an operand stands for: what a view shows, or the value of an immediate with its
sign. -/
def number (m : Machine) : Operand → Int
  | .register v => ((m.bank.get v.register).toNat % v.width.modulus : Nat)
  | .immediate imm => imm.value

/-- An integer has been written through a view, modulo the number of values that the view has, and
else no register, no slot and no label of a slot has changed. -/
structure Wrote (m : Machine) (dst : View) (n : Int) (m' : Machine) : Prop where
  read : ((m'.bank.read dst).toNat : Int) = n % dst.width.modulus
  bank : Bank.SameBut dst m.bank m'.bank
  stack : m'.stack = m.stack
  slotLabels : ∀ k, m'.labels.slot k = m.labels.slot k

section result

variable {m m' : Machine} {dst lhs : View} {rhs : Operand} {n : Int}

theorem toNat_read (m : Machine) (v : View) :
    ((m.bank.read v).toNat : Int) = m.number (.register v) := by
  rw [Bank.toNat_read, number]

/-- The value of an operand is its integer as a word. -/
theorem toNat_value (m : Machine) (o : Operand) :
    ((m.value o).toNat : Int) = m.number o % 18446744073709551616 := by
  cases o with
  | immediate imm => exact imm.toNat_bits
  | register v =>
    have hlt := (m.bank.read v).toNat_lt
    have hread := m.toNat_read v
    rw [value, ← hread]
    omega

theorem wrote_assigned {value : Word} (h : (value.toNat : Int) = n % 18446744073709551616)
    (label : String) : m.Wrote dst n (m.assigned dst value label) where
  read := by
    have hdvd : (dst.width.modulus : Int) ∣ 18446744073709551616 := by
      exact_mod_cast dst.width.modulus_dvd
    have hread := m.bank.toNat_read_write_self dst value
    rw [assigned, markView, hread, Int.natCast_emod, h, Int.emod_emod_of_dvd n hdvd]
  bank := Bank.sameBut_write ..
  stack := rfl
  slotLabels _ := rfl

theorem wrote_add (m : Machine) (dst lhs : View) (rhs : Operand) :
    m.Wrote dst (m.number (.register lhs) + m.number rhs) (m.performed (.add dst lhs rhs)) := by
  refine wrote_assigned ?_ _
  have hlhs := m.toNat_read lhs
  have hrhs := m.toNat_value rhs
  rw [UInt64.toNat_add]
  omega

theorem wrote_sub (m : Machine) (dst lhs : View) (rhs : Operand) :
    m.Wrote dst (m.number (.register lhs) - m.number rhs) (m.performed (.sub dst lhs rhs)) := by
  refine wrote_assigned ?_ _
  have hlhs := m.toNat_read lhs
  have hrhs := m.toNat_value rhs
  have hlt := (m.value rhs).toNat_lt
  rw [UInt64.toNat_sub]
  omega

/-- An operand that is no view of the destination stands for the same integer afterwards. -/
theorem Wrote.number_eq (h : m.Wrote dst n m')
    (hrhs : ∀ v, rhs = .register v → v.register ≠ dst.register) :
    m'.number rhs = m.number rhs := by
  cases rhs with
  | immediate imm => rfl
  | register v => rw [number, number, h.bank.other v.register (hrhs v rfl)]

/-- What an addition has brought, a subtraction of the same operand takes away. -/
theorem bank_performed_sub_add (m : Machine) (dst : View)
    (hrhs : ∀ v, rhs = .register v → v.register ≠ dst.register) :
    ((m.performed (.add dst dst rhs)).performed (.sub dst dst rhs)).bank = m.bank := by
  have hadd := m.wrote_add dst dst rhs
  have hsub := (m.performed (.add dst dst rhs)).wrote_sub dst dst rhs
  -- nothing but what the destination shows can differ, and this is read as a number
  refine (hadd.bank.trans hsub.bank).eq_of_read_eq ?_
  have hlt : ((m.bank.read dst).toNat : Int) < dst.width.modulus := by
    have hpos : 0 < dst.width.modulus := by cases dst.width <;> decide
    rw [Bank.toNat_read]
    exact_mod_cast Nat.mod_lt _ hpos
  have hread : (((m.performed (.add dst dst rhs)).performed (.sub dst dst rhs)).bank.read
      dst).toNat = ((m.bank.read dst).toNat : Int) := by
    rw [hsub.read, ← toNat_read, hadd.read, hadd.number_eq hrhs, Int.emod_sub_emod,
      add_sub_cancel_right, ← toNat_read]
    exact Int.emod_eq_of_lt (Int.natCast_nonneg _) hlt
  exact UInt64.toNat_inj.mp (Int.natCast_inj.mp hread)

end result

/-- Reading the destination of an addition or subtraction gives the sum or difference of the
integers that the operands stand for, modulo two to the power of the destination's width. The upper
half above a low destination, the other registers, the stack and the labels of slots stay. If the
operand is no view of the destination's register, adding and then subtracting it leaves all
registers as they were. -/
theorem sums_and_differences (m : Machine) (dst lhs : View) (rhs : Operand) :
    (∃ m', (execute (.add dst lhs rhs)).run m = .ok () m' ∧
      m.Wrote dst (m.number (.register lhs) + m.number rhs) m') ∧
    (∃ m', (execute (.sub dst lhs rhs)).run m = .ok () m' ∧
      m.Wrote dst (m.number (.register lhs) - m.number rhs) m') ∧
    ((∀ v, rhs = .register v → v.register ≠ dst.register) →
      ∃ m', (forM [.add dst dst rhs, .sub dst dst rhs] execute).run m = .ok () m' ∧
        m'.bank = m.bank) := by
  refine ⟨⟨_, rfl, m.wrote_add dst lhs rhs⟩, ⟨_, rfl, m.wrote_sub dst lhs rhs⟩, fun hrhs => ?_⟩
  exact ⟨_, rfl, m.bank_performed_sub_add dst hrhs⟩

/-- One below zero is the highest low half. The upper half lends nothing, and a subtraction brings
the zero back. -/
theorem below_zero_and_back :
    let dst := View.low (.general 0)
    let one := Operand.immediate ⟨-1, .decimal⟩
    ∃ m, seeded 16 [(.general 0, 0x1234567800000000)] = .ok m ∧
      (∃ m', (execute (.add dst dst one)).run m = .ok () m' ∧
        (m'.bank.read dst).toNat = 0xffffffff ∧
        Word.upperHalf (m'.bank.get (.general 0)) = 0x12345678) ∧
      (∀ v, one = .register v → v.register ≠ dst.register) ∧
      ∃ m', (forM [.add dst dst one, .sub dst dst one] execute).run m = .ok () m' ∧
        m'.bank = m.bank := by
  intro dst one
  obtain ⟨m, hm⟩ : ∃ m, seeded 16 [(.general 0, 0x1234567800000000)] = .ok m := ⟨_, rfl⟩
  have hget : m.bank.get (.general 0) = 0x1234567800000000 := by
    have h : (seeded 16 [(.general 0, 0x1234567800000000)]).map (·.bank.get (.general 0)) =
        .ok 0x1234567800000000 := rfl
    rw [hm] at h
    exact Except.ok.inj h
  have hone : ∀ v, one = .register v → v.register ≠ dst.register := fun v hv => nomatch hv
  obtain ⟨⟨m', hadd, hwrote⟩, -, hback⟩ := sums_and_differences m dst dst one
  refine ⟨m, hm, ⟨m', hadd, ?_, ?_⟩, hone, hback hone⟩
  · have hnumber : m.number (.register dst) + m.number one = -1 := by
      simp [dst, one, number, hget, Width.modulus]
    have hread : ((m'.bank.read dst).toNat : Int) = -1 % (4294967296 : Nat) := by
      rw [← hnumber]
      exact hwrote.read
    omega
  · rw [hwrote.bank.upper rfl]
    simp [dst, hget, Word.upperHalf]

end StackSteps.Machine
