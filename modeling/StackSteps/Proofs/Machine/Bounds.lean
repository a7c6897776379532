import StackSteps.Proofs.Machine.Calls

/-!
# Addresses out of bounds

An instruction fails if and only if one of its addresses lies outside the stack, where an address is
an integer and does not wrap around, and then nothing has changed (`execute_eq_error_iff_outside`).
-/
namespace StackSteps.Machine

theorem execute_eq_ok_iff {m m' : Machine} {i : Instruction} :
    (execute i).run m = .ok () m' ↔
      i.fault? m.stack.size m.target = none ∧ m' = m.performed i := by
  rw [← executed_eq_ok_iff, run_execute]
  cases m.executed i <;> simp

theorem execute_eq_error_iff {m m' : Machine} {i : Instruction} {f : Fault} :
    (execute i).run m = .error f m' ↔ i.fault? m.stack.size m.target = some f ∧ m' = m := by
  rw [← executed_eq_error_iff, run_execute]
  cases m.executed i <;> simp [eq_comm]

/-- Whatever calls came before, an instruction comes through and works on the bytes that its
addresses name, or it has a fault and changes nothing. The address of an operand is the number in
the base plus the offset as integers, and `Instruction.fault?` compares it with the ends of the
stack. -/
theorem execute_eq_error_iff_outside {slots : Nat} {m₀ : Machine} (h₀ : MadeWith slots m₀)
    (calls : List Call) (i : Instruction) :
    let m := m₀.afterCalls calls
    let target : Address → Int := fun address =>
      ((m.bank.read address.base).toNat : Int) + address.offset.toInt
    (∀ m', (execute i).run m = .ok () m' ↔ i.fault? slots target = none ∧ m' = m.performed i) ∧
    (∀ f m', (execute i).run m = .error f m' ↔ i.fault? slots target = some f ∧ m' = m) := by
  intro m target
  have hsize : m.stack.size = slots := size_afterCalls h₀ calls
  have htarget : m.target = target := rfl
  constructor
  · intro m'
    rw [execute_eq_ok_iff, hsize, htarget]
  · intro f m'
    rw [execute_eq_error_iff, hsize, htarget]

/-- With `sp` eight bytes below two to the sixty-fourth power, an offset of sixteen does not come
around to the second slot. -/
theorem load_above_all_words_fails :
    ∃ m₀ m, MadeWith 16 m₀ ∧ m₀.afterCalls [.seed .sp 18446744073709551608] = m ∧
      (execute (.ldrb (.low (.general 0)) ⟨.whole .sp, 16, false⟩)).run m =
        .error (.outOfBounds 18446744073709551624) m := by
  obtain ⟨m₀, hm₀⟩ : ∃ m₀, start 16 = .ok m₀ := ⟨_, rfl⟩
  refine ⟨m₀, _, .inl hm₀, rfl, ?_⟩
  have hread : (m₀.afterCalls [.seed .sp 18446744073709551608]).bank.read (.whole .sp) =
      18446744073709551608 := by
    simp [afterCalls, afterCall, seed, Bank.read, Bank.cut]
  refine ((execute_eq_error_iff_outside (.inl hm₀) _ _).2 _ _).mpr ⟨?_, rfl⟩
  simp only [Instruction.fault?, hread]
  rfl

end StackSteps.Machine
