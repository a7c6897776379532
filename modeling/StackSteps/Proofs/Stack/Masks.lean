import StackSteps.Proofs.Stack.Shifts
import StackSteps.Register.Bank

/-!
# Parts of words as masks

The low half of a word and its first bytes are what a mask leaves of it (`Word.lowHalf_eq_and`,
`Word.truncate_eq_and`), and a write of the low half joins what two masks leave (`Word.withLow_eq`).
So views read and write registers by masks (`Bank.read_low`, `Bank.get_write_low`), and slots are
read and written up to a size by one (`Stack.read_eq_and`, `Stack.write_eq_and`). The place of an
address is found by division, and no number on the way is too large for an index
(`Stack.locate_eq_div`).
-/
namespace StackSteps

namespace Word

/-- The thirty-two low-order bits. -/
def lowMask : Word := 0xFFFFFFFF

/-- The bits of the first bytes: one less than the bit behind them, or all bits if there is none. -/
def sizeMask (size : Nat) : Word :=
  ((shiftLeft? 1 (8 * size)).map (· - 1)).getD 0xFFFFFFFFFFFFFFFF

theorem toNat_sizeMask {size : Nat} (hsize : size ≤ 8) :
    (sizeMask size).toNat = 2 ^ (8 * size) - 1 := by
  by_cases h : size = 8
  · subst h
    rfl
  · have hlt : size < 8 := by omega
    rcases lt_eight_cases hlt with rfl | rfl | rfl | rfl | rfl | rfl | rfl | rfl
    all_goals rfl

theorem lowHalf_eq_and (v : Word) : lowHalf v = v &&& lowMask := by
  have hmask : lowMask.toNat = 2 ^ 32 - 1 := rfl
  rw [← UInt64.toNat_inj, toNat_lowHalf, UInt64.toNat_and, hmask, Nat.and_two_pow_sub_one_eq_mod]

theorem truncate_eq_and (v : Word) {size : Nat} (hsize : size ≤ 8) :
    truncate v size = v &&& sizeMask size := by
  rw [← UInt64.toNat_inj, toNat_truncate hsize, UInt64.toNat_and, toNat_sizeMask hsize,
    Nat.and_two_pow_sub_one_eq_mod, weight_eq_two_pow]

/-- A word is known by its bits. -/
theorem ext_bit {u v : Word} (h : ∀ i < 64, u.toNat.testBit i = v.toNat.testBit i) : u = v :=
  UInt64.eq_of_toBitVec_eq (BitVec.eq_of_getLsbD_eq h)

theorem testBit_lowMask (i : Nat) : lowMask.toNat.testBit i = decide (i < 32) := by
  rw [show lowMask.toNat = 2 ^ 32 - 1 from rfl, Nat.testBit_two_pow_sub_one]

theorem testBit_withLow (old v : Word) (i : Nat) :
    (withLow old v).toNat.testBit i =
      if i < 32 then v.toNat.testBit i else old.toNat.testBit i := by
  have hlow : v.toNat % 2 ^ 32 < 2 ^ 32 := Nat.mod_lt _ (by decide)
  rw [toNat_withLow, Nat.mul_comm, show 4294967296 = 2 ^ 32 from rfl,
    Nat.testBit_two_pow_mul_add _ hlow, Nat.testBit_mod_two_pow, Nat.testBit_div_two_pow]
  by_cases hi : i < 32
  · rw [if_pos hi, if_pos hi, decide_eq_true hi, Bool.true_and]
  · rw [if_neg hi, if_neg hi, Nat.sub_add_cancel (by omega)]

theorem withLow_eq (old v : Word) :
    withLow old v = old &&& ~~~lowMask ||| v &&& lowMask := by
  refine ext_bit fun i hi => ?_
  rw [testBit_withLow, UInt64.toNat_or, UInt64.toNat_and, UInt64.toNat_and, Nat.testBit_or,
    Nat.testBit_and, Nat.testBit_and, testBit_not _ hi, testBit_lowMask]
  by_cases hlow : i < 32
  · simp [hlow]
  · simp [hlow]

end Word

namespace Bank

theorem read_low (b : Bank) (r : Register) : b.read ⟨r, .w⟩ = b.get r &&& Word.lowMask :=
  Word.lowHalf_eq_and (b.get r)

theorem get_write_low (b : Bank) (r : Register) (value : Word) :
    (b.write ⟨r, .w⟩ value).get r = b.get r &&& ~~~Word.lowMask ||| value &&& Word.lowMask := by
  rw [← Word.withLow_eq, write, get_set, if_pos rfl]

end Bank

namespace Stack

theorem read_eq_and (s : Stack) (i size : Nat) :
    s.read i size = (s.access i size).map (· &&& Word.sizeMask size) := by
  by_cases hsize : size = 0 ∨ 8 < size
  · rw [read, access_of_size hsize]
    rfl
  · have hmask : ∀ v, Word.truncate v size = v &&& Word.sizeMask size :=
      fun v => Word.truncate_eq_and v (by omega)
    simp only [read, hmask]

theorem write_eq_and (s : Stack) (i : Nat) (v : Word) (size : Nat) :
    s.write i v size = (s.access i size).map fun _ => s.set i (v &&& Word.sizeMask size) := by
  by_cases hsize : size = 0 ∨ 8 < size
  · rw [write, access_of_size hsize]
    rfl
  · rw [write, Word.truncate_eq_and v (by omega)]

/-- No address below zero has a place. For any other the slot and the byte are quotient and
remainder, which have to fit sixty-four bits, and the slot has to be one of the stack. -/
theorem locate_eq_div (s : Stack) (address : Int) :
    let slot := address.tdiv 8
    let byte := address.tmod 8
    s.locate address =
      if address < 0 ∨ 2 ^ 64 ≤ slot ∨ 2 ^ 64 ≤ byte ∨ s.size ≤ slot.toNat then
        .error (.outOfBounds address)
      else .ok ⟨slot.toNat, byte.toNat⟩ := by
  intro slot byte
  have hsize : s.size ≤ 4096 := s.size_le
  by_cases hneg : address < 0
  · rw [if_pos (.inl hneg)]
    exact locate_eq_error_iff.mpr ⟨.inl hneg, rfl⟩
  · have hslot : slot = address / 8 := Int.tdiv_eq_ediv_of_nonneg (by omega)
    have hbyte : byte = address % 8 := Int.tmod_eq_emod_of_nonneg (by omega)
    by_cases hout : s.size ≤ slot.toNat
    · rw [if_pos (.inr (.inr (.inr hout)))]
      exact locate_eq_error_iff.mpr ⟨.inr (by omega), rfl⟩
    · rw [if_neg (by omega)]
      have hless : byte.toNat < 8 := by omega
      have haddress : address = 8 * (slot.toNat : Int) + byte.toNat := by omega
      exact locate_eq_ok_iff.mpr ⟨Nat.lt_of_not_le hout, hless, haddress⟩

end Stack

end StackSteps
