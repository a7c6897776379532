import Mathlib
import StackSteps.Register.Bank

/-!
# Numbers behind views

A view shows the number in its register modulo the number of values that its width has
(`Bank.toNat_read`). A write through a view leaves all that the view does not show
(`Bank.sameBut_write`), so that a bank is known from another one if they differ in one view at most
and this shows the same in both (`Bank.SameBut.eq_of_read_eq`).
-/
namespace StackSteps

/-- How many values a view of the width can show. -/
def Width.modulus : Width → Nat
  | .x => 18446744073709551616
  | .w => 4294967296

theorem Width.modulus_dvd (width : Width) : width.modulus ∣ 18446744073709551616 := by
  cases width <;> simp [modulus]

/-- Every view shows thirty-two bits at least. -/
theorem Width.le_modulus (width : Width) : 4294967296 ≤ width.modulus := by
  cases width <;> simp [modulus]

namespace Bank

theorem toNat_cut (width : Width) (v : Word) : (cut width v).toNat = v.toNat % width.modulus := by
  cases width with
  | x => exact (Nat.mod_eq_of_lt v.toNat_lt).symm
  | w => exact Word.toNat_lowHalf v

theorem toNat_read (b : Bank) (v : View) :
    (b.read v).toNat = (b.get v.register).toNat % v.width.modulus :=
  toNat_cut v.width _

theorem toNat_read_write_self (b : Bank) (v : View) (value : Word) :
    ((b.write v value).read v).toNat = value.toNat % v.width.modulus := by
  rw [read_write_self, toNat_cut]

/-- Banks with the same values but for what a view shows: a low view shows no upper half, and no
view shows another register. -/
structure SameBut (v : View) (b c : Bank) : Prop where
  upper : v.width = .w → Word.upperHalf (c.get v.register) = Word.upperHalf (b.get v.register)
  other : ∀ r, r ≠ v.register → c.get r = b.get r

variable {b c d : Bank} {v : View}

theorem sameBut_write (b : Bank) (v : View) (value : Word) : SameBut v b (b.write v value) where
  upper hw := by
    obtain ⟨r, width⟩ := v
    obtain rfl : width = .w := hw
    exact upperHalf_write_low b r value
  other _ hr := get_write_of_ne b hr.symm value

theorem SameBut.trans (hbc : SameBut v b c) (hcd : SameBut v c d) : SameBut v b d where
  upper hw := (hcd.upper hw).trans (hbc.upper hw)
  other r hr := (hcd.other r hr).trans (hbc.other r hr)

theorem SameBut.eq_of_read_eq (h : SameBut v b c) (hread : c.read v = b.read v) : c = b := by
  refine Bank.ext fun r => ?_
  by_cases hr : r = v.register
  · subst hr
    obtain ⟨r, width⟩ := v
    cases width with
    | x => exact hread
    | w => exact Word.ext_half (h.upper rfl) hread
  · exact h.other r hr

end Bank

end StackSteps
