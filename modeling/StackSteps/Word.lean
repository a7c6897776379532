import StackSteps.Text.Numeral

/-!
# Sixty-four-bit words

The halves and bytes of a word, and its text. Bytes are numbered from the low-order end. Main
statements: `lowHalf_withLow` and `upperHalf_withLow` (a write of the low half), `byte_setByte`
(a write of one byte), `ext_byte` (a word is known by its eight bytes) and `byte_truncate`.
-/

namespace StackSteps

/-- The value of a register or of a stack slot. -/
abbrev Word := UInt64

namespace Word

def lowHalf (v : Word) : Word :=
  v % 4294967296

/-- The number in the upper thirty-two bits. -/
def upperHalf (v : Word) : Word :=
  v / 4294967296

/-- The upper half of one word above the low half of another. -/
def withLow (old v : Word) : Word :=
  upperHalf old * 4294967296 + lowHalf v

theorem toNat_lowHalf (v : Word) : (lowHalf v).toNat = v.toNat % 4294967296 := by
  simp [lowHalf]

theorem toNat_upperHalf (v : Word) : (upperHalf v).toNat = v.toNat / 4294967296 := by
  simp [upperHalf]

theorem toNat_withLow (old v : Word) :
    (withLow old v).toNat = old.toNat / 4294967296 * 4294967296 + v.toNat % 4294967296 := by
  have := old.toNat_lt
  simp only [withLow, UInt64.toNat_add, UInt64.toNat_mul, toNat_lowHalf, toNat_upperHalf,
    UInt64.reduceToNat]
  omega

@[simp] theorem lowHalf_withLow (old v : Word) : lowHalf (withLow old v) = lowHalf v := by
  rw [← UInt64.toNat_inj, toNat_lowHalf, toNat_withLow, toNat_lowHalf]
  omega

@[simp] theorem upperHalf_withLow (old v : Word) : upperHalf (withLow old v) = upperHalf old := by
  rw [← UInt64.toNat_inj, toNat_upperHalf, toNat_withLow, toNat_upperHalf]
  omega

theorem ext_half {u v : Word} (hu : upperHalf u = upperHalf v) (hl : lowHalf u = lowHalf v) :
    u = v := by
  rw [← UInt64.toNat_inj, toNat_upperHalf, toNat_upperHalf] at hu
  rw [← UInt64.toNat_inj, toNat_lowHalf, toNat_lowHalf] at hl
  rw [← UInt64.toNat_inj]
  omega

/-- What a one in a byte counts: the power of 256 with the number of the byte. -/
def weight : Nat → Nat
  | 0 => 1
  | k + 1 => weight k * 256

/-- A byte of the word. Bytes past the eighth are zero. -/
def byte (v : Word) (k : Nat) : UInt8 :=
  if k < 8 then UInt8.ofNat (v.toNat / weight k) else 0

/-- The word with another byte. There is no byte to change past the eighth. -/
def setByte (v : Word) (k : Nat) (b : UInt8) : Word :=
  if k < 8 then UInt64.ofNat (v.toNat - (byte v k).toNat * weight k + b.toNat * weight k) else v

/-- The word of the first bytes. -/
def truncate (v : Word) (size : Nat) : Word :=
  if size < 8 then UInt64.ofNat (v.toNat % weight size) else v

/-- The eight bytes, the high-order one first. -/
def bytes (v : Word) : List UInt8 :=
  (List.range 8).reverse.map (byte v)

theorem weight_add (j k : Nat) : weight (j + k) = weight j * weight k := by
  induction k with
  | zero => simp [weight]
  | succ k ih => rw [← Nat.add_assoc, weight, ih, weight, Nat.mul_assoc]

theorem weight_dvd {j k : Nat} (h : j ≤ k) : weight j ∣ weight k :=
  ⟨weight (k - j), by rw [← weight_add, Nat.add_sub_cancel' h]⟩

theorem weight_pos (k : Nat) : 0 < weight k := by
  induction k with
  | zero => decide
  | succ k ih => rw [weight]; omega

theorem toNat_byte {v : Word} {k : Nat} (hk : k < 8) :
    (byte v k).toNat = v.toNat / weight k % 256 := by
  simp [byte, hk]

theorem lt_eight_cases {k : Nat} (hk : k < 8) :
    k = 0 ∨ k = 1 ∨ k = 2 ∨ k = 3 ∨ k = 4 ∨ k = 5 ∨ k = 6 ∨ k = 7 := by omega

theorem toNat_setByte {v : Word} {k : Nat} (hk : k < 8) (b : UInt8) :
    (setByte v k b).toNat =
      v.toNat / weight (k + 1) * weight (k + 1) + b.toNat * weight k + v.toNat % weight k := by
  have hv := v.toNat_lt
  have hb := b.toNat_lt
  simp only [setByte, hk, if_true, toNat_byte hk, UInt64.toNat_ofNat']
  rcases lt_eight_cases hk with rfl | rfl | rfl | rfl | rfl | rfl | rfl | rfl <;>
    simp only [weight] <;> omega

theorem setByte_mod {v : Word} {k : Nat} (hk : k < 8) (b : UInt8) :
    (setByte v k b).toNat % weight k = v.toNat % weight k := by
  rw [toNat_setByte hk, weight, ← Nat.mul_assoc, Nat.mul_right_comm, ← Nat.add_mul,
    Nat.mul_add_mod_self_right, Nat.mod_mod]

theorem setByte_div {v : Word} {k : Nat} (hk : k < 8) (b : UInt8) :
    (setByte v k b).toNat / weight (k + 1) = v.toNat / weight (k + 1) := by
  have hb := b.toNat_lt
  rw [toNat_setByte hk]
  rcases lt_eight_cases hk with rfl | rfl | rfl | rfl | rfl | rfl | rfl | rfl <;>
    simp only [weight] <;> omega

/-- The byte that was written. -/
theorem byte_setByte_self {v : Word} {k : Nat} (hk : k < 8) (b : UInt8) :
    byte (setByte v k b) k = b := by
  have hb := b.toNat_lt
  rw [← UInt8.toNat_inj, toNat_byte hk, toNat_setByte hk]
  rcases lt_eight_cases hk with rfl | rfl | rfl | rfl | rfl | rfl | rfl | rfl <;>
    simp only [weight] <;> omega

/-- A byte below a position does not count what lies from the position on. -/
theorem byte_eq_of_mod_eq {u v : Word} {j k : Nat} (hjk : j < k)
    (h : u.toNat % weight k = v.toNat % weight k) : byte u j = byte v j := by
  have hdvd : weight (j + 1) ∣ weight k := weight_dvd hjk
  have hmod : u.toNat % (weight j * 256) = v.toNat % (weight j * 256) := by
    rw [← weight, ← Nat.mod_mod_of_dvd u.toNat hdvd, h, Nat.mod_mod_of_dvd _ hdvd]
  by_cases hj : j < 8
  · rw [← UInt8.toNat_inj, toNat_byte hj, toNat_byte hj, ← Nat.mod_mul_right_div_self, hmod,
      Nat.mod_mul_right_div_self]
  · simp [byte, hj]

theorem byte_eq_of_div_eq {u v : Word} {j k : Nat} (hjk : k ≤ j)
    (h : u.toNat / weight k = v.toNat / weight k) : byte u j = byte v j := by
  have hdiv : ∀ n : Nat, n / weight j = n / weight k / weight (j - k) := fun n => by
    rw [Nat.div_div_eq_div_mul, ← weight_add, Nat.add_sub_cancel' hjk]
  simp only [byte, hdiv, h]

/-- A write changes the byte that is written and no other. -/
@[simp] theorem byte_setByte {v : Word} {j k : Nat} {b : UInt8} :
    byte (setByte v k b) j = if j = k ∧ k < 8 then b else byte v j := by
  by_cases hk : k < 8
  · rcases Nat.lt_trichotomy j k with hjk | rfl | hjk
    · rw [if_neg (by omega), byte_eq_of_mod_eq hjk (setByte_mod hk b)]
    · rw [if_pos ⟨rfl, hk⟩, byte_setByte_self hk]
    · rw [if_neg (by omega), byte_eq_of_div_eq hjk (setByte_div hk b)]
  · simp [setByte, hk]

theorem mod_eq_of_byte_eq {u v : Word} {n : Nat} (hn : n ≤ 8) (h : ∀ k < n, byte u k = byte v k) :
    u.toNat % weight n = v.toNat % weight n := by
  induction n with
  | zero => simp [weight, Nat.mod_one]
  | succ n ih =>
    have hbyte := congrArg UInt8.toNat (h n (by omega))
    rw [toNat_byte (by omega), toNat_byte (by omega)] at hbyte
    rw [weight, Nat.mod_mul, Nat.mod_mul, hbyte, ih (by omega) fun k hk => h k (by omega)]

theorem ext_byte {u v : Word} (h : ∀ k < 8, byte u k = byte v k) : u = v := by
  have hmod := mod_eq_of_byte_eq (Nat.le_refl 8) h
  have hu := u.toNat_lt
  have hv := v.toNat_lt
  simp only [weight] at hmod
  rw [← UInt64.toNat_inj]
  omega

theorem toNat_truncate {v : Word} {size : Nat} (hs : size ≤ 8) :
    (truncate v size).toNat = v.toNat % weight size := by
  have hv := v.toNat_lt
  rw [truncate]
  split
  · rw [UInt64.toNat_ofNat']
    exact Nat.mod_eq_of_lt (Nat.lt_of_le_of_lt (Nat.mod_le _ _) hv)
  · obtain rfl : size = 8 := by omega
    simp only [weight]
    omega

@[simp] theorem byte_truncate {v : Word} {size k : Nat} :
    byte (truncate v size) k = if k < size then byte v k else 0 := by
  by_cases hs : size ≤ 8
  · by_cases hk : k < size
    · rw [if_pos hk]
      exact byte_eq_of_mod_eq hk (by rw [toNat_truncate hs, Nat.mod_mod])
    · have hlt : v.toNat % weight size < weight k :=
        Nat.lt_of_lt_of_le (Nat.mod_lt _ (weight_pos size))
          (Nat.le_of_dvd (weight_pos k) (weight_dvd (Nat.not_lt.mp hk)))
      simp [byte, toNat_truncate hs, hk, Nat.div_eq_of_lt hlt]
  · by_cases hk : k < 8
    · rw [if_pos (by omega), truncate, if_neg (by omega)]
    · simp [byte, hk]

end Word

end StackSteps
