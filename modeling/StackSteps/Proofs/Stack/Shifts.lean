import StackSteps.Proofs.Stack.ByteArray

/-!
# Bytes at positions past the slot

A byte of a slot is read by a shift and a mask (`Stack.readByte_eq_extract`) and written by clearing
its bits and setting them anew (`Stack.writeByte_eq_merge`), and a shift past the end of the word
leaves nothing. The number of bits to shift by is taken from the low thirty-two bits of the
position. So a position past the slot has no byte only if these are eight at least, and otherwise it
is a byte of the slot again (`Stack.byte_of_any_position`).
-/
namespace StackSteps

namespace Word

/-- A shift to the left, by fewer bits than a word has. -/
def shiftLeft? (v : Word) (n : Nat) : Option Word :=
  if n < 64 then some (v <<< UInt64.ofNat n) else none

/-- A shift to the right, by fewer bits than a word has. -/
def shiftRight? (v : Word) (n : Nat) : Option Word :=
  if n < 64 then some (v >>> UInt64.ofNat n) else none

/-- The eight bits above a number of them. -/
def extract (v : Word) (n : Nat) : UInt8 :=
  ((shiftRight? v n).getD 0 &&& 255).toUInt8

/-- The word with the eight bits above a number of them cleared and set anew. -/
def merge (v : Word) (n : Nat) (b : UInt8) : Word :=
  v &&& ~~~(shiftLeft? 255 n).getD 0 ||| (shiftLeft? b.toUInt64 n).getD 0

variable {n i j k : Nat}

theorem weight_eq_two_pow (k : Nat) : weight k = 2 ^ (8 * k) := by
  rw [weight_eq_pow, Nat.pow_mul]

theorem extract_eq_byte (v : Word) (hk : k < 8) : extract v (8 * k) = byte v k := by
  have hn : 8 * k % 2 ^ 64 % 64 = 8 * k := by omega
  have hmask : ∀ m : Nat, (m &&& 255) % 2 ^ 8 = m % 256 := by
    intro m
    rw [show 255 = 2 ^ 8 - 1 from rfl, Nat.and_two_pow_sub_one_eq_mod, Nat.mod_mod]
  rw [← UInt8.toNat_inj, toNat_byte hk, extract, shiftRight?, if_pos (by omega), Option.getD_some,
    UInt64.toNat_toUInt8, UInt64.toNat_and, UInt64.toNat_shiftRight, UInt64.toNat_ofNat', hn,
    Nat.shiftRight_eq_div_pow, weight_eq_two_pow]
  exact hmask _

theorem extract_of_le (v : Word) (hn : 64 ≤ n) : extract v n = 0 := by
  rw [extract, shiftRight?, if_neg (by omega)]
  rfl

theorem merge_of_le (v : Word) (hn : 64 ≤ n) (b : UInt8) : merge v n b = v := by
  have hout : ∀ u : Word, shiftLeft? u n = none := fun u => if_neg (by omega)
  rw [merge, hout, hout]
  simp

/-- A byte is known by its bits. -/
theorem byte_ext {a b : UInt8} (h : ∀ i < 8, a.toNat.testBit i = b.toNat.testBit i) : a = b :=
  UInt8.eq_of_toBitVec_eq (BitVec.eq_of_getLsbD_eq h)

theorem testBit_byte (v : Word) (hj : j < 8) (hi : i < 8) :
    (byte v j).toNat.testBit i = v.toNat.testBit (8 * j + i) := by
  rw [toNat_byte hj, weight_eq_two_pow, show 256 = 2 ^ 8 from rfl, Nat.testBit_mod_two_pow,
    Nat.testBit_div_two_pow, decide_eq_true hi, Bool.true_and, Nat.add_comm]

theorem testBit_not (v : Word) (hi : i < 64) :
    (~~~v).toNat.testBit i = !v.toNat.testBit i := by
  have hnot : (~~~v.toBitVec).getLsbD i = !v.toBitVec.getLsbD i := by
    rw [BitVec.getLsbD_not, decide_eq_true hi, Bool.true_and]
  exact hnot

/-- A byte that is shifted to a place of a word stands there and nowhere else. -/
theorem testBit_shiftLeft? (b : UInt8) (hk : k < 8) (hj : j < 8) (hi : i < 8) :
    ((shiftLeft? b.toUInt64 (8 * k)).getD 0).toNat.testBit (8 * j + i) =
      (decide (j = k) && b.toNat.testBit i) := by
  have hn : 8 * k % 2 ^ 64 % 64 = 8 * k := by omega
  rw [shiftLeft?, if_pos (by omega), Option.getD_some, UInt64.toNat_shiftLeft, UInt64.toNat_ofNat',
    hn, Nat.testBit_mod_two_pow, Nat.testBit_shiftLeft, UInt8.toNat_toUInt64,
    decide_eq_true (show 8 * j + i < 64 by omega), Bool.true_and]
  rcases Nat.lt_trichotomy j k with hlt | rfl | hlt
  · rw [decide_eq_false (by omega), decide_eq_false (by omega), Bool.false_and, Bool.false_and]
  · rw [decide_eq_true (by omega), decide_eq_true rfl, Nat.add_sub_cancel_left]
  · have hb : b.toNat < 2 ^ (8 * j + i - 8 * k) :=
      Nat.lt_of_lt_of_le b.toNat_lt (Nat.pow_le_pow_right (by decide) (by omega))
    rw [Nat.testBit_eq_false_of_lt hb, Bool.and_false, decide_eq_false (by omega), Bool.false_and]

theorem merge_eq_setByte (v : Word) (hk : k < 8) (b : UInt8) :
    merge v (8 * k) b = setByte v k b := by
  refine ext_byte fun j hj => byte_ext fun i hi => ?_
  have hmask : (255 : UInt8).toNat.testBit i = true := by
    rw [show (255 : UInt8).toNat = 2 ^ 8 - 1 from rfl, Nat.testBit_two_pow_sub_one,
      decide_eq_true hi]
  rw [byte_setByte, testBit_byte _ hj hi, merge, UInt64.toNat_or, UInt64.toNat_and,
    Nat.testBit_or, Nat.testBit_and, testBit_not _ (by omega), testBit_shiftLeft? b hk hj hi,
    show (255 : Word) = (255 : UInt8).toUInt64 from rfl, testBit_shiftLeft? 255 hk hj hi, hmask]
  by_cases h : j = k
  · simp [h, hk]
  · simp [h, testBit_byte v hj hi]

end Word

/-- How many bits stand below the byte: eight times the low thirty-two bits of its number, and no
more than thirty-two bits can count. -/
def Place.shift (p : Place) : Nat :=
  min (8 * p.lane) 4294967295

theorem Place.shift_of_lt {p : Place} (h : p.lane < 8) : p.shift = 8 * p.lane := by
  rw [shift]
  omega

theorem Place.le_shift {p : Place} (h : 8 ≤ p.lane) : 64 ≤ p.shift := by
  rw [shift]
  omega

namespace Stack

variable {s : Stack} {p : Place}

theorem readByte_eq_extract (hp : p.slot < s.size) :
    s.readByte p = .ok (Word.extract (s.slot p.slot) p.shift) := by
  rw [readByte_of_lt hp, getElem_slots hp]
  by_cases h : p.lane < 8
  · rw [Place.shift_of_lt h, Word.extract_eq_byte _ h]
  · rw [Word.extract_of_le _ (Place.le_shift (by omega)), Word.byte, if_neg h]

theorem writeByte_eq_merge (hp : p.slot < s.size) (b : UInt8) :
    s.writeByte p b = .ok (s.set p.slot (Word.merge (s.slot p.slot) p.shift b)) := by
  rw [writeByte_of_lt hp, getElem_slots hp]
  by_cases h : p.lane < 8
  · rw [Place.shift_of_lt h, Word.merge_eq_setByte _ h]
  · rw [Word.merge_of_le _ (Place.le_shift (by omega)), Word.setByte, if_neg h]

theorem readByte_of_le_lane (hp : p.slot < s.size) (hlane : 8 ≤ p.lane) : s.readByte p = .ok 0 := by
  rw [readByte_eq_extract hp, Word.extract_of_le _ (Place.le_shift hlane)]

theorem readByte_of_lane (hp : p.slot < s.size) (hlane : p.lane < 8) :
    s.readByte p = .ok (s.byteAt (8 * p.slot + p.lane)) := by
  rw [readByte_of_lt hp, getElem_slots hp, byteAt_slot s hlane]

/-- A byte that is there cannot both read as zero and refuse every write. -/
theorem le_lane_of_readByte_writeByte (hp : p.slot < s.size)
    (hread : s.readByte p = .ok 0) (hwrite : ∀ b, s.writeByte p b = .ok s) : 8 ≤ p.lane := by
  by_contra h
  have hlane : p.lane < 8 := by omega
  -- a one that is written would stand where a zero is read
  obtain ⟨s', hs', hbytes⟩ := writeByte_of_lane hp hlane 1
  rw [hwrite 1] at hs'
  obtain rfl := Except.ok.inj hs'
  rw [readByte_of_lane hp hlane] at hread
  have hzero : s.bytes[8 * p.slot + p.lane]? = some 0 := by
    rw [getElem?_bytes, if_pos (by omega), Except.ok.inj hread]
  rw [hbytes, List.getElem?_set_self (by rw [length_bytes]; omega)] at hzero
  contradiction

/-- Reading and writing go by shifts at any position. There is no byte if and only if the low
thirty-two bits of the position are eight at least, and else they are the number of the byte. -/
theorem byte_of_any_position (s : Stack) (p : Place) (hp : p.slot < s.size) :
    (s.readByte p = .ok (Word.extract (s.slot p.slot) p.shift) ∧
      ∀ b, s.writeByte p b = .ok (s.set p.slot (Word.merge (s.slot p.slot) p.shift b))) ∧
    ((s.readByte p = .ok 0 ∧ ∀ b, s.writeByte p b = .ok s) ↔ 8 ≤ p.byte % 2 ^ 32) ∧
    (p.byte % 2 ^ 32 < 8 →
      s.readByte p = .ok (s.byteAt (8 * p.slot + p.byte % 2 ^ 32)) ∧
      ∀ b, ∃ s', s.writeByte p b = .ok s' ∧
        s'.bytes = s.bytes.set (8 * p.slot + p.byte % 2 ^ 32) b) := by
  refine ⟨⟨readByte_eq_extract hp, writeByte_eq_merge hp⟩, ⟨?_, fun h => ?_⟩, fun h => ?_⟩
  · rintro ⟨hread, hwrite⟩
    exact le_lane_of_readByte_writeByte hp hread hwrite
  · exact ⟨readByte_of_le_lane hp h, writeByte_of_le_lane hp h⟩
  · exact ⟨readByte_of_lane hp h, writeByte_of_lane hp h⟩

/-- Two to the thirty-third power and five is byte five of the slot. -/
theorem byte_five_at_far_position :
    ∃ s, (start 2 >>= (·.write 1 0x1122334455667788 8)) = .ok s ∧ 1 < s.size ∧
      8589934597 % 2 ^ 32 < 8 ∧ s.readByte ⟨1, 8589934597⟩ = .ok 0x33 ∧
      ∀ b, ∃ s', s.writeByte ⟨1, 8589934597⟩ b = .ok s' ∧ s'.bytes = s.bytes.set 13 b := by
  let s : Stack := ⟨[0, 0x1122334455667788], by decide, by decide⟩
  obtain ⟨-, -, hbyte⟩ := byte_of_any_position s ⟨1, 8589934597⟩ (by decide)
  obtain ⟨hread, hwrite⟩ := hbyte (by decide)
  refine ⟨s, by decide +kernel, by decide, by decide, ?_, hwrite⟩
  rw [hread]
  decide +kernel

/-- Two to the thirty-second power is far past the slot, and byte zero of it is read and written. -/
theorem far_position_lands_on_byte_zero :
    ∃ s s', ∃ p : Place, (start 1 >>= (·.write 0 255 8)) = .ok s ∧ s.slots = [255] ∧
      p = ⟨0, 4294967296⟩ ∧ p.slot < s.size ∧ 8 ≤ p.byte ∧ p.byte < 2 ^ 64 ∧
      s.readByte p = .ok 255 ∧ s.writeByte p 1 = .ok s' ∧ s'.slots = [1] := by
  let s : Stack := ⟨[255], by decide, by decide⟩
  let s' : Stack := ⟨[1], by decide, by decide⟩
  exact ⟨s, s', ⟨0, 4294967296⟩, by decide +kernel, rfl, rfl, by decide, by decide, by decide,
    by decide +kernel, by decide +kernel, rfl⟩

end Stack

end StackSteps
