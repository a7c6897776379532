import Mathlib
import StackSteps.Stack

/-!
# Slots and bytes of a stack

A stack by the value of each slot and by the byte at each address. A write of a slot changes the
eight bytes of the slot and no others (`byteAt_set`), a write of a byte changes that byte alone
(`byteAt_setByte`), and a stack is known by its bytes (`ext_byteAt`).
-/
namespace StackSteps

/-- The place of the byte at an address that is not negative. -/
def Place.ofAddress (a : Int) : Place :=
  ⟨a.toNat / 8, a.toNat % 8⟩

@[simp] theorem Place.slot_ofAddress (a : Int) : (ofAddress a).slot = a.toNat / 8 := rfl

/-- The slot eight bytes above is the next one. -/
theorem Place.slot_ofAddress_add_eight {a : Int} (h : 0 ≤ a) :
    (ofAddress (a + 8)).slot = a.toNat / 8 + 1 := by
  simp only [ofAddress]
  omega

theorem Place.lane_ofAddress (a : Int) : (ofAddress a).lane = a.toNat % 8 := by
  have hlane : (ofAddress a).lane = a.toNat % 8 % 4294967296 := rfl
  omega

namespace Stack

/-- The value of a slot, zero past the end. -/
def slot (s : Stack) (i : Nat) : Word :=
  s.slots[i]?.getD 0

/-- The byte at an address, zero past the end. -/
def byteAt (s : Stack) (a : Nat) : UInt8 :=
  Word.byte (s.slot (a / 8)) (a % 8)

variable {s : Stack} {a : Nat}

theorem getElem_slots {i : Nat} (hi : i < s.slots.length) : s.slots[i] = s.slot i := by
  simp [slot, hi]

theorem slot_set {k : Nat} (hk : k < s.size) (v : Word) (j : Nat) :
    (s.set k v).slot j = if k = j then v else s.slot j := by
  by_cases h : k = j
  · subst h
    have hk : k < s.slots.length := hk
    simp [slot, hk]
  · simp [slot, h]

theorem byteAt_slot (s : Stack) {k n : Nat} (hn : n < 8) :
    s.byteAt (8 * k + n) = Word.byte (s.slot k) n := by
  rw [byteAt, show (8 * k + n) / 8 = k by omega, show (8 * k + n) % 8 = n by omega]

theorem byteAt_set {k : Nat} (hk : k < s.size) (v : Word) (a : Nat) :
    (s.set k v).byteAt a = if k = a / 8 then Word.byte v (a % 8) else s.byteAt a := by
  rw [byteAt, slot_set hk]
  split <;> rfl

theorem byteAt_setByte {k n : Nat} (hk : k < s.size) (hn : n < 8) (b : UInt8) (a : Nat) :
    (s.set k (Word.setByte (s.slot k) n b)).byteAt a =
      if a = 8 * k + n then b else s.byteAt a := by
  rw [byteAt_set hk, Word.byte_setByte]
  by_cases ha : a = 8 * k + n
  · rw [if_pos (by omega), if_pos (by omega), if_pos ha]
  · rw [if_neg ha]
    by_cases hslot : k = a / 8
    · rw [if_pos hslot, if_neg (by omega), hslot, byteAt]
    · rw [if_neg hslot]

/-- Stacks of one size with the same byte at every address are equal. -/
theorem ext_byteAt {t : Stack} (hsize : s.size = t.size) (h : ∀ a, s.byteAt a = t.byteAt a) :
    s = t := by
  refine Stack.ext (List.ext_getElem hsize fun k hk hk' => ?_)
  rw [getElem_slots hk, getElem_slots hk']
  refine Word.ext_byte fun n hn => ?_
  rw [← byteAt_slot s hn, ← byteAt_slot t hn, h]

theorem byteAt_start {size : Nat} (h : start size = .ok s) (a : Nat) : s.byteAt a = 0 := by
  rw [start] at h
  split at h
  · cases h
    have hslot : ∀ k : Nat, (List.replicate size (0 : Word))[k]?.getD 0 = 0 := by
      intro k
      rw [List.getElem?_replicate]
      split <;> rfl
    rw [byteAt, slot, hslot]
    simp [Word.byte]
  · contradiction

theorem locate_eq (s : Stack) (a : Int) :
    s.locate a =
      if a < 0 ∨ 8 * s.size ≤ a then .error (.outOfBounds a) else .ok (.ofAddress a) := by
  by_cases h : 0 ≤ a ∧ a < 8 * s.size
  · rw [locate, if_pos h, if_neg (by omega)]
    rfl
  · rw [locate, if_neg h, if_pos (by omega)]

theorem locate_of_lt (ha : a < 8 * s.size) : s.locate a = .ok (.ofAddress a) := by
  rw [locate_eq, if_neg (by omega)]

theorem slot_ofAddress_lt (ha : a < 8 * s.size) :
    (Place.ofAddress a).slot < s.slots.length := by
  have hsize : s.size = s.slots.length := rfl
  rw [Place.slot_ofAddress]
  omega

/-- Reading finds the byte at an address of the stack. -/
theorem locate_readByte (ha : a < 8 * s.size) :
    (s.locate a >>= s.readByte) = .ok (s.byteAt a) := by
  have hslot := slot_ofAddress_lt ha
  rw [locate_of_lt ha]
  show s.readByte (.ofAddress a) = _
  rw [readByte_of_lt hslot, getElem_slots hslot, Place.lane_ofAddress]
  rfl

/-- Writing changes the byte at an address of the stack. -/
theorem locate_writeByte (ha : a < 8 * s.size) (b : UInt8) :
    (s.locate a >>= (s.writeByte · b)) =
      .ok (s.set (a / 8) (Word.setByte (s.slot (a / 8)) (a % 8) b)) := by
  have hslot := slot_ofAddress_lt ha
  rw [locate_of_lt ha]
  show s.writeByte (.ofAddress a) b = _
  rw [writeByte_of_lt hslot, getElem_slots hslot, Place.lane_ofAddress]
  rfl

end Stack

end StackSteps
