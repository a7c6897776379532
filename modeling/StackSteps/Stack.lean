import StackSteps.Fault
import StackSteps.Word

/-!
# The stack

Slots of eight bytes. The lowest address is that of slot zero, and byte zero of a slot is its
low-order one. A slot is read and written whole or up to a number of bytes, a byte is read and
written at its place. Main statements: `locate_eq_ok_iff` (which addresses have which place),
`read_whole` and `write_whole` (slots of the stack), `readByte_of_lt` and `writeByte_of_lt` (bytes
of the stack), `access_of_size` and `access_of_le` (what is reported else).
-/

namespace StackSteps

/-- Between one and this many slots make a stack. -/
def Stack.maxSize : Nat := 4096

/-- The slots of a stack, from the lowest address up. -/
structure Stack where
  slots : List Word
  size_pos : 0 < slots.length
  size_le : slots.length ≤ Stack.maxSize
deriving DecidableEq

/-- Where a byte lies: its slot, and its number from the low-order end. -/
structure Place where
  slot : Nat
  byte : Nat
deriving DecidableEq

namespace Place

/-- The byte of the slot that is meant: the number counts modulo two to the thirty-second power, and
past seven no byte is meant. -/
def lane (p : Place) : Nat :=
  p.byte % 4294967296

end Place

namespace Stack

def start (size : Nat) : Except Fault Stack :=
  if h : 0 < size ∧ size ≤ maxSize then
    .ok ⟨List.replicate size 0, by simpa using h.1, by simpa using h.2⟩
  else .error (.badStackSize size)

def size (s : Stack) : Nat :=
  s.slots.length

/-- The address of the highest slot. -/
def top (s : Stack) : Word :=
  UInt64.ofNat (8 * (s.size - 1))

/-- The stack with another value in one slot, if there is such a slot. -/
def set (s : Stack) (i : Nat) (v : Word) : Stack :=
  ⟨s.slots.set i v, by simpa using s.size_pos, by simpa using s.size_le⟩

/-- Checks a number of bytes, then the slot, and gives the slot's value. -/
def access (s : Stack) (i size : Nat) : Except Fault Word :=
  if size = 0 ∨ 8 < size then .error (.sizeExceeded size)
  else
    match s.slots[i]? with
    | none => .error (.outOfBounds (8 * i))
    | some v => .ok v

/-- Reads the first bytes of a slot. -/
def read (s : Stack) (i size : Nat) : Except Fault Word :=
  (s.access i size).map (Word.truncate · size)

/-- Writes the first bytes of a slot and clears its others. -/
def write (s : Stack) (i : Nat) (v : Word) (size : Nat) : Except Fault Stack :=
  (s.access i size).map fun _ => s.set i (Word.truncate v size)

def locate (s : Stack) (address : Int) : Except Fault Place :=
  if 0 ≤ address ∧ address < 8 * s.size then
    .ok ⟨address.toNat / 8, address.toNat % 8⟩
  else .error (.outOfBounds address)

def readByte (s : Stack) (p : Place) : Except Fault UInt8 :=
  (s.read p.slot 8).map (Word.byte · p.lane)

/-- Writes the byte at a place and leaves the others of the slot. -/
def writeByte (s : Stack) (p : Place) (b : UInt8) : Except Fault Stack := do
  let v ← s.read p.slot 8
  s.write p.slot (Word.setByte v p.lane b) 8

@[simp] theorem slots_set (s : Stack) (i : Nat) (v : Word) :
    (s.set i v).slots = s.slots.set i v := rfl

@[simp] theorem size_set (s : Stack) (i : Nat) (v : Word) : (s.set i v).size = s.size := by
  simp [size]

theorem ext {s t : Stack} (h : s.slots = t.slots) : s = t := by
  cases s; cases t; cases h; rfl

/-- Exactly the addresses from zero up to eight times the size have a place. -/
theorem locate_eq_ok_iff {s : Stack} {address : Int} {p : Place} :
    s.locate address = .ok p ↔ p.slot < s.size ∧ p.byte < 8 ∧ address = 8 * p.slot + p.byte := by
  obtain ⟨slot, byte⟩ := p
  simp only [locate]
  split
  · simp only [Except.ok.injEq, Place.mk.injEq]
    omega
  · simp only [reduceCtorEq, false_iff]
    rintro ⟨hs, hb, rfl⟩
    omega

theorem locate_eq_error_iff {s : Stack} {address : Int} {f : Fault} :
    s.locate address = .error f ↔
      (address < 0 ∨ 8 * s.size ≤ address) ∧ f = .outOfBounds address := by
  simp only [locate]
  split
  · simp only [reduceCtorEq, false_iff]
    rintro ⟨hout, -⟩
    omega
  · simp only [Except.error.injEq]
    exact ⟨fun h => ⟨by omega, h.symm⟩, fun h => h.2.symm⟩

theorem access_of_lt {s : Stack} {i size : Nat} (hs : size ≠ 0) (hs' : size ≤ 8)
    (hi : i < s.slots.length) : s.access i size = .ok s.slots[i] := by
  simp [access, hs, hi, Nat.not_lt.mpr hs']

/-- A size error wins over a slot error. -/
theorem access_of_size {s : Stack} {i size : Nat} (hs : size = 0 ∨ 8 < size) :
    s.access i size = .error (.sizeExceeded size) := by
  simp [access, hs]

/-- A slot past the end is reported by its address. -/
theorem access_of_le {s : Stack} {i size : Nat} (hs : size ≠ 0) (hs' : size ≤ 8)
    (hi : s.slots.length ≤ i) : s.access i size = .error (.outOfBounds (8 * i)) := by
  simp [access, hs, Nat.not_lt.mpr hs', List.getElem?_eq_none hi]

theorem write_of_lt {s : Stack} {i size : Nat} (hs : size ≠ 0) (hs' : size ≤ 8)
    (hi : i < s.slots.length) (v : Word) :
    s.write i v size = .ok (s.set i (Word.truncate v size)) := by
  simp [write, access_of_lt hs hs' hi, Except.map]

theorem read_whole {s : Stack} {i : Nat} (hi : i < s.slots.length) :
    s.read i 8 = .ok s.slots[i] := by
  have h := access_of_lt (show 8 ≠ 0 by decide) (Nat.le_refl 8) hi
  simp [read, h, Except.map, Word.truncate]

theorem write_whole {s : Stack} {i : Nat} (hi : i < s.slots.length) (v : Word) :
    s.write i v 8 = .ok (s.set i v) :=
  write_of_lt (by decide) (Nat.le_refl 8) hi v

theorem readByte_of_lt {s : Stack} {p : Place} (hp : p.slot < s.slots.length) :
    s.readByte p = .ok (Word.byte s.slots[p.slot] p.lane) := by
  simp [readByte, read_whole hp, Except.map]

theorem writeByte_of_lt {s : Stack} {p : Place} (hp : p.slot < s.slots.length) (b : UInt8) :
    s.writeByte p b = .ok (s.set p.slot (Word.setByte s.slots[p.slot] p.lane b)) := by
  simp [writeByte, read_whole hp, write_whole hp, bind, Except.bind]

end Stack

end StackSteps
