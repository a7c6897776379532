import StackSteps.Data.Except
import StackSteps.Proofs.Stack.Bytes

/-!
# A stack is a little-endian array of bytes

The bytes of a stack from the lowest address up tell what each operation answers
(`Stack.ActsAs`), and each operation changes the array in its own way (`Stack.Call.bytesAfter`), be
it through slots or through single bytes. So the array after any operations is the one that they
make of the first array, and it still tells what the next ones answer
(`Stack.little_endian_array`).
-/
namespace StackSteps

namespace Word

theorem weight_eq_pow (k : Nat) : weight k = 256 ^ k := by
  induction k with
  | zero => rfl
  | succ k ih => rw [weight, ih, Nat.pow_succ]

/-- The low bytes, the low-order one first. -/
def lowBytes (v : Word) (n : Nat) : List UInt8 :=
  (List.range n).map (byte v)

/-- The number that bytes make up, the low-order one first. -/
def littleEndian (bytes : List UInt8) : Nat :=
  Nat.ofDigits 256 (bytes.map UInt8.toNat)

@[simp] theorem length_lowBytes (v : Word) (n : Nat) : (lowBytes v n).length = n := by
  simp [lowBytes]

theorem getElem?_lowBytes (v : Word) (n k : Nat) :
    (lowBytes v n)[k]? = if k < n then some (byte v k) else none := by
  by_cases hk : k < n <;> simp [lowBytes, hk]

theorem littleEndian_lowBytes (v : Word) {n : Nat} (hn : n ≤ 8) :
    littleEndian (lowBytes v n) = v.toNat % 256 ^ n := by
  induction n with
  | zero => simp [littleEndian, lowBytes, Nat.mod_one]
  | succ n ih =>
    have hsplit : lowBytes v (n + 1) = lowBytes v n ++ [byte v n] := by
      simp [lowBytes, List.range_succ]
    have ih := ih (by omega)
    rw [littleEndian] at ih
    rw [littleEndian, hsplit, List.map_append, Nat.ofDigits_append, ih, List.length_map,
      length_lowBytes, List.map_singleton, Nat.ofDigits_singleton, toNat_byte (by omega),
      weight_eq_pow, Nat.mod_pow_succ]

/-- The low bytes of a word that has no others. -/
theorem lowBytes_truncate (v : Word) {n : Nat} (hn : n ≤ 8) :
    lowBytes (truncate v n) 8 = lowBytes v n ++ List.replicate (8 - n) 0 := by
  refine List.ext_getElem? fun k => ?_
  rw [getElem?_lowBytes, byte_truncate, List.getElem?_append, getElem?_lowBytes, length_lowBytes,
    List.getElem?_replicate]
  split_ifs <;> first | rfl | omega

/-- The bytes as they are displayed stand in the opposite order. -/
theorem getElem?_bytes (v : Word) {k : Nat} (hk : k < 8) :
    (bytes v)[7 - k]? = some (byte v k) := by
  have hback : 8 - 1 - (7 - k) = k := by omega
  have hrange : (List.range 8).reverse[7 - k]? = some k := by
    rw [List.getElem?_reverse (by simp; omega), List.length_range, hback, List.getElem?_range hk]
  rw [bytes, List.getElem?_map, hrange]
  rfl

end Word

namespace Stack

/-- The bytes from the lowest address up. -/
def bytes (s : Stack) : List UInt8 :=
  (List.range (8 * s.size)).map s.byteAt

/-- Bytes with new ones in the place of some, from a position on. -/
def overwrite (bytes : List UInt8) (a : Nat) (new : List UInt8) : List UInt8 :=
  bytes.take a ++ new ++ bytes.drop (a + new.length)

theorem length_overwrite {bytes new : List UInt8} {a : Nat} (h : a + new.length ≤ bytes.length) :
    (overwrite bytes a new).length = bytes.length := by
  simp only [overwrite, List.length_append, List.length_take, List.length_drop]
  omega

theorem getElem?_overwrite {bytes new : List UInt8} {a : Nat} (h : a + new.length ≤ bytes.length)
    (k : Nat) :
    (overwrite bytes a new)[k]? =
      if a ≤ k ∧ k < a + new.length then new[k - a]? else bytes[k]? := by
  have hlength : (bytes.take a).length = a := by
    rw [List.length_take]
    omega
  rw [overwrite, List.append_assoc, List.getElem?_append, hlength]
  by_cases hlow : k < a
  · rw [if_pos hlow, if_neg (by omega), List.getElem?_take_of_lt hlow]
  · rw [if_neg hlow, List.getElem?_append]
    by_cases hnew : k < a + new.length
    · rw [if_pos (by omega), if_pos (by omega)]
    · rw [if_neg (by omega), if_neg (by omega), List.getElem?_drop]
      congr 1
      omega

section bytes

variable {s : Stack} {k n : Nat}

@[simp] theorem length_bytes (s : Stack) : s.bytes.length = 8 * s.size := by
  simp [bytes]

theorem getElem?_bytes (s : Stack) (a : Nat) :
    s.bytes[a]? = if a < 8 * s.size then some (s.byteAt a) else none := by
  by_cases ha : a < 8 * s.size <;> simp [bytes, ha]

/-- The first bytes of a slot. -/
theorem take_drop_bytes (hk : k < s.size) (hn : n ≤ 8) :
    (s.bytes.drop (8 * k)).take n = Word.lowBytes (s.slot k) n := by
  refine List.ext_getElem? fun j => ?_
  rw [List.getElem?_take, List.getElem?_drop, getElem?_bytes, Word.getElem?_lowBytes]
  by_cases hj : j < n
  · rw [if_pos hj, if_pos hj, if_pos (by omega), byteAt_slot s (by omega)]
  · rw [if_neg hj, if_neg hj]

theorem bytes_set (hk : k < s.size) (v : Word) :
    (s.set k v).bytes = overwrite s.bytes (8 * k) (Word.lowBytes v 8) := by
  refine List.ext_getElem? fun a => ?_
  have hroom : 8 * k + (Word.lowBytes v 8).length ≤ s.bytes.length := by
    rw [Word.length_lowBytes, length_bytes]
    omega
  rw [getElem?_overwrite hroom, Word.length_lowBytes, Word.getElem?_lowBytes, getElem?_bytes,
    getElem?_bytes, size_set, byteAt_set hk]
  by_cases ha : k = a / 8
  · have hbyte : a - 8 * k = a % 8 := by omega
    rw [if_pos (by omega), if_pos ha, if_pos (by omega), if_pos (by omega), hbyte]
  · have hout : ¬ (8 * k ≤ a ∧ a < 8 * k + 8) := by omega
    rw [if_neg ha, if_neg hout]

theorem bytes_setByte (hk : k < s.size) (hn : n < 8) (b : UInt8) :
    (s.set k (Word.setByte (s.slot k) n b)).bytes = s.bytes.set (8 * k + n) b := by
  refine List.ext_getElem? fun a => ?_
  rw [List.getElem?_set, getElem?_bytes, getElem?_bytes, size_set, byteAt_setByte hk hn,
    length_bytes]
  by_cases ha : a = 8 * k + n
  · rw [if_pos (by omega), if_pos ha, if_pos ha.symm, if_pos (by omega)]
  · rw [if_neg ha, if_neg (Ne.symm ha)]

end bytes

/-- An operation on a stack. -/
inductive Call where
  | write (i : Nat) (v : Word) (size : Nat)
  | read (i size : Nat)
  | locate (address : Int)
  | readByte (p : Place)
  | writeByte (p : Place) (b : UInt8)

inductive Answer where
  | done
  | word (v : Word)
  | place (p : Place)
  | byte (b : UInt8)

/-- Looks something up in the stack, which may fail. -/
def ask {α : Type} (f : Stack → Except Fault α) (answer : α → Answer) :
    EStateM Fault Stack Answer := do
  return answer (← MonadExcept.ofExcept (f (← get)))

/-- Takes another stack for the present one, which may fail. -/
def change (f : Stack → Except Fault Stack) : EStateM Fault Stack Answer := do
  let changed ← MonadExcept.ofExcept (f (← get))
  modify fun _ => changed
  return .done

def perform : Call → EStateM Fault Stack Answer
  | .write i v size => change (·.write i v size)
  | .read i size => ask (·.read i size) .word
  | .locate address => ask (·.locate address) .place
  | .readByte p => ask (·.readByte p) .byte
  | .writeByte p b => change (·.writeByte p b)

theorem run_ask {α : Type} (f : Stack → Except Fault α) (answer : α → Answer) (s : Stack) :
    (ask f answer).run s =
      match f s with
      | .ok a => .ok (answer a) s
      | .error e => .error e s := by
  rw [ask, run_get_bind, run_ofExcept_bind]
  cases f s <;> rfl

theorem run_change (f : Stack → Except Fault Stack) (s : Stack) :
    (change f).run s =
      match f s with
      | .ok s' => .ok .done s'
      | .error e => .error e s := by
  rw [change, run_get_bind, run_ofExcept_bind]
  cases f s <;> rfl

/-- The stack after a call, whether the call fails or not. -/
def afterCall (s : Stack) (call : Call) : Stack :=
  match (perform call).run s with
  | .ok _ s' => s'
  | .error _ s' => s'

def afterCalls (s : Stack) (calls : List Call) : Stack :=
  calls.foldl afterCall s

/-- What an operation makes of the bytes. A slot is written when its size fits and the slot is
there, and then its further bytes are zero. -/
def Call.bytesAfter (bytes : List UInt8) : Call → List UInt8
  | .write i v size =>
    if 0 < size ∧ size ≤ 8 ∧ 8 * i + 8 ≤ bytes.length then
      overwrite bytes (8 * i) (v.lowBytes size ++ List.replicate (8 - size) 0)
    else bytes
  | .writeByte p b => if p.lane < 8 then bytes.set (8 * p.slot + p.lane) b else bytes
  | .read .. | .locate _ | .readByte _ => bytes

theorem Call.length_bytesAfter (bytes : List UInt8) (call : Call) :
    (call.bytesAfter bytes).length = bytes.length := by
  cases call with
  | write i v size =>
    rw [bytesAfter]
    split_ifs with h
    · have hnew : (v.lowBytes size ++ List.replicate (8 - size) 0).length = 8 := by
        simp
        omega
      exact length_overwrite (by omega)
    · rfl
  | read i size => rfl
  | locate address => rfl
  | readByte p => rfl
  | writeByte p b =>
    rw [bytesAfter]
    split
    · exact List.length_set
    · rfl

/-- All that the operations of a stack tell, by its bytes from the lowest address up. -/
structure ActsAs (s : Stack) (bytes : List UInt8) : Prop where
  length : bytes.length = 8 * s.size
  byte : ∀ i v k, s.slots[i]? = some v → k < 8 →
    ∃ b, bytes[8 * i + k]? = some b ∧ b.toNat = v.toNat / 256 ^ k % 256 ∧
      (Word.bytes v)[7 - k]? = some b
  locate : ∀ a : Int, s.locate a =
    if 0 ≤ a ∧ a < bytes.length then .ok ⟨a.toNat / 8, a.toNat % 8⟩ else .error (.outOfBounds a)
  readByte : ∀ (a : Nat) b, bytes[a]? = some b → (s.locate a >>= s.readByte) = .ok b
  writeByte : ∀ (a : Nat) b, a < bytes.length →
    ∃ s', (s.locate a >>= (s.writeByte · b)) = .ok s' ∧ s'.bytes = bytes.set a b
  badSize : ∀ i v size, size = 0 ∨ 8 < size →
    s.read i size = .error (.sizeExceeded size) ∧ s.write i v size = .error (.sizeExceeded size)
  badSlot : ∀ i v size, 0 < size → size ≤ 8 → s.size ≤ i →
    s.read i size = .error (.outOfBounds (8 * i)) ∧
      s.write i v size = .error (.outOfBounds (8 * i))
  read : ∀ i size, 0 < size → size ≤ 8 → i < s.size →
    ∃ w, s.read i size = .ok w ∧
      w.toNat = Word.littleEndian ((bytes.drop (8 * i)).take size)
  write : ∀ i v size, 0 < size → size ≤ 8 → i < s.size →
    ∃ s', s.write i v size = .ok s' ∧
      s'.bytes = overwrite bytes (8 * i) (v.lowBytes size ++ List.replicate (8 - size) 0)
  failed : ∀ call f s', (perform call).run s = .error f s' → s' = s

section operations

variable {s : Stack} {i size : Nat}

/-- A slot whose number of bytes does not fit, or that is not there, is neither read nor written. -/
theorem read_write_of_access {f : Fault} (h : s.access i size = .error f) (v : Word) :
    s.read i size = .error f ∧ s.write i v size = .error f := by
  rw [Stack.read, Stack.write, h]
  exact ⟨rfl, rfl⟩

theorem read_of_lt (hpos : 0 < size) (hsize : size ≤ 8) (hi : i < s.size) :
    s.read i size = .ok (Word.truncate (s.slot i) size) := by
  have hi : i < s.slots.length := hi
  rw [Stack.read, access_of_lt (by omega) hsize hi, getElem_slots hi]
  rfl

theorem bytes_set_truncate (hsize : size ≤ 8) (hi : i < s.size) (v : Word) :
    (s.set i (Word.truncate v size)).bytes =
      overwrite s.bytes (8 * i) (v.lowBytes size ++ List.replicate (8 - size) 0) := by
  rw [bytes_set hi, Word.lowBytes_truncate v hsize]

/-- A failing operation changes nothing. -/
theorem eq_of_run_perform {call : Call} {f : Fault} {s' : Stack}
    (h : (perform call).run s = .error f s') : s' = s := by
  have hask : ∀ {α : Type} (g : Stack → Except Fault α) (answer : α → Answer),
      (ask g answer).run s = .error f s' → s' = s := by
    intro α g answer h
    rw [run_ask] at h
    split at h
    · contradiction
    · exact (EStateM.Result.error.inj h).2.symm
  have hchange : ∀ g : Stack → Except Fault Stack, (change g).run s = .error f s' → s' = s := by
    intro g h
    rw [run_change] at h
    split at h
    · contradiction
    · exact (EStateM.Result.error.inj h).2.symm
  cases call with
  | write i v size => exact hchange _ h
  | read i size => exact hask _ _ h
  | locate address => exact hask _ _ h
  | readByte p => exact hask _ _ h
  | writeByte p b => exact hchange _ h

end operations

section bytesAfter

variable (s : Stack)

theorem afterCall_ask {α : Type} {f : Stack → Except Fault α} {answer : α → Answer} {call : Call}
    (h : perform call = ask f answer) : s.afterCall call = s := by
  rw [afterCall, h, run_ask]
  cases f s <;> rfl

theorem bytes_afterCall_write (i : Nat) (v : Word) (size : Nat) :
    (s.afterCall (.write i v size)).bytes = Call.bytesAfter s.bytes (.write i v size) := by
  rw [afterCall, perform, run_change, Call.bytesAfter, length_bytes]
  by_cases hsize : size = 0 ∨ 8 < size
  · have hout : ¬ (0 < size ∧ size ≤ 8 ∧ 8 * i + 8 ≤ 8 * s.size) := by omega
    rw [(read_write_of_access (access_of_size hsize) v).2, if_neg hout]
  · by_cases hi : i < s.size
    · have hin : 0 < size ∧ size ≤ 8 ∧ 8 * i + 8 ≤ 8 * s.size := by omega
      rw [write_of_lt (by omega) (by omega) hi, if_pos hin]
      exact bytes_set_truncate hin.2.1 hi v
    · have hout : ¬ (0 < size ∧ size ≤ 8 ∧ 8 * i + 8 ≤ 8 * s.size) := by omega
      have haccess := access_of_le (s := s) (show size ≠ 0 by omega) (by omega) (Nat.not_lt.mp hi)
      rw [(read_write_of_access haccess v).2, if_neg hout]

theorem set_slot_self (k : Nat) : s.set k (s.slot k) = s := by
  refine Stack.ext (List.ext_getElem? fun j => ?_)
  rw [slots_set, List.getElem?_set]
  split_ifs with hj hk
  · subst hj
    simp [slot, hk]
  · rw [List.getElem?_eq_none (by omega)]
  · rfl

theorem writeByte_of_lane {s : Stack} {p : Place} (hp : p.slot < s.size) (hlane : p.lane < 8)
    (b : UInt8) :
    ∃ s', s.writeByte p b = .ok s' ∧ s'.bytes = s.bytes.set (8 * p.slot + p.lane) b := by
  refine ⟨_, writeByte_of_lt hp b, ?_⟩
  rw [getElem_slots hp, bytes_setByte hp hlane]

/-- With no byte meant, the slot is written back as it was. -/
theorem writeByte_of_le_lane {s : Stack} {p : Place} (hp : p.slot < s.size) (hlane : 8 ≤ p.lane)
    (b : UInt8) : s.writeByte p b = .ok s := by
  rw [writeByte_of_lt hp, getElem_slots hp, Word.setByte, if_neg (by omega), set_slot_self]

theorem bytes_afterCall_writeByte (p : Place) (b : UInt8) :
    (s.afterCall (.writeByte p b)).bytes = Call.bytesAfter s.bytes (.writeByte p b) := by
  rw [afterCall, perform, run_change, Call.bytesAfter]
  by_cases hp : p.slot < s.slots.length
  · by_cases hlane : p.lane < 8
    · obtain ⟨s', hwrite, hbytes⟩ := writeByte_of_lane hp hlane b
      rw [hwrite, if_pos hlane]
      exact hbytes
    · rw [writeByte_of_le_lane hp (Nat.not_lt.mp hlane), if_neg hlane]
  · have haccess := access_of_le (s := s) (by decide) (Nat.le_refl 8) (Nat.not_lt.mp hp)
    have hwrite : s.writeByte p b = .error (.outOfBounds (8 * p.slot)) := by
      rw [writeByte, (read_write_of_access haccess 0).1]
      rfl
    have hout : s.bytes.length ≤ 8 * p.slot + p.lane := by
      have hsize : s.size = s.slots.length := rfl
      rw [length_bytes]
      omega
    rw [hwrite, List.set_eq_of_length_le hout, ite_self]

/-- What a call does to a stack, it does to the bytes. -/
theorem bytes_afterCall (call : Call) : (s.afterCall call).bytes = call.bytesAfter s.bytes := by
  cases call with
  | write i v size => exact s.bytes_afterCall_write i v size
  | read i size => rw [afterCall_ask s rfl, Call.bytesAfter]
  | locate address => rw [afterCall_ask s rfl, Call.bytesAfter]
  | readByte p => rw [afterCall_ask s rfl, Call.bytesAfter]
  | writeByte p b => exact s.bytes_afterCall_writeByte p b

theorem bytes_afterCalls (calls : List Call) :
    (s.afterCalls calls).bytes = calls.foldl Call.bytesAfter s.bytes := by
  induction calls generalizing s with
  | nil => rfl
  | cons call calls ih =>
    have ih := ih (s.afterCall call)
    rw [bytes_afterCall] at ih
    exact ih

theorem size_afterCall (call : Call) : (s.afterCall call).size = s.size := by
  have hlength : (call.bytesAfter s.bytes).length = s.bytes.length := call.length_bytesAfter _
  rw [← bytes_afterCall, length_bytes, length_bytes] at hlength
  omega

theorem size_afterCalls (calls : List Call) : (s.afterCalls calls).size = s.size := by
  induction calls generalizing s with
  | nil => rfl
  | cons call calls ih => exact (ih (s.afterCall call)).trans (s.size_afterCall call)

end bytesAfter

theorem actsAs_bytes (s : Stack) : s.ActsAs s.bytes where
  length := s.length_bytes
  byte i v k hv hk := by
    have hi : i < s.size := (List.getElem?_eq_some_iff.mp hv).1
    have hslot : s.slot i = v := by
      rw [slot, hv]
      rfl
    refine ⟨Word.byte v k, ?_, ?_, Word.getElem?_bytes v hk⟩
    · rw [getElem?_bytes, if_pos (by omega), byteAt_slot s hk, hslot]
    · rw [Word.toNat_byte hk, Word.weight_eq_pow]
  locate a := by
    rw [length_bytes]
    rfl
  readByte a b hb := by
    rw [getElem?_bytes] at hb
    split at hb
    · rename_i ha
      rw [locate_readByte ha, Option.some.inj hb]
    · contradiction
  writeByte a b ha := by
    rw [length_bytes] at ha
    refine ⟨_, locate_writeByte ha b, ?_⟩
    rw [bytes_setByte (by omega) (by omega), Nat.div_add_mod]
  badSize i v size h := read_write_of_access (access_of_size h) v
  badSlot i v size hpos hsize hi :=
    read_write_of_access (access_of_le (by omega) hsize hi) v
  read i size hpos hsize hi := by
    refine ⟨_, read_of_lt hpos hsize hi, ?_⟩
    rw [Word.toNat_truncate hsize, Word.weight_eq_pow, take_drop_bytes hi hsize,
      Word.littleEndian_lowBytes _ hsize]
  write i v size hpos hsize hi :=
    ⟨_, write_of_lt (by omega) hsize hi v, bytes_set_truncate hsize hi v⟩
  failed _ _ _ h := eq_of_run_perform h

/-- Whatever operations have been done, failed ones among them, the bytes of the stack are those
that the operations make of the bytes from before, and they tell what each operation answers. -/
theorem little_endian_array (s₀ : Stack) (calls : List Call) :
    let s := s₀.afterCalls calls
    s.size = s₀.size ∧ s.bytes = calls.foldl Call.bytesAfter s₀.bytes ∧ s.ActsAs s.bytes :=
  ⟨s₀.size_afterCalls calls, s₀.bytes_afterCalls calls, actsAs_bytes _⟩

/-- A byte goes into a slot, a part of a word goes over the whole slot above, and nine bytes go
nowhere. -/
example :
    (start 2).map (fun s => (s.afterCalls [.write 0 0x1122334455667788 8, .writeByte ⟨0, 7⟩ 255,
      .write 1 0x99aabb 8, .write 1 0xddee 1, .write 0 0 9]).bytes) =
    .ok [0x88, 0x77, 0x66, 0x55, 0x44, 0x33, 0x22, 255, 0xee, 0, 0, 0, 0, 0, 0, 0] := by
  decide +kernel

end Stack

end StackSteps
