import StackSteps.Text.Numeral

/-!
# Registers and their views

The machine has thirty-one general registers, a stack pointer and a frame pointer, each of
sixty-four bits. An instruction names a register through a view: all of it, or its low half. The
two pointers have no name for their low half, and a low view of one of them prints like the whole
register. Main statements: `ofIndex_index` and `index_ofIndex` (the numbering is a bijection),
`mem_all`, and `View.ofChars?_name` (a view prints as a name that reads back).
-/

namespace StackSteps

/-- A register. The frame pointer is a register of its own, not one of the general ones. -/
inductive Register where
  | general (number : Fin 31)
  | sp
  | fp
deriving DecidableEq

namespace Register

/-- The place of a register in display order: the general ones by number, then the pointers. -/
def index : Register → Fin 33
  | general number => ⟨number.val, by omega⟩
  | sp => 31
  | fp => 32

def ofIndex (i : Fin 33) : Register :=
  if h : i.val < 31 then general ⟨i.val, h⟩ else if i.val = 31 then sp else fp

@[simp] theorem ofIndex_index (r : Register) : ofIndex r.index = r := by
  cases r with
  | general number => simp [index, ofIndex]
  | sp => rfl
  | fp => rfl

@[simp] theorem index_ofIndex (i : Fin 33) : (ofIndex i).index = i := by
  revert i; decide

theorem index_inj {r s : Register} : r.index = s.index ↔ r = s :=
  ⟨fun h => by rw [← ofIndex_index r, h, ofIndex_index], fun h => h ▸ rfl⟩

def all : List Register :=
  (List.finRange 33).map ofIndex

theorem mem_all (r : Register) : r ∈ all :=
  List.mem_map.mpr ⟨r.index, List.mem_finRange _, ofIndex_index r⟩

def general? (number : Nat) : Option Register :=
  if h : number < 31 then some (general ⟨number, h⟩) else none

def number? : Register → Option (Fin 31)
  | general number => some number
  | sp | fp => none

/-- Whether a register holds a byte address of the stack. -/
def isPointer : Register → Bool
  | general _ => false
  | sp | fp => true

def name : Register → String
  | general number => "x" ++ Text.decimal number
  | sp => "sp"
  | fp => "fp"

end Register

/-- How much of a register a view shows: all of it or the low half. -/
inductive Width where
  | x
  | w
deriving DecidableEq

/-- A register as an instruction names it. -/
structure View where
  register : Register
  width : Width
deriving DecidableEq

structure UnknownRegister where
  name : String
deriving DecidableEq

def UnknownRegister.message (unknown : UnknownRegister) : String :=
  "unknown register `" ++ unknown.name ++ "`"

namespace View

abbrev whole (r : Register) : View := ⟨r, .x⟩

abbrev low (r : Register) : View := ⟨r, .w⟩

/-- The low half of a register that has a name for it. -/
def low? (r : Register) : Option View :=
  if r.isPointer then none else some (low r)

/-- Whether a view shows less than the register. -/
def isAlias (v : View) : Bool :=
  v.width = .w

def backing (v : View) : View :=
  whole v.register

/-- Whether a view has a name of its own. -/
def isNamed (v : View) : Bool :=
  !(v.isAlias && v.register.isPointer)

/-- The place of a view in display order: by register, the whole before the low half. -/
def rank (v : View) : Nat :=
  2 * v.register.index + if v.isAlias then 1 else 0

theorem rank_inj {v u : View} : v.rank = u.rank ↔ v = u := by
  constructor
  · intro h
    obtain ⟨r, a⟩ := v
    obtain ⟨s, b⟩ := u
    have hr : r.index = s.index := by
      ext
      cases a <;> cases b <;> simp [rank, isAlias] at h <;> omega
    rw [Register.index_inj] at hr
    subst hr
    cases a <;> cases b <;> simp [rank, isAlias] at h <;> rfl
  · rintro rfl; rfl

/-- The name of a view. A pointer is printed alike at both widths. -/
def name : View → String
  | ⟨.general number, .w⟩ => "w" ++ Text.decimal number
  | ⟨r, _⟩ => r.name

/-- Reads the number of a general register, which is spelled without leading zeros. -/
def general? (cs : List Char) : Option Register :=
  (Text.canonical? cs).bind Register.general?

def ofChars? : List Char → Option View
  | ['s', 'p'] => some (whole .sp)
  | ['f', 'p'] => some (whole .fp)
  | 'x' :: digits => (general? digits).map whole
  | 'w' :: digits => (general? digits).map low
  | _ => none

/-- Reads a name, and names it in the complaint. -/
def read (name : String) : Except UnknownRegister View :=
  match ofChars? name.toList with
  | some v => .ok v
  | none => .error ⟨name⟩

@[simp] theorem general?_toDigits (number : Fin 31) :
    general? (Nat.toDigits 10 number) = some (.general number) := by
  simp [general?, Text.canonical?_toDigits, Register.general?]

/-- A view that has a name of its own reads back from it. -/
theorem ofChars?_name {v : View} (h : v.isNamed = true) : ofChars? v.name.toList = some v := by
  obtain ⟨r, a⟩ := v
  cases r <;> cases a <;> simp_all [name, Register.name, ofChars?, isNamed, isAlias,
    Register.isPointer]

end View

def Register.read (name : String) : Except UnknownRegister Register :=
  match View.read name with
  | .ok ⟨r, .x⟩ => .ok r
  | .ok ⟨_, .w⟩ => .error ⟨name⟩
  | .error unknown => .error unknown

end StackSteps
