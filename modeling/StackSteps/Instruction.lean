import StackSteps.Register
import StackSteps.Word

/-!
# Instructions and their text

The six instructions, their operands, and how each is written. Main statements:
`Mnemonic.ofName?_eq_some_iff` (a mnemonic has one spelling) and `Immediate.toNat_bits` (an
immediate stands for its value modulo two to the sixty-fourth power).
-/

namespace StackSteps

inductive Mnemonic where
  | add
  | sub
  | mov
  | strb
  | ldrb
  | stp
deriving DecidableEq

namespace Mnemonic

def all : List Mnemonic := [add, sub, mov, strb, ldrb, stp]

def name : Mnemonic → String
  | add => "add"
  | sub => "sub"
  | mov => "mov"
  | strb => "strb"
  | ldrb => "ldrb"
  | stp => "stp"

def ofName? (name : String) : Option Mnemonic :=
  all.find? (·.name = name)

theorem ofName?_eq_some_iff {s : String} {m : Mnemonic} : ofName? s = some m ↔ m.name = s := by
  constructor
  · intro h
    simpa using List.find?_some h
  · rintro rfl
    cases m <;> decide

end Mnemonic

inductive Radix where
  | decimal
  | hexadecimal
deriving DecidableEq

/-- A number in an instruction, with its sign and spelling. -/
structure Immediate where
  value : Int
  radix : Radix
deriving DecidableEq

namespace Immediate

/-- The word that an immediate stands for: its value modulo two to the sixty-fourth power. -/
def bits (imm : Immediate) : Word :=
  UInt64.ofNat (imm.value % 18446744073709551616).toNat

/-- Whether an immediate may be written in a line: as a signed or as an unsigned word. -/
def fits (imm : Immediate) : Bool :=
  -9223372036854775808 ≤ imm.value ∧ imm.value < 18446744073709551616

def text (imm : Immediate) : String :=
  match imm.radix, imm.value with
  | .decimal, value => "#" ++ Text.integer value
  | .hexadecimal, .ofNat n => "#0x" ++ Text.hexadecimal n
  | .hexadecimal, .negSucc n => "#-0x" ++ Text.hexadecimal (n + 1)

theorem toNat_bits (imm : Immediate) :
    (imm.bits.toNat : Int) = imm.value % 18446744073709551616 := by
  simp only [bits, UInt64.toNat_ofNat']
  omega

end Immediate

/-- The last operand of `add`, `sub` and `mov`. -/
inductive Operand where
  | register (view : View)
  | immediate (imm : Immediate)
deriving DecidableEq

def Operand.text : Operand → String
  | register view => view.name
  | immediate imm => imm.text

/-- A place in memory, as a register plus an offset. With writeback the register is moved there. -/
structure Address where
  base : View
  offset : Int64
  writeback : Bool := false
deriving DecidableEq

/-- The base and the offset in brackets. -/
def Address.place (a : Address) : String :=
  "[" ++ a.base.name ++ ", #" ++ Text.integer a.offset.toInt ++ "]"

def Address.text (a : Address) : String :=
  a.place ++ if a.writeback then "!" else ""

inductive Instruction where
  | add (dst lhs : View) (rhs : Operand)
  | sub (dst lhs : View) (rhs : Operand)
  | mov (dst : View) (src : Operand)
  | strb (src : View) (address : Address)
  | ldrb (dst : View) (address : Address)
  | stp (first second : View) (address : Address)
deriving DecidableEq

namespace Instruction

def mnemonic : Instruction → Mnemonic
  | add .. => .add
  | sub .. => .sub
  | mov .. => .mov
  | strb .. => .strb
  | ldrb .. => .ldrb
  | stp .. => .stp

/-- The texts of the operands, in the order in which they are written. -/
def operandTexts : Instruction → List String
  | add dst lhs rhs | sub dst lhs rhs => [dst.name, lhs.name, rhs.text]
  | mov dst src => [dst.name, src.text]
  | strb register address | ldrb register address => [register.name, address.text]
  | stp first second address => [first.name, second.name, address.text]

/-- The text of an instruction: the mnemonic, then the operands with commas between them. -/
def text (i : Instruction) : String :=
  i.mnemonic.name ++ " " ++ ", ".intercalate i.operandTexts

end Instruction

end StackSteps
