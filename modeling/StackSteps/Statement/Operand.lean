import StackSteps.Statement

/-!
# Reading operands

The operand tokens of a line are read from left to right, and the first token that does not fit
decides the cause. Registers and immediates may have a comma behind them. A memory operand is
written in one token or in two, which are read as one text.
-/

namespace StackSteps

/-- A maximal run of characters that are not blank. -/
abbrev Token := List Char

/-- A number below two to the sixty-fourth power: hexadecimal digits behind `0x`, or decimal
digits. -/
def Immediate.magnitude? (cs : List Char) : Option (Nat × Radix) :=
  let number : Option (Nat × Radix) :=
    match cs with
    | '0' :: 'x' :: digits | '0' :: 'X' :: digits =>
      (Text.natural? 16 digits).map (·, .hexadecimal)
    | digits => (Text.natural? 10 digits).map (·, .decimal)
  number.filter (·.1 < 18446744073709551616)

/-- A magnitude with an optional minus sign in front. -/
def Immediate.ofChars? : List Char → Option Immediate
  | '-' :: cs => (Immediate.magnitude? cs).map fun (n, radix) => ⟨-n, radix⟩
  | cs => (Immediate.magnitude? cs).map fun (n, radix) => ⟨n, radix⟩

/-- Reads the operand tokens that are left, and leaves those behind what was read. -/
abbrev OperandReader (α : Type) := StateT (List Token) (Except DecodeCause) α

namespace Token

def dropComma (t : Token) : Token :=
  if t.getLast? = some ',' then t.dropLast else t

def byteLength (t : Token) : Nat :=
  t.foldl (fun n c => n + c.utf8Size) 0

def view (t : Token) : Except DecodeCause View :=
  match View.ofChars? t with
  | some v => .ok v
  | none => .error (.unknownRegister ⟨String.ofList t⟩)

/-- The register or the immediate that a token is. An immediate starts with a number sign. -/
def operand (t : Token) : Except DecodeCause Operand :=
  match t with
  | '#' :: literal =>
    match (Immediate.ofChars? literal).filter Immediate.fits with
    | some imm => .ok (.immediate imm)
    | none => .error (.invalidImmediate (String.ofList t))
  | t => t.view.map .register

/-- Whether a token ends a memory operand. -/
def closes (t : Token) : Bool :=
  [']'].isSuffixOf t || [']', '!'].isSuffixOf t

end Token

namespace Address

/-- The longest text of a memory operand, in bytes. -/
def maxLength : Nat := 48

def unbracket? : List Char → Option (List Char)
  | '[' :: cs => if cs.getLast? = some ']' then some cs.dropLast else none
  | _ => none

/-- Whether an offset may be written in a line: as a signed word. -/
def offsetFits (imm : Immediate) : Bool :=
  -9223372036854775808 ≤ imm.value ∧ imm.value < 9223372036854775808

/-- Reads the offset of a memory operand, in front of which a number sign may stand. -/
def offsetOfChars (whole offset : List Char) : Except DecodeCause Int64 :=
  match if offset.head? = some '#' then offset.tail else offset with
  | [] => .error (.missingOffset (String.ofList whole))
  | literal =>
    match (Immediate.ofChars? literal).filter offsetFits with
    | some imm => .ok (Int64.ofInt imm.value)
    | none => .error (.invalidOffset (String.ofList offset))

/-- Reads a memory operand: a register and an optional offset in brackets, and an exclamation mark
behind them for writeback. -/
def ofChars (text : List Char) : Except DecodeCause Address := do
  let invalid : DecodeCause := .invalidMemoryOperand (String.ofList text)
  let writeback : Bool := text.getLast? = some '!'
  match unbracket? (if writeback then text.dropLast else text) with
  | none => throw invalid
  | some inner =>
    match inner.splitOn ',' with
    | [] => throw invalid
    | [base] => return ⟨← Token.view base, 0, writeback⟩
    | base :: offset :: more =>
      let base ← Token.view base
      let offset ← offsetOfChars text offset
      if more ≠ [] then throw invalid
      return ⟨base, offset, writeback⟩

end Address

namespace OperandReader

def token (m : Mnemonic) : OperandReader Token := do
  match ← get with
  | [] => throw (.missingOperand m)
  | t :: rest =>
    set rest
    return t

@[simp] theorem run_token_nil (m : Mnemonic) :
    (token m).run [] = .error (.missingOperand m) := rfl

@[simp] theorem run_token_cons (m : Mnemonic) (t : Token) (rest : List Token) :
    (token m).run (t :: rest) = .ok (t, rest) := rfl

def view (m : Mnemonic) : OperandReader View := do
  (← token m).dropComma.view

def operand (m : Mnemonic) : OperandReader Operand := do
  (← token m).dropComma.operand

/-- The next operand as an address, in one token if that one ends it, and else in two. -/
def address (m : Mnemonic) : OperandReader Address := do
  let first ← token m
  if Address.maxLength < first.byteLength then
    throw (.invalidMemoryOperand (String.ofList first))
  if first.closes then Address.ofChars first
  else
    let second ← token m
    if Address.maxLength < first.byteLength + second.byteLength then
      throw (.invalidMemoryOperand (String.ofList second))
    Address.ofChars (first ++ second)

def plainAddress (m : Mnemonic) : OperandReader Address := do
  let address ← address m
  if address.writeback then throw (.unexpectedWriteback m)
  return address

def instruction : Mnemonic → OperandReader Instruction
  | .add => return .add (← view .add) (← view .add) (← operand .add)
  | .sub => return .sub (← view .sub) (← view .sub) (← operand .sub)
  | .mov => return .mov (← view .mov) (← operand .mov)
  | .strb => return .strb (← view .strb) (← plainAddress .strb)
  | .ldrb => return .ldrb (← view .ldrb) (← plainAddress .ldrb)
  | .stp => return .stp (← view .stp) (← view .stp) (← address .stp)

end OperandReader

end StackSteps
