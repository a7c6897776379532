import StackSteps.Instruction

/-!
# Statements, and why a line is none

A line of a listing is blank, holds an instruction, or starts with a word that is no mnemonic of the
machine. A line that starts with a mnemonic and goes on wrongly is refused with a cause, and so is
any line behind the last one that has a number.
-/

namespace StackSteps

/-- What one line of a listing says. -/
inductive Statement where
  | empty
  | instruction (instruction : Instruction)
  | unsupported (mnemonic : String)
deriving DecidableEq

/-- What is wrong with a line that starts with a mnemonic, or with a line of too high a number. -/
inductive DecodeCause where
  | tooManyTokens
  | missingOperand (mnemonic : Mnemonic)
  | unexpectedOperand (token : String)
  | unknownRegister (unknown : UnknownRegister)
  | invalidImmediate (token : String)
  | invalidMemoryOperand (text : String)
  | missingOffset (text : String)
  | invalidOffset (text : String)
  | unexpectedWriteback (mnemonic : Mnemonic)
  | lineNumberOverflow
deriving DecidableEq

def DecodeCause.message : DecodeCause → String
  | tooManyTokens => "too many tokens"
  | missingOperand m => "`" ++ m.name ++ "` is missing an operand"
  | unexpectedOperand token => "unexpected operand `" ++ token ++ "`"
  | unknownRegister unknown => unknown.message
  | invalidImmediate token => "invalid immediate `" ++ token ++ "`"
  | invalidMemoryOperand text => "invalid memory operand `" ++ text ++ "`"
  | missingOffset text => "memory operand `" ++ text ++ "` is missing its offset"
  | invalidOffset text => "invalid offset `" ++ text ++ "`"
  | unexpectedWriteback m => "`" ++ m.name ++ "` does not support writeback"
  | lineNumberOverflow => "line number overflow"

/-- A refused line: the cause, and the number of the line if it is one of a listing. -/
structure DecodeError where
  line : Option Nat
  cause : DecodeCause
deriving DecidableEq

def DecodeError.message (e : DecodeError) : String :=
  match e.line with
  | none => e.cause.message
  | some n => "line " ++ Text.decimal n ++ ": " ++ e.cause.message

end StackSteps
