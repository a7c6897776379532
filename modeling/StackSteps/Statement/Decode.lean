import StackSteps.Statement.Operand
import StackSteps.Text.Blank

/-!
# Decoding a line

A line is cut into words. The first is the mnemonic, and a word that is none makes the line an
unsupported one, whatever follows. Main statements: `ofTokens_unsupported` and `ofTokens_tooMany`
(lines whose operands are not looked at), `decode_congr` (a line counts only as the list of its
words) and `decode_trim` (blanks at its ends do not count). The lines of a listing are counted while
they are decoded, as far as thirty-two bits go (`LineCounter`).
-/

namespace StackSteps

namespace Statement

/-- The most operand tokens that a line may have. -/
def maxOperands : Nat := 5

def ofTokens : List Token → Except DecodeCause Statement
  | [] => .ok .empty
  | first :: operands =>
    match Mnemonic.ofName? (String.ofList first) with
    | none => .ok (.unsupported (String.ofList first))
    | some m =>
      if maxOperands < operands.length then .error .tooManyTokens
      else
        match (OperandReader.instruction m).run operands with
        | .error cause => .error cause
        | .ok (i, []) => .ok (.instruction i)
        | .ok (_, extra :: _) => .error (.unexpectedOperand (String.ofList extra))

def decode (line : String) : Except DecodeError Statement :=
  (ofTokens (Text.words line.toList)).mapError (⟨none, ·⟩)

/-- What follows a word that is no mnemonic is not looked at. -/
theorem ofTokens_unsupported {first : Token} (h : Mnemonic.ofName? (String.ofList first) = none)
    (operands : List Token) :
    ofTokens (first :: operands) = .ok (.unsupported (String.ofList first)) := by
  simp [ofTokens, h]

theorem ofTokens_tooMany {first : Token} {m : Mnemonic}
    (h : Mnemonic.ofName? (String.ofList first) = some m) {operands : List Token}
    (hlen : maxOperands < operands.length) :
    ofTokens (first :: operands) = .error .tooManyTokens := by
  simp [ofTokens, h, hlen]

/-- Lines of the same words say the same. -/
theorem decode_congr {line line' : String}
    (h : Text.words line.toList = Text.words line'.toList) : decode line = decode line' := by
  rw [decode, decode, h]

@[simp] theorem decode_trim (line : String) : decode (Text.trim line) = decode line :=
  decode_congr (by simp [Text.trim])

end Statement

/-- The highest number that a line can have, in thirty-two bits. -/
def LineCounter.highest : Nat := 4294967295

/-- Decodes a listing line by line and counts the lines. -/
structure LineCounter where
  count : Nat := 0
  count_le : count ≤ LineCounter.highest := by decide
deriving DecidableEq

namespace LineCounter

/-- The counter one line further, if that line can have a number. -/
def next? (lines : LineCounter) : Option LineCounter :=
  if h : lines.count < highest then some ⟨lines.count + 1, h⟩ else none

/-- Decodes the next line. An error bears the number of the line. A line that can have no number is
refused unread, and the counter stays where it is. -/
def decode (lines : LineCounter) (line : String) : LineCounter × Except DecodeError Statement :=
  match lines.next? with
  | none => (lines, .error ⟨none, .lineNumberOverflow⟩)
  | some lines =>
    (lines, (Statement.decode line).mapError fun e => { e with line := some lines.count })

theorem next?_eq_some {lines next : LineCounter} (h : lines.next? = some next) :
    lines.count < highest ∧ next.count = lines.count + 1 := by
  unfold next? at h
  split at h
  · cases h
    exact ⟨‹_›, rfl⟩
  · contradiction

theorem next?_eq_none {lines : LineCounter} (h : lines.next? = none) :
    lines.count = highest := by
  unfold next? at h
  split at h
  · contradiction
  · exact Nat.le_antisymm lines.count_le (Nat.not_lt.mp ‹_›)

/-- A line takes one of the numbers that are left. -/
theorem left_eq_succ {lines next : LineCounter} (h : lines.next? = some next) :
    highest - lines.count = highest - next.count + 1 := by
  obtain ⟨hlt, hcount⟩ := next?_eq_some h
  omega

end LineCounter

end StackSteps
