import StackSteps.Text.Numeral

/-!
# Faults of the machine
-/

namespace StackSteps

/-- Why the machine, or the setup of one, is refused. -/
inductive Fault where
  | outOfBounds (address : Int)
  | sizeExceeded (size : Nat)
  | badStackSize (slots : Nat)
  | tooManySeeds
deriving DecidableEq

def Fault.message : Fault → String
  | outOfBounds address => "memory address " ++ Text.integer address ++ " is out of stack bounds"
  | sizeExceeded size => "access size " ++ Text.decimal size ++ " does not fit a stack slot"
  | badStackSize slots => "stack size " ++ Text.decimal slots ++ " is not supported"
  | tooManySeeds => "too many seed registers"

end StackSteps
