import StackSteps.Labels
import StackSteps.Word

/-!
# Snapshots

What a viewer needs to draw one step: the text of the line, the stack, the registers, the labels,
and what the step touched. A snapshot may leave out registers and labels.
-/

namespace StackSteps

/-- The picture of one step. -/
structure Snapshot where
  instruction : String
  stack : List Word
  registers : Table (Option Word)
  slotLabels : Sparse (List Label)
  registerLabels : Table (Option (List Label))
  touchedSlots : List Nat
  touchedViews : List View
deriving DecidableEq

namespace Snapshot

def register (s : Snapshot) (r : Register) : Option Word :=
  s.registers.get r

def slot (s : Snapshot) (i : Nat) : Option Word :=
  s.stack[i]?

def labelsOfSlot (s : Snapshot) (i : Nat) : List Label :=
  (s.slotLabels.get? i).getD []

def labelsOfRegister (s : Snapshot) (r : Register) : List Label :=
  (s.registerLabels.get r).getD []

/-- Whether the step touched a slot. -/
def touchedSlot (s : Snapshot) (i : Nat) : Bool :=
  i ∈ s.touchedSlots

def touchedView (s : Snapshot) (v : View) : Bool :=
  v ∈ s.touchedViews

end Snapshot

end StackSteps
