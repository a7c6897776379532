import StackSteps.Json
import StackSteps.Snapshot
import StackSteps.Word.Text

/-!
# Snapshots as JSON

A snapshot is written as an object of seven fields. Words are strings of decimal digits, so that
no reader loses their high bits; a label is a pair of its text and its count; the keys of slots are
decimal numerals and those of registers their names. Reading takes the fields in any order, or an
array of their seven values, and refuses what no snapshot holds.
-/

namespace StackSteps

namespace Json

def ofWord (v : Word) : Json :=
  string (Word.decimal v)

def word? (v : Json) : Option Word :=
  v.string?.bind fun text => (Word.read text).toOption

def ofLabel (label : Label) : Json :=
  array [string label.text, integer label.count]

/-- Reads a label, the count of which has thirty-two bits. -/
def label? : Json → Option Label
  | array [text, count] => do
    return ⟨← text.string?, ← below? 4294967296 count⟩
  | _ => none

def ofView (v : View) : Json :=
  string v.name

def view? (v : Json) : Option View :=
  v.string?.bind fun name => View.ofChars? name.toList

/-- The registers that have a value, each written. -/
def ofTable {α : Type} (write : α → Json) (t : Table (Option α)) : Json :=
  object (t.toList.filterMap fun (r, value) => value.map fun a => (r.name, write a))

def table? {α : Type} (read : Json → Option α) (v : Json) : Option (Table (Option α)) := do
  (← v.fields?).foldlM (fun t (name, value) => do
    return t.set (← (Register.read name).toOption) (some (← read value))) (Table.replicate none)

def ofSparse {α : Type} (write : α → Json) (s : Sparse α) : Json :=
  object (s.entries.map fun (i, a) => (Text.decimal i, write a))

/-- Reads a position, which has sixty-four bits. -/
def position? (name : String) : Option Nat :=
  (Text.canonical? name.toList).filter (· < 18446744073709551616)

def sparse? {α : Type} (read : Json → Option α) (v : Json) : Option (Sparse α) := do
  let entries ← (← v.fields?).mapM fun (name, value) => do
    return (← position? name, ← read value)
  return Sparse.ofList entries

end Json

namespace Snapshot

open Json

def toJson (s : Snapshot) : Json :=
  object [
    ("instruction", string s.instruction),
    ("stack", ofList ofWord s.stack),
    ("registers", ofTable ofWord s.registers),
    ("labels", ofSparse (ofList ofLabel) s.slotLabels),
    ("register_labels", ofTable (ofList ofLabel) s.registerLabels),
    ("modified_stack", ofList (fun i => integer (i : Nat)) s.touchedSlots),
    ("modified_registers", ofList ofView s.touchedViews)]

/-- Reads a snapshot from the values of its fields. -/
def ofParts? (instruction stack registers slotLabels registerLabels touchedSlots
    touchedViews : Json) : Option Snapshot := do
  return {
    instruction := ← instruction.string?
    stack := ← list? word? stack
    registers := ← table? word? registers
    slotLabels := ← sparse? (list? label?) slotLabels
    registerLabels := ← table? (list? label?) registerLabels
    touchedSlots := ← list? (below? 18446744073709551616) touchedSlots
    touchedViews := ← list? view? touchedViews }

/-- Reads a snapshot. Fields that belong to none are ignored. -/
def ofJson? : Json → Option Snapshot
  | array [instruction, stack, registers, slotLabels, registerLabels, touchedSlots, touchedViews] =>
    ofParts? instruction stack registers slotLabels registerLabels touchedSlots touchedViews
  | v => do
    ofParts? (← v.field? "instruction") (← v.field? "stack") (← v.field? "registers")
      (← v.field? "labels") (← v.field? "register_labels") (← v.field? "modified_stack")
      (← v.field? "modified_registers")

def text (encode : Json.Encoder) (s : Snapshot) : Option String :=
  encode s.toJson

end Snapshot

end StackSteps
