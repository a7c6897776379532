import StackSteps.Data.Except

/-!
# JSON values

A JSON value and how its parts are read. A number with a fraction or an exponent is no integer here;
its spelling is kept. Main statements: `below?_ofNat` and `list?_ofList` (what is written reads
back).
-/

namespace StackSteps

/-- A JSON value. The fields of an object have an order. -/
inductive Json where
  | null
  | bool (b : Bool)
  | integer (n : Int)
  | real (text : String)
  | string (s : String)
  | array (items : List Json)
  | object (fields : List (String × Json))
deriving Inhabited

namespace Json

/-- How values are written as text. A value that cannot be written has none. -/
abbrev Encoder := Json → Option String

def field? (name : String) : Json → Option Json
  | object fields => (fields.find? (·.1 = name)).map (·.2)
  | _ => none

def string? : Json → Option String
  | string s => some s
  | _ => none

/-- The number below a limit that a value is. -/
def below? (limit : Nat) : Json → Option Nat
  | integer (.ofNat n) => if n < limit then some n else none
  | _ => none

def list? {α : Type} (read : Json → Option α) : Json → Option (List α)
  | array items => items.mapM read
  | _ => none

def fields? : Json → Option (List (String × Json))
  | object fields => some fields
  | _ => none

def ofList {α : Type} (write : α → Json) (as : List α) : Json :=
  array (as.map write)

theorem below?_ofNat {limit n : Nat} (h : n < limit) : below? limit (integer n) = some n := by
  show (if n < limit then some n else none) = some n
  rw [if_pos h]

/-- A written list reads back if its items do. -/
theorem list?_ofList {α : Type} {read : Json → Option α} {write : α → Json} {as : List α}
    (h : ∀ a ∈ as, read (write a) = some a) : list? read (ofList write as) = some as :=
  mapM_map_of_forall h

end Json

end StackSteps
