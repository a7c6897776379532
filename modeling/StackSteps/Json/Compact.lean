import StackSteps.Json
import StackSteps.Text.Numeral

/-!
# Compact JSON text

An encoder that writes every value and puts no blanks anywhere. In a quoted string the quote, the
backslash and the control characters are escaped and all else is written as it is. Main statements:
`renderAll_eq` and `renderFields_eq` (items are written one by one).
-/

namespace StackSteps.Json

/-- How a character is written between quotes. -/
def escape (c : Char) : List Char :=
  match c with
  | '"' => ['\\', '"']
  | '\\' => ['\\', '\\']
  | '\x08' => ['\\', 'b']
  | '\x09' => ['\\', 't']
  | '\x0a' => ['\\', 'n']
  | '\x0c' => ['\\', 'f']
  | '\x0d' => ['\\', 'r']
  | c =>
    if c.toNat < 0x20 then '\\' :: 'u' :: (Nat.toDigits 16 c.toNat).leftpad 4 '0' else [c]

def quote (s : String) : String :=
  "\"" ++ String.ofList (s.toList.flatMap escape) ++ "\""

mutual

/-- The text of a value. -/
def render : Json → String
  | null => "null"
  | bool true => "true"
  | bool false => "false"
  | integer n => Text.integer n
  | real text => text
  | string s => quote s
  | array items => "[" ++ ",".intercalate (renderAll items) ++ "]"
  | object fields => "\x7b" ++ ",".intercalate (renderFields fields) ++ "\x7d"

def renderAll : List Json → List String
  | [] => []
  | v :: vs => render v :: renderAll vs

def renderFields : List (String × Json) → List String
  | [] => []
  | field :: fields => renderField field :: renderFields fields

def renderField : String × Json → String
  | (name, v) => quote name ++ ":" ++ render v

end

theorem renderAll_eq (vs : List Json) : renderAll vs = vs.map render := by
  induction vs with
  | nil => rfl
  | cons v vs ih => rw [renderAll, ih, List.map_cons]

theorem renderFields_eq (fields : List (String × Json)) :
    renderFields fields = fields.map renderField := by
  induction fields with
  | nil => rfl
  | cons field fields ih => rw [renderFields, ih, List.map_cons]

/-- The encoder that writes this text. -/
def compact : Encoder :=
  fun v => some v.render

end StackSteps.Json
