/-!
# Lines of a text

A line feed ends a line, and a carriage return just before the line feed belongs to the ending.
Text after the last line feed is a line of its own if there is any. Main statements:
`lines_append_feed` (a text without a line feed, followed by one, is the first line) and
`lines_replicate_feed` (line feeds alone are empty lines).
-/

namespace StackSteps.Text

/-- A line without the carriage return that belongs to its ending. -/
def dropReturn (cs : List Char) : List Char :=
  if cs.getLast? = some '\r' then cs.dropLast else cs

/-- The pieces around the line feeds as lines: all but the last were ended by a line feed, and an
empty last piece is no line. -/
def closeLines : List (List Char) → List (List Char)
  | [] => []
  | [last] => if last = [] then [] else [last]
  | piece :: pieces => dropReturn piece :: closeLines pieces

/-- The lines of a text, without their endings. -/
def lines (cs : List Char) : List (List Char) :=
  closeLines (cs.splitOn '\n')

@[simp] theorem lines_nil : lines [] = [] := rfl

theorem lines_append_feed {line : List Char} (h : '\n' ∉ line) (cs : List Char) :
    lines (line ++ '\n' :: cs) = dropReturn line :: lines cs := by
  obtain ⟨piece, pieces, hp⟩ := List.exists_cons_of_ne_nil (List.splitOn_ne_nil '\n' cs)
  simp [lines, List.splitOn_append_cons_self_of_not_mem h, hp, closeLines]

theorem lines_replicate_feed (n : Nat) : lines (List.replicate n '\n') = List.replicate n [] := by
  induction n with
  | zero => exact lines_nil
  | succ n ih =>
    have hfirst := lines_append_feed (@List.not_mem_nil _ '\n') (List.replicate n '\n')
    rw [List.replicate_succ, List.replicate_succ, ← ih]
    exact hfirst

end StackSteps.Text
