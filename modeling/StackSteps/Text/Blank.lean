/-!
# Blank characters and the words between them

A character is blank if it has the Unicode property White_Space. Reading a line needs two things
of it: the text without the blanks at both ends (`strip`), and the maximal runs of characters that
are not blank (`words`). Main statements: `words_append_blank` (a blank ends a word and is itself
lost) and `words_strip` (blanks at the ends of a text change no word of it).
-/

namespace StackSteps.Text

/-- The code points with the property White_Space, as closed ranges in ascending order. -/
def blankRanges : List (Nat × Nat) :=
  [(0x0009, 0x000D), (0x0020, 0x0020), (0x0085, 0x0085), (0x00A0, 0x00A0), (0x1680, 0x1680),
   (0x2000, 0x200A), (0x2028, 0x2029), (0x202F, 0x202F), (0x205F, 0x205F), (0x3000, 0x3000)]

def isBlank (c : Char) : Bool :=
  blankRanges.any fun range => range.1 ≤ c.toNat && c.toNat ≤ range.2

/-- The text without the blanks at both of its ends. -/
def strip (cs : List Char) : List Char :=
  ((cs.dropWhile isBlank).reverse.dropWhile isBlank).reverse

def trim (s : String) : String :=
  String.ofList (strip s.toList)

/-- The maximal runs of characters that are not blank, from left to right. -/
def words (cs : List Char) : List (List Char) :=
  (cs.splitOnP isBlank).filter (!·.isEmpty)

@[simp] theorem words_nil : words [] = [] := rfl

/-- A blank in front of a text changes no word of it. -/
@[simp] theorem words_cons_blank {c : Char} (h : isBlank c = true) (cs : List Char) :
    words (c :: cs) = words cs := by
  simp [words, List.splitOnP_cons_eq_if_modifyHead, h]

/-- A run of characters that are not blank, followed by a blank, is the first word. -/
theorem words_append_blank {w : List Char} (hw : w ≠ []) (hb : ∀ c ∈ w, isBlank c = false)
    {b : Char} (h : isBlank b = true) (cs : List Char) :
    words (w ++ b :: cs) = w :: words cs := by
  simp [words, List.splitOnP_append_cons_of_forall_mem hb b h, hw]

theorem words_eq_singleton {w : List Char} (hw : w ≠ []) (hb : ∀ c ∈ w, isBlank c = false) :
    words w = [w] := by
  simp [words, List.splitOnP_eq_singleton hb, hw]

theorem words_dropWhile (cs : List Char) : words (cs.dropWhile isBlank) = words cs := by
  induction cs with
  | nil => rfl
  | cons c cs ih =>
    by_cases h : isBlank c = true
    · rw [List.dropWhile_cons_of_pos h, ih, words_cons_blank h]
    · rw [List.dropWhile_cons_of_neg h]

/-- A separator behind a text adds an empty piece. -/
theorem splitOnP_concat {p : Char → Bool} {b : Char} (h : p b = true) (cs : List Char) :
    (cs ++ [b]).splitOnP p = cs.splitOnP p ++ [[]] := by
  induction cs with
  | nil => simp [List.splitOnP_cons_eq_if_modifyHead, h]
  | cons c cs ih =>
    rw [List.cons_append, List.splitOnP_cons_eq_if_modifyHead, ih,
      List.splitOnP_cons_eq_if_modifyHead]
    split
    · rfl
    · obtain ⟨v, vs, hv⟩ := List.exists_cons_of_ne_nil (List.splitOnP_ne_nil p cs)
      simp [hv]

theorem words_append_blanks (cs : List Char) {bs : List Char} (h : ∀ b ∈ bs, isBlank b = true) :
    words (cs ++ bs) = words cs := by
  induction bs generalizing cs with
  | nil => simp
  | cons b bs ih =>
    rw [List.append_cons, ih (cs ++ [b]) fun c hc => h c (List.mem_cons_of_mem _ hc)]
    simp [words, splitOnP_concat (h b List.mem_cons_self)]

@[simp] theorem words_strip (cs : List Char) : words (strip cs) = words cs := by
  have hsplit : (cs.dropWhile isBlank).reverse.takeWhile isBlank ++
      (cs.dropWhile isBlank).reverse.dropWhile isBlank = (cs.dropWhile isBlank).reverse :=
    List.takeWhile_append_dropWhile
  have hrest : cs.dropWhile isBlank =
      strip cs ++ ((cs.dropWhile isBlank).reverse.takeWhile isBlank).reverse := by
    rw [strip, ← List.reverse_append, hsplit, List.reverse_reverse]
  rw [← words_dropWhile cs, hrest, words_append_blanks]
  intro b hb
  exact List.all_eq_true.mp (List.all_takeWhile) b (List.mem_reverse.mp hb)

end StackSteps.Text
