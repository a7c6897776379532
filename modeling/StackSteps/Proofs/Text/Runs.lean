import StackSteps.Text.Blank
import Mathlib

/-!
# Words as maximal runs

`Runs cs ws` describes the words of a text without a scanner: blanks are passed over, and a run of
characters that are not blank is taken whole, up to a blank or to the end. The reader of words
computes the one list that this relation allows (`runs_iff`). Words that are joined by single blanks
are read back (`words_intercalate`), and a second removal of the blanks at both ends does nothing
(`trim_trim`).
-/
namespace StackSteps.Text

inductive Runs : List Char → List (List Char) → Prop
  | nil : Runs [] []
  | blank {c : Char} {cs : List Char} {ws : List (List Char)} (hc : isBlank c = true)
      (h : Runs cs ws) : Runs (c :: cs) ws
  /-- The run is maximal: what follows it is nothing or starts with a blank. -/
  | run {w cs : List Char} {ws : List (List Char)} (hne : w ≠ [])
      (hw : ∀ c ∈ w, isBlank c = false) (hend : ∀ c ∈ cs.head?, isBlank c = true)
      (h : Runs cs ws) : Runs (w ++ cs) (w :: ws)

/-- A run up to a blank or to the end is the first word. -/
theorem words_append {w : List Char} (hne : w ≠ []) (hw : ∀ c ∈ w, isBlank c = false)
    {cs : List Char} (hend : ∀ c ∈ cs.head?, isBlank c = true) :
    words (w ++ cs) = w :: words cs := by
  cases cs with
  | nil => rw [List.append_nil, words_eq_singleton hne hw, words_nil]
  | cons c cs =>
    have hc : isBlank c = true := hend c rfl
    rw [words_append_blank hne hw hc, words_cons_blank hc]

theorem Runs.eq_words {cs : List Char} {ws : List (List Char)} (h : Runs cs ws) :
    ws = words cs := by
  induction h with
  | nil => rfl
  | blank hc _ ih => rw [words_cons_blank hc, ih]
  | run hne hw hend _ ih => rw [words_append hne hw hend, ih]

theorem isBlank_head?_dropWhile (cs : List Char) :
    ∀ c ∈ (cs.dropWhile (!isBlank ·)).head?, isBlank c = true := by
  intro c hc
  have hnot := List.head?_dropWhile_not (!isBlank ·) cs
  rw [Option.mem_def.mp hc] at hnot
  simpa using hnot

theorem runs_words (cs : List Char) : Runs cs (words cs) := by
  induction hn : cs.length using Nat.strongRecOn generalizing cs with
  | ind n ih =>
    cases cs with
    | nil => exact .nil
    | cons c cs =>
      by_cases hc : isBlank c = true
      · rw [words_cons_blank hc]
        exact .blank hc (ih cs.length (by simp at hn; omega) cs rfl)
      · -- the run in front is cut off, and what is left of the text is shorter
        let w := (c :: cs).takeWhile (!isBlank ·)
        let rest := (c :: cs).dropWhile (!isBlank ·)
        have hsplit : w ++ rest = c :: cs := List.takeWhile_append_dropWhile
        have hne : w ≠ [] := by simp [w, hc]
        have hw : ∀ d ∈ w, isBlank d = false := by
          intro d hd
          simpa using List.mem_takeWhile_imp hd
        have hend : ∀ d ∈ rest.head?, isBlank d = true := isBlank_head?_dropWhile (c :: cs)
        have hlen : rest.length < n := by
          have hsum := congrArg List.length hsplit
          have hpos := List.length_pos_iff.mpr hne
          rw [List.length_append, hn] at hsum
          omega
        rw [← hsplit, words_append hne hw hend]
        exact .run hne hw hend (ih rest.length hlen rest rfl)

/-- The words of a text are its maximal runs, and no other list is. -/
theorem runs_iff {cs : List Char} {ws : List (List Char)} : Runs cs ws ↔ ws = words cs := by
  constructor
  · exact Runs.eq_words
  · rintro rfl
    exact runs_words cs

theorem words_intercalate {ws : List (List Char)}
    (h : ∀ w ∈ ws, w ≠ [] ∧ ∀ c ∈ w, isBlank c = false) : words ([' '].intercalate ws) = ws := by
  induction ws with
  | nil => rfl
  | cons w ws ih =>
    obtain ⟨hne, hw⟩ := h w List.mem_cons_self
    have ih := ih fun v hv => h v (List.mem_cons_of_mem w hv)
    cases ws with
    | nil => rw [List.intercalate_singleton, words_eq_singleton hne hw]
    | cons v ws =>
      rw [List.intercalate_cons_cons, List.append_assoc, List.singleton_append,
        words_append_blank hne hw (by decide), ih]

theorem Runs.forall_isBlank {cs : List Char} {ws : List (List Char)} (h : Runs cs ws)
    (hws : ws = []) : ∀ c ∈ cs, isBlank c = true := by
  induction h with
  | nil => simp
  | blank hc _ ih => exact List.forall_mem_cons.mpr ⟨hc, ih hws⟩
  | run => contradiction

/-- Exactly the texts of blanks alone have no words. -/
theorem words_eq_nil_iff {cs : List Char} : words cs = [] ↔ ∀ c ∈ cs, isBlank c = true := by
  constructor
  · exact (runs_words cs).forall_isBlank
  · intro h
    have hblanks := words_append_blanks [] h
    simpa using hblanks

theorem strip_eq_rdropWhile (cs : List Char) :
    strip cs = (cs.dropWhile isBlank).rdropWhile isBlank := rfl

/-- The first character that is kept is none that the second removal would take. -/
theorem dropWhile_strip (cs : List Char) : (strip cs).dropWhile isBlank = strip cs := by
  obtain ⟨rest, hrest⟩ := List.rdropWhile_prefix isBlank (cs.dropWhile isBlank)
  rw [← strip_eq_rdropWhile] at hrest
  have hself := List.dropWhile_idempotent isBlank cs
  rw [← hrest] at hself
  rw [List.dropWhile_eq_self_iff] at hself ⊢
  intro hl
  have hfirst := hself (by rw [List.length_append]; omega)
  rwa [List.getElem_append_left hl] at hfirst

theorem strip_strip (cs : List Char) : strip (strip cs) = strip cs := by
  rw [strip_eq_rdropWhile (strip cs), dropWhile_strip, strip_eq_rdropWhile,
    List.rdropWhile_idempotent]

@[simp] theorem trim_trim (s : String) : trim (trim s) = trim s := by
  simp [trim, strip_strip]

end StackSteps.Text
