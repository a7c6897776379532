/-!
# Sparse sequences

A finite map from positions to values, kept as its entries by ascending position. Main statements:
`get?_insert`, `ext` (a sequence is known by its values), `mem_entries_iff`, `ofList_entries` (it is
read back from its entries) and `get?_filled`.
-/

namespace StackSteps

/-- Values at some positions. -/
structure Sparse (α : Type) where
  entries : List (Nat × α)
  ascending : entries.Pairwise fun a b => a.1 < b.1
deriving DecidableEq

namespace Sparse

variable {α : Type}

def empty : Sparse α :=
  ⟨[], .nil⟩

/-- The first value that entries give to a position. -/
def find? (i : Nat) : List (Nat × α) → Option α
  | [] => none
  | (j, a) :: rest => if i = j then some a else find? i rest

/-- Entries by ascending position with the value at one position put in or replaced. -/
def insertInto (i : Nat) (a : α) : List (Nat × α) → List (Nat × α)
  | [] => [(i, a)]
  | (j, b) :: rest =>
    if i < j then (i, a) :: (j, b) :: rest
    else if i = j then (i, a) :: rest
    else (j, b) :: insertInto i a rest

theorem mem_of_mem_insertInto {i : Nat} {a : α} {es : List (Nat × α)} {e : Nat × α}
    (h : e ∈ insertInto i a es) : e = (i, a) ∨ e ∈ es := by
  induction es with
  | nil => simpa [insertInto] using h
  | cons d es ih =>
    rw [insertInto] at h
    split at h
    · simpa using h
    · split at h
      · rcases List.mem_cons.mp h with rfl | h
        · exact .inl rfl
        · exact .inr (List.mem_cons_of_mem _ h)
      · rcases List.mem_cons.mp h with rfl | h
        · exact .inr List.mem_cons_self
        · exact (ih h).imp_right (List.mem_cons_of_mem _)

theorem ascending_insertInto {i : Nat} {a : α} {es : List (Nat × α)}
    (h : es.Pairwise fun a b => a.1 < b.1) :
    (insertInto i a es).Pairwise fun a b => a.1 < b.1 := by
  induction es with
  | nil => simp [insertInto]
  | cons d es ih =>
    obtain ⟨hd, hes⟩ := List.pairwise_cons.mp h
    rw [insertInto]
    split
    · rename_i hlt
      refine List.pairwise_cons.mpr ⟨fun e he => ?_, h⟩
      rcases List.mem_cons.mp he with rfl | he
      · exact hlt
      · exact Nat.lt_trans hlt (hd e he)
    · split
      · rename_i heq
        exact List.pairwise_cons.mpr ⟨fun e he => heq ▸ hd e he, hes⟩
      · refine List.pairwise_cons.mpr ⟨fun e he => ?_, ih hes⟩
        rcases mem_of_mem_insertInto he with rfl | he
        · simp only; omega
        · exact hd e he

def get? (s : Sparse α) (i : Nat) : Option α :=
  find? i s.entries

def insert (s : Sparse α) (i : Nat) (a : α) : Sparse α :=
  ⟨insertInto i a s.entries, ascending_insertInto s.ascending⟩

/-- The sequence that entries in any order describe, the later of two for a position winning. -/
def ofList (es : List (Nat × α)) : Sparse α :=
  es.foldl (fun s e => s.insert e.1 e.2) empty

/-- The entries of the lists that are not empty, for lists from a position on. -/
def filledFrom (start : Nat) : List (List α) → List (Nat × List α)
  | [] => []
  | as :: rest =>
    if as = [] then filledFrom (start + 1) rest else (start, as) :: filledFrom (start + 1) rest

theorem le_of_mem_filledFrom {start : Nat} {ass : List (List α)} {e : Nat × List α}
    (h : e ∈ filledFrom start ass) : start ≤ e.1 := by
  induction ass generalizing start with
  | nil => simp [filledFrom] at h
  | cons as ass ih =>
    rw [filledFrom] at h
    split at h
    · exact Nat.le_of_succ_le (ih h)
    · rcases List.mem_cons.mp h with rfl | h
      · exact Nat.le_refl _
      · exact Nat.le_of_succ_le (ih h)

theorem ascending_filledFrom (start : Nat) (ass : List (List α)) :
    (filledFrom start ass).Pairwise fun a b => a.1 < b.1 := by
  induction ass generalizing start with
  | nil => simp [filledFrom]
  | cons as ass ih =>
    rw [filledFrom]
    split
    · exact ih _
    · exact List.pairwise_cons.mpr ⟨fun e he => le_of_mem_filledFrom he, ih _⟩

/-- The lists that are not empty, at their positions. -/
def filled (ass : List (List α)) : Sparse (List α) :=
  ⟨filledFrom 0 ass, ascending_filledFrom 0 ass⟩

@[simp] theorem get?_empty (i : Nat) : (empty : Sparse α).get? i = none := rfl

@[simp] theorem get?_insert (s : Sparse α) (i j : Nat) (a : α) :
    (s.insert i a).get? j = if i = j then some a else s.get? j := by
  obtain ⟨es, hes⟩ := s
  simp only [get?, insert]
  clear hes
  induction es with
  | nil => simp [insertInto, find?, eq_comm]
  | cons d es ih =>
    rw [insertInto]
    split
    · simp [find?, eq_comm]
    · split
      · rename_i h
        subst h
        simp only [find?, eq_comm (a := j)]
        split <;> rfl
      · rename_i hlt hne
        simp only [find?, ih]
        split
        · subst j
          simp [hne]
        · rfl

/-- Entries by ascending position give nothing to a position below the first. -/
theorem find?_eq_none_of_lt {i : Nat} {es : List (Nat × α)} (h : ∀ e ∈ es, i < e.1) :
    find? i es = none := by
  induction es with
  | nil => rfl
  | cons d es ih =>
    have hd := h d List.mem_cons_self
    rw [find?, if_neg (by omega)]
    exact ih fun e he => h e (List.mem_cons_of_mem _ he)

theorem ext {s t : Sparse α} (h : ∀ i, s.get? i = t.get? i) : s = t := by
  obtain ⟨ss, hs⟩ := s
  obtain ⟨ts, ht⟩ := t
  simp only [get?] at h
  congr 1
  induction ss generalizing ts with
  | nil =>
    cases ts with
    | nil => rfl
    | cons e ts => simpa [find?] using h e.1
  | cons d ss ih =>
    cases ts with
    | nil => simpa [find?] using h d.1
    | cons e ts =>
      obtain ⟨hd, hss⟩ := List.pairwise_cons.mp hs
      obtain ⟨he, hts⟩ := List.pairwise_cons.mp ht
      obtain ⟨i, a⟩ := d
      obtain ⟨j, b⟩ := e
      have hij : i = j := by
        rcases Nat.lt_trichotomy i j with hlt | heq | hgt
        · have hn : find? i ((j, b) :: ts) = none := find?_eq_none_of_lt fun e' he' => by
            rcases List.mem_cons.mp he' with rfl | he'
            · exact hlt
            · exact Nat.lt_trans hlt (he e' he')
          simpa [find?, hn] using (h i).trans hn
        · exact heq
        · have hn : find? j ((i, a) :: ss) = none := find?_eq_none_of_lt fun e' he' => by
            rcases List.mem_cons.mp he' with rfl | he'
            · exact hgt
            · exact Nat.lt_trans hgt (hd e' he')
          simpa [find?, hn] using (h j).symm.trans hn
      subst hij
      have hab : a = b := by simpa [find?] using h i
      subst hab
      rw [ih hss ts hts fun k => ?_]
      by_cases hk : k = i
      · subst hk
        rw [find?_eq_none_of_lt hd, find?_eq_none_of_lt he]
      · simpa [find?, hk] using h k

theorem mem_entries_iff {s : Sparse α} {i : Nat} {a : α} :
    (i, a) ∈ s.entries ↔ s.get? i = some a := by
  obtain ⟨es, hes⟩ := s
  simp only [get?]
  induction es with
  | nil => simp [find?]
  | cons d es ih =>
    obtain ⟨hd, hrest⟩ := List.pairwise_cons.mp hes
    obtain ⟨j, b⟩ := d
    by_cases h : i = j
    · subst h
      have hnot : (i, a) ∉ es := fun hmem => Nat.lt_irrefl i (hd _ hmem)
      simp [find?, hnot, eq_comm]
    · simp [find?, h, ih hrest]

theorem get?_foldl_insert {es : List (Nat × α)} (hes : es.Pairwise fun a b => a.1 < b.1)
    (s : Sparse α) (i : Nat) :
    (es.foldl (fun s e => s.insert e.1 e.2) s).get? i = (find? i es).or (s.get? i) := by
  induction es generalizing s with
  | nil => simp [find?]
  | cons d es ih =>
    obtain ⟨hd, hes⟩ := List.pairwise_cons.mp hes
    rw [List.foldl_cons, ih hes, get?_insert, find?]
    by_cases h : i = d.1
    · subst h
      simp [find?_eq_none_of_lt hd]
    · simp [h, Ne.symm h]

@[simp] theorem ofList_entries (s : Sparse α) : ofList s.entries = s :=
  ext fun i => by
    rw [ofList, get?_foldl_insert s.ascending]
    simp [get?, empty, find?]

theorem find?_filledFrom (start i : Nat) (ass : List (List α)) :
    find? (start + i) (filledFrom start ass) = ass[i]?.filter (· ≠ []) := by
  induction ass generalizing start i with
  | nil => simp [filledFrom, find?]
  | cons as ass ih =>
    rw [filledFrom]
    cases i with
    | zero =>
      split
      · rename_i h
        rw [find?_eq_none_of_lt fun e he => Nat.lt_of_lt_of_le (Nat.lt_succ_self _)
          (le_of_mem_filledFrom he)]
        simp [h, Option.filter]
      · rename_i h
        simp [find?, h, Option.filter]
    | succ i =>
      have := ih (start + 1) i
      rw [show start + 1 + i = start + (i + 1) by omega] at this
      split
      · simpa using this
      · rw [find?, if_neg (by omega)]
        simpa using this

/-- A list is found at its position unless it is empty. -/
theorem get?_filled (ass : List (List α)) (i : Nat) :
    (filled ass).get? i = ass[i]?.filter (· ≠ []) := by
  simpa [filled, get?] using find?_filledFrom 0 i ass

end Sparse

end StackSteps
