/-!
# Finite sets listed in order

A set of values that have ranks, kept as the list of its members by ascending rank. Main
statements: `mem_insert` and `ext` (a set is known by its members).
-/

namespace StackSteps

/-- A type whose values are told apart by a rank. -/
class Ranked (α : Type) where
  rank : α → Nat
  eq_of_rank_eq : ∀ {a b : α}, rank a = rank b → a = b

instance : Ranked Nat := ⟨id, id⟩

open Ranked (rank)

/-- A finite set with its members in ascending rank. -/
structure OrderedSet (α : Type) [Ranked α] where
  toList : List α
  ascending : toList.Pairwise fun a b => rank a < rank b
deriving DecidableEq

namespace OrderedSet

variable {α : Type} [Ranked α]

def empty : OrderedSet α :=
  ⟨[], .nil⟩

/-- A list in ascending rank with one more member in its place. -/
def insertInto (a : α) : List α → List α
  | [] => [a]
  | b :: bs =>
    if rank a < rank b then a :: b :: bs
    else if rank a = rank b then b :: bs
    else b :: insertInto a bs

theorem mem_insertInto {a c : α} {bs : List α} : c ∈ insertInto a bs ↔ c = a ∨ c ∈ bs := by
  induction bs with
  | nil => simp [insertInto]
  | cons b bs ih =>
    rw [insertInto]
    split
    · simp
    · split
      · rename_i h
        simp [Ranked.eq_of_rank_eq h]
      · simp [ih, or_left_comm]

theorem ascending_insertInto {a : α} {bs : List α}
    (h : bs.Pairwise fun a b => rank a < rank b) :
    (insertInto a bs).Pairwise fun a b => rank a < rank b := by
  induction bs with
  | nil => simp [insertInto]
  | cons b bs ih =>
    obtain ⟨hb, hbs⟩ := List.pairwise_cons.mp h
    rw [insertInto]
    split
    · rename_i hab
      refine List.pairwise_cons.mpr ⟨fun c hc => ?_, h⟩
      rcases List.mem_cons.mp hc with rfl | hc
      · exact hab
      · exact Nat.lt_trans hab (hb c hc)
    · split
      · exact h
      · refine List.pairwise_cons.mpr ⟨fun c hc => ?_, ih hbs⟩
        rcases mem_insertInto.mp hc with rfl | hc
        · omega
        · exact hb c hc

def insert (s : OrderedSet α) (a : α) : OrderedSet α :=
  ⟨insertInto a s.toList, ascending_insertInto s.ascending⟩

instance : Membership α (OrderedSet α) :=
  ⟨fun s a => a ∈ s.toList⟩

@[simp] theorem not_mem_empty (a : α) : a ∉ (empty : OrderedSet α) := List.not_mem_nil

@[simp] theorem mem_insert {s : OrderedSet α} {a c : α} : c ∈ s.insert a ↔ c = a ∨ c ∈ s :=
  mem_insertInto

/-- Lists in ascending rank with the same members are equal. -/
theorem eq_of_mem_iff {as bs : List α} (ha : as.Pairwise fun a b => rank a < rank b)
    (hb : bs.Pairwise fun a b => rank a < rank b) (h : ∀ c, c ∈ as ↔ c ∈ bs) : as = bs := by
  induction as generalizing bs with
  | nil =>
    cases bs with
    | nil => rfl
    | cons b bs => simpa using h b
  | cons a as ih =>
    cases bs with
    | nil => simpa using h a
    | cons b bs =>
      obtain ⟨ha₁, ha₂⟩ := List.pairwise_cons.mp ha
      obtain ⟨hb₁, hb₂⟩ := List.pairwise_cons.mp hb
      have hab : a = b := by
        rcases List.mem_cons.mp ((h a).mp List.mem_cons_self) with hab | hmem
        · exact hab
        · rcases List.mem_cons.mp ((h b).mpr List.mem_cons_self) with hba | hmem'
          · exact hba.symm
          · have := hb₁ a hmem
            have := ha₁ b hmem'
            omega
      subst hab
      rw [ih ha₂ hb₂ fun c => ?_]
      have hc := h c
      simp only [List.mem_cons] at hc
      constructor
      · intro hm
        rcases hc.mp (.inr hm) with rfl | hm'
        · exact absurd (ha₁ c hm) (Nat.lt_irrefl _)
        · exact hm'
      · intro hm
        rcases hc.mpr (.inr hm) with rfl | hm'
        · exact absurd (hb₁ c hm) (Nat.lt_irrefl _)
        · exact hm'

theorem ext {s t : OrderedSet α} (h : ∀ a, a ∈ s ↔ a ∈ t) : s = t := by
  obtain ⟨s, hs⟩ := s
  obtain ⟨t, ht⟩ := t
  congr 1
  exact eq_of_mem_iff hs ht h

theorem mem_foldl_insert {as : List α} {s : OrderedSet α} {a : α} :
    a ∈ as.foldl insert s ↔ a ∈ as ∨ a ∈ s := by
  induction as generalizing s with
  | nil => simp
  | cons b as ih => rw [List.foldl_cons, ih, mem_insert, List.mem_cons, or_assoc, or_left_comm]

end OrderedSet

end StackSteps
