import StackSteps.Register

/-!
# Tables with one cell per register

Main statements: `get_set` (a write changes the cell of its register and no other) and `ext`
(a table is known by its cells).
-/

namespace StackSteps

/-- One value for each register. -/
structure Table (α : Type) where
  cells : Vector α 33
deriving DecidableEq

namespace Table

variable {α β : Type}

def replicate (a : α) : Table α :=
  ⟨Vector.replicate 33 a⟩

def get (t : Table α) (r : Register) : α :=
  t.cells[r.index]

def set (t : Table α) (r : Register) (a : α) : Table α :=
  ⟨t.cells.set r.index a⟩

def map (f : α → β) (t : Table α) : Table β :=
  ⟨t.cells.map f⟩

/-- The registers with their values, in display order. -/
def toList (t : Table α) : List (Register × α) :=
  Register.all.map fun r => (r, t.get r)

@[simp] theorem get_replicate (a : α) (r : Register) : (replicate a).get r = a := by
  simp [replicate, get]

@[simp] theorem get_set (t : Table α) (r s : Register) (a : α) :
    (t.set r a).get s = if r = s then a else t.get s := by
  simp only [get, set, Fin.getElem_fin, Vector.getElem_set, Fin.val_inj, Register.index_inj]

@[simp] theorem get_map (f : α → β) (t : Table α) (r : Register) :
    (t.map f).get r = f (t.get r) := by
  simp [map, get]

theorem ext {s t : Table α} (h : ∀ r, s.get r = t.get r) : s = t := by
  obtain ⟨s⟩ := s
  obtain ⟨t⟩ := t
  congr 1
  refine Vector.ext fun i hi => ?_
  simpa [get] using h (Register.ofIndex ⟨i, hi⟩)

end Table

end StackSteps
