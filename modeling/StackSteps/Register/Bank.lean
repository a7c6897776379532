import StackSteps.Register.Table
import StackSteps.Word

/-!
# The register bank

The values of all registers. A low view reads the low half of its register, and a write through it
keeps the upper half. Main statements: `read_write_self` (a view reads what was written through it,
cut to its width), `read_write_of_ne` (other registers keep their values) and `upperHalf_write_low`.
-/

namespace StackSteps

/-- The values of the registers. -/
structure Bank where
  values : Table Word
deriving DecidableEq

namespace Bank

def get (b : Bank) (r : Register) : Word :=
  b.values.get r

def set (b : Bank) (r : Register) (v : Word) : Bank :=
  ⟨b.values.set r v⟩

/-- The bank at the start: the pointers hold the top address, all else is zero. -/
def start (top : Word) : Bank :=
  ((⟨Table.replicate 0⟩ : Bank).set .sp top).set .fp top

/-- The part of a register's value that a view of the width shows. -/
def cut : Width → Word → Word
  | .x, v => v
  | .w, v => Word.lowHalf v

def read (b : Bank) (v : View) : Word :=
  cut v.width (b.get v.register)

/-- The bank with a value written through a view. -/
def write (b : Bank) (v : View) (value : Word) : Bank :=
  match v.width with
  | .x => b.set v.register value
  | .w => b.set v.register (Word.withLow (b.get v.register) value)

@[simp] theorem get_set (b : Bank) (r s : Register) (v : Word) :
    (b.set r v).get s = if r = s then v else b.get s := by
  simp [get, set]

theorem ext {b c : Bank} (h : ∀ r, b.get r = c.get r) : b = c := by
  obtain ⟨b⟩ := b
  obtain ⟨c⟩ := c
  congr 1
  exact Table.ext h

theorem get_start (top : Word) (r : Register) :
    (start top).get r = if r.isPointer then top else 0 := by
  cases r <;> simp [start, Register.isPointer, get, set]

/-- A view reads what was written through it, cut to its width. -/
@[simp] theorem read_write_self (b : Bank) (v : View) (value : Word) :
    (b.write v value).read v = cut v.width value := by
  obtain ⟨r, a⟩ := v
  cases a <;> simp [read, write, cut]

theorem get_write_of_ne (b : Bank) {v : View} {r : Register} (h : v.register ≠ r) (value : Word) :
    (b.write v value).get r = b.get r := by
  obtain ⟨s, a⟩ := v
  cases a <;> simp_all [write]

theorem read_write_of_ne (b : Bank) {v u : View} (h : v.register ≠ u.register) (value : Word) :
    (b.write v value).read u = b.read u := by
  simp [read, get_write_of_ne b h]

/-- A write through a low view keeps the upper half of the register. -/
theorem upperHalf_write_low (b : Bank) (r : Register) (value : Word) :
    Word.upperHalf ((b.write (.low r) value).get r) = Word.upperHalf (b.get r) := by
  simp [write]

end Bank

end StackSteps
