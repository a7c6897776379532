import StackSteps.Proofs.Statement.Reading

/-!
# Names of registers

A view with a name of its own is read from this name and from no other text
(`View.read_eq_ok_iff`), and a register is read from the text that the whole of it is read from
(`Register.read_eq_ok_iff`). Every other text is named in the complaint. So there is one text for
each view, but for the low halves of the pointers, for which there is none
(`names_are_canonical`).
-/
namespace StackSteps

namespace View

theorem Spells.toList_name {cs : List Char} {v : View} (h : v.Spells cs) : v.name.toList = cs := by
  cases h with
  | sp => rfl
  | fp => rfl
  | whole number => simp [name, Register.name]
  | low number => simp [name]

theorem isNamed_of_ofChars? {cs : List Char} {v : View} (h : View.ofChars? cs = some v) :
    v.isNamed = true := by
  cases View.ofChars?_eq_some_iff.mp h with
  | sp => rfl
  | fp => rfl
  | whole number => rfl
  | low number => rfl

/-- Only the low halves of the pointers have no name of their own. -/
theorem isNamed_iff {v : View} : v.isNamed = true ↔ v ≠ low .sp ∧ v ≠ low .fp := by
  obtain ⟨r, width⟩ := v
  cases r <;> cases width <;> simp [isNamed, isAlias, Register.isPointer]

/-- The low half of a pointer is printed like the whole. -/
theorem exists_isNamed_name_eq (v : View) : ∃ u : View, u.isNamed = true ∧ u.name = v.name := by
  by_cases h : v.isNamed = true
  · exact ⟨v, h, rfl⟩
  · have hlow : v = low .sp ∨ v = low .fp := by
      rw [isNamed_iff] at h
      tauto
    rcases hlow with rfl | rfl
    · exact ⟨whole .sp, rfl, rfl⟩
    · exact ⟨whole .fp, rfl, rfl⟩

variable {s : String} {v : View} {unknown : UnknownRegister}

theorem read_eq_ok_iff : read s = .ok v ↔ v.name = s ∧ v.isNamed = true := by
  have hread : read s = .ok v ↔ ofChars? s.toList = some v := by
    rw [read]
    cases ofChars? s.toList <;> simp
  rw [hread]
  constructor
  · intro h
    have hname := (ofChars?_eq_some_iff.mp h).toList_name
    exact ⟨String.toList_inj.mp hname, isNamed_of_ofChars? h⟩
  · rintro ⟨rfl, h⟩
    exact ofChars?_name h

/-- What is read are the texts that a view is printed as. -/
theorem exists_read_iff : (∃ v, read s = .ok v) ↔ ∃ v : View, v.name = s := by
  constructor
  · rintro ⟨v, h⟩
    exact ⟨v, (read_eq_ok_iff.mp h).1⟩
  · rintro ⟨v, rfl⟩
    obtain ⟨u, hu, hname⟩ := v.exists_isNamed_name_eq
    exact ⟨u, read_eq_ok_iff.mpr ⟨hname, hu⟩⟩

theorem read_eq_error_iff :
    read s = .error unknown ↔ unknown = ⟨s⟩ ∧ ∀ v : View, v.name ≠ s := by
  have hnone : read s = .error unknown ↔ unknown = ⟨s⟩ ∧ ¬ ∃ v, read s = .ok v := by
    rw [read]
    cases ofChars? s.toList <;> simp [eq_comm]
  rw [hnone, exists_read_iff, not_exists]

/-- A view with a name of its own is read from one text, and one without from none. -/
theorem existsUnique_read_iff : (∃! s, read s = .ok v) ↔ v.isNamed = true := by
  simp only [read_eq_ok_iff]
  constructor
  · rintro ⟨s, ⟨-, h⟩, -⟩
    exact h
  · intro h
    exact ⟨v.name, ⟨rfl, h⟩, fun s hs => hs.1.symm⟩

end View

namespace Register

variable {s : String} {r : Register} {unknown : UnknownRegister}

theorem read_eq_ok_iff : read s = .ok r ↔ View.read s = .ok (.whole r) := by
  rw [read]
  split
  next q h => simp [h]
  next q h => simp [h]
  next u h => simp [h]

theorem read_eq_error_iff :
    read s = .error unknown ↔ unknown = ⟨s⟩ ∧ ∀ r, View.read s ≠ .ok (.whole r) := by
  rw [read]
  split
  next q h => simp [h]
  next q h => simp [h, eq_comm]
  next u h =>
    obtain ⟨rfl, -⟩ := View.read_eq_error_iff.mp h
    simp [h, eq_comm]

theorem read_name (r : Register) : read r.name = .ok r := by
  have hname : (View.whole r).name = r.name := by cases r <;> rfl
  rw [read_eq_ok_iff, View.read_eq_ok_iff]
  exact ⟨hname, rfl⟩

end Register

/-- A text names a view if and only if the view is printed so and is not the low half of a pointer.
Every other text is complained about, and where a register is asked for, so is the name of a low
half. -/
theorem names_are_canonical :
    (∀ s v, View.read s = .ok v ↔ v.name = s ∧ v ≠ .low .sp ∧ v ≠ .low .fp) ∧
    (∀ v, (∃! s, View.read s = .ok v) ↔ v ≠ .low .sp ∧ v ≠ .low .fp) ∧
    (∀ s unknown, View.read s = .error unknown ↔ unknown = ⟨s⟩ ∧ ∀ v : View, v.name ≠ s) ∧
    (∀ s r, Register.read s = .ok r ↔ View.read s = .ok (.whole r)) ∧
    (∀ s unknown, Register.read s = .error unknown ↔
      unknown = ⟨s⟩ ∧ ∀ r, View.read s ≠ .ok (.whole r)) := by
  refine ⟨fun s v => ?_, fun v => ?_, fun _ _ => View.read_eq_error_iff,
    fun _ _ => Register.read_eq_ok_iff, fun _ _ => Register.read_eq_error_iff⟩
  · rw [← View.isNamed_iff, View.read_eq_ok_iff]
  · rw [← View.isNamed_iff, View.existsUnique_read_iff]

/-- Leading zeros, signs, large numbers, capital letters and further characters name nothing. -/
example : ["x05", "w-1", "x+1", "x31", "w4294967296", "X0", "x0 ", "spx", "wsp", "x"].all
    (fun s => View.read s = .error ⟨s⟩ ∧ Register.read s = .error ⟨s⟩) := by
  decide

end StackSteps
