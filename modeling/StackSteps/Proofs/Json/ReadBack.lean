import StackSteps.Proofs.Register.Names
import StackSteps.Snapshot.Json

/-!
# Values that are read back

A writer and a reader belong together if what is written of a value is read as that value and
nothing else is ever read (`ReadsBack`). The values for which this holds are then exactly those
that the reader gives (`ReadsBack.read_write_iff`). Words, labels and names of views have such
readers, and lists, tables and sparse sequences get one from that of their items.
-/
namespace StackSteps

theorem Sparse.mem_of_mem_ofList {α : Type} {es : List (Nat × α)} {e : Nat × α}
    (h : e ∈ (Sparse.ofList es).entries) : e ∈ es := by
  induction es using List.reverseRecOn with
  | nil => contradiction
  | append_singleton es d ih =>
    have hinsert : Sparse.ofList (es ++ [d]) = (Sparse.ofList es).insert d.1 d.2 := by
      simp [Sparse.ofList]
    rw [hinsert] at h
    rw [List.mem_append, List.mem_singleton]
    rcases Sparse.mem_of_mem_insertInto h with heq | h
    · exact .inr heq
    · exact .inl (ih h)

namespace Json

/-- The reader gives back what is written of the values with a property, and it never gives a value
without the property. -/
structure ReadsBack {α : Type} (write : α → Json) (read : Json → Option α) (P : α → Prop) :
    Prop where
  read_write : ∀ {a}, P a → read (write a) = some a
  of_read : ∀ {v a}, read v = some a → P a

namespace ReadsBack

variable {α : Type} {write : α → Json} {read : Json → Option α} {P : α → Prop}

theorem read_write_iff (h : ReadsBack write read P) {a : α} : read (write a) = some a ↔ P a :=
  ⟨h.of_read, h.read_write⟩

/-- A value that was read is read again from what is written of it. -/
theorem read_write_of_read (h : ReadsBack write read P) {v : Json} {a : α}
    (hread : read v = some a) : read (write a) = some a :=
  h.read_write (h.of_read hread)

theorem write_injOn (h : ReadsBack write read P) {a b : α} (ha : P a) (hb : P b)
    (heq : write a = write b) : a = b := by
  have hab : some a = some b := by rw [← h.read_write ha, heq, h.read_write hb]
  exact Option.some.inj hab

end ReadsBack

theorem readsBack_below (limit : Nat) :
    ReadsBack (fun n : Nat => integer n) (below? limit) (· < limit) where
  read_write h := below?_ofNat h
  of_read {v n} h := by
    unfold below? at h
    split at h
    · split at h
      · cases h
        assumption
      · contradiction
    · contradiction

theorem readsBack_word : ReadsBack ofWord word? fun _ => True where
  read_write {v} _ := by
    show (Word.read (Word.decimal v)).toOption = some v
    rw [Word.read_decimal]
    rfl
  of_read _ := trivial

theorem readsBack_view : ReadsBack ofView view? fun v => v.isNamed = true where
  read_write h := View.ofChars?_name h
  of_read {v u} h := by
    obtain ⟨name, -, hname⟩ := Option.bind_eq_some_iff.mp h
    exact View.isNamed_of_ofChars? hname

/-- The count of a label has thirty-two bits. -/
theorem readsBack_label : ReadsBack ofLabel label? fun label => label.count < 4294967296 where
  read_write {label} h := by
    show (do return ⟨label.text, ← below? 4294967296 (integer label.count)⟩ : Option Label) = _
    rw [below?_ofNat h]
    rfl
  of_read {v label} h := by
    unfold label? at h
    split at h
    · simp only [Option.bind_eq_bind, Option.bind_eq_some_iff] at h
      obtain ⟨text, -, count, hcount, hlabel⟩ := h
      cases hlabel
      exact (readsBack_below _).of_read hcount
    · contradiction

section items

variable {α : Type} {write : α → Json} {read : Json → Option α} {P : α → Prop}

theorem readsBack_list (h : ReadsBack write read P) :
    ReadsBack (ofList write) (list? read) fun as => ∀ a ∈ as, P a where
  read_write has := list?_ofList fun a ha => h.read_write (has a ha)
  of_read {v as} hread a ha := by
    unfold list? at hread
    split at hread
    · obtain ⟨item, -, hitem⟩ := exists_of_mem_mapM hread ha
      exact h.of_read hitem
    · contradiction

/-- One field of an object that holds values of registers. -/
def putField (read : Json → Option α) (t : Table (Option α)) (field : String × Json) :
    Option (Table (Option α)) := do
  return t.set (← (Register.read field.1).toOption) (some (← read field.2))

/-- The fields that are written for some of the registers put their values into a table. -/
theorem foldlM_putField {t : Table (Option α)}
    (h : ∀ r a, t.get r = some a → read (write a) = some a) (rs : List Register)
    (t₀ : Table (Option α)) :
    ∃ t₁, ((rs.map fun r => (r, t.get r)).filterMap fun (r, value) =>
        value.map fun a => (r.name, write a)).foldlM (putField read) t₀ = some t₁ ∧
      ∀ q, t₁.get q = if q ∈ rs then (t.get q).or (t₀.get q) else t₀.get q := by
  induction rs generalizing t₀ with
  | nil => exact ⟨t₀, rfl, fun q => (if_neg List.not_mem_nil).symm⟩
  | cons r rs ih =>
    cases hr : t.get r with
    | none =>
      obtain ⟨t₁, hfold, hget⟩ := ih t₀
      refine ⟨t₁, by simpa [hr] using hfold, fun q => ?_⟩
      rw [hget]
      by_cases hq : q = r
      · simp [hq, hr]
      · simp [hq]
    | some a =>
      have hput : putField read t₀ (r.name, write a) = some (t₀.set r (some a)) := by
        simp [putField, Register.read_name, h r a hr, Except.toOption]
      obtain ⟨t₁, hfold, hget⟩ := ih (t₀.set r (some a))
      refine ⟨t₁, by simpa [hr, hput] using hfold, fun q => ?_⟩
      rw [hget, Table.get_set]
      by_cases hq : q = r
      · simp [hq, hr]
      · simp [hq, Ne.symm hq]

theorem of_foldlM_putField (h : ReadsBack write read P) {fields : List (String × Json)}
    {t₀ t : Table (Option α)} (h₀ : ∀ r a, t₀.get r = some a → P a)
    (hfold : fields.foldlM (putField read) t₀ = some t) : ∀ r a, t.get r = some a → P a := by
  induction fields generalizing t₀ with
  | nil =>
    cases hfold
    exact h₀
  | cons field fields ih =>
    simp only [List.foldlM_cons, putField, Option.bind_eq_bind, Option.bind_eq_some_iff] at hfold
    obtain ⟨t₁, ⟨r, -, a, ha, ht₁⟩, hrest⟩ := hfold
    cases ht₁
    refine ih (fun q b hq => ?_) hrest
    rw [Table.get_set] at hq
    split at hq
    · cases hq
      exact h.of_read ha
    · exact h₀ q b hq

theorem readsBack_table (h : ReadsBack write read P) :
    ReadsBack (ofTable write) (table? read) fun t => ∀ r a, t.get r = some a → P a where
  read_write {t} ht := by
    obtain ⟨t₁, hfold, hget⟩ :=
      foldlM_putField (fun r a hr => h.read_write (ht r a hr)) Register.all (.replicate none)
    have hread : table? read (ofTable write t) = some t₁ := hfold
    rw [hread]
    congr 1
    refine Table.ext fun r => ?_
    rw [hget, if_pos (Register.mem_all r), Table.get_replicate, Option.or_none]
  of_read {v t} hread := by
    obtain ⟨fields, -, hfold⟩ := Option.bind_eq_some_iff.mp hread
    exact of_foldlM_putField h (fun r a hr => by simp at hr) hfold

theorem position?_decimal {i : Nat} (h : i < 18446744073709551616) :
    position? (Text.decimal i) = some i := by
  simp [position?, Text.canonical?_toDigits, h]

theorem lt_of_position? {name : String} {i : Nat} (h : position? name = some i) :
    i < 18446744073709551616 :=
  of_decide_eq_true (Option.filter_eq_some_iff.mp h).2

/-- One field of an object that holds values at positions. -/
def readField (read : Json → Option α) (field : String × Json) : Option (Nat × α) := do
  return (← position? field.1, ← read field.2)

theorem readsBack_sparse (h : ReadsBack write read P) :
    ReadsBack (ofSparse write) (sparse? read) fun s =>
      ∀ e ∈ s.entries, e.1 < 18446744073709551616 ∧ P e.2 where
  read_write {s} hs := by
    have hmap : (s.entries.map fun e => (Text.decimal e.1, write e.2)).mapM (readField read) =
        some s.entries := by
      refine mapM_map_of_forall fun e he => ?_
      obtain ⟨hposition, hvalue⟩ := hs e he
      simp [readField, position?_decimal hposition, h.read_write hvalue]
    show (s.entries.map fun e => (Text.decimal e.1, write e.2)).mapM (readField read) >>=
      (fun entries => some (Sparse.ofList entries)) = some s
    rw [hmap]
    exact congrArg some s.ofList_entries
  of_read {v s} hread := by
    obtain ⟨fields, -, hread⟩ := Option.bind_eq_some_iff.mp hread
    obtain ⟨entries, hentries, hs⟩ := Option.bind_eq_some_iff.mp hread
    cases hs
    intro e he
    obtain ⟨field, -, hfield⟩ := exists_of_mem_mapM hentries (Sparse.mem_of_mem_ofList he)
    simp only [Option.bind_eq_bind, Option.bind_eq_some_iff] at hfield
    obtain ⟨i, hi, a, ha, heq⟩ := hfield
    cases heq
    exact ⟨lt_of_position? hi, h.of_read ha⟩

end items

end Json

end StackSteps
