import StackSteps.Proofs.Machine.Calls
import StackSteps.Proofs.Trace.Driving

/-!
# What a run passes through

A run shows one state for each line that is not blank, up to the first line that fails or has no
number. A passage is such a line with the machine before and after it, and the states of a trace
are the first snapshot and the pictures of its passages (`states_run`). The machine before a passage
is the one after the passage before it, a step later (`passages_succ`), which gives an induction
over the passages of a run (`passages_induction`).
-/
namespace StackSteps

/-- Whether a line has a character that is not blank. -/
def Text.isShown (line : String) : Bool :=
  line.toList.any (!Text.isBlank ·)

/-- The lines of a listing that are not blank. -/
def Text.shownLines (source : String) : List String :=
  ((Text.lines source.toList).map String.ofList).filter Text.isShown

/-- A line that is shown, what it says, and the machine before and after it. -/
structure Passage where
  before : Machine
  line : String
  statement : Statement
  after : Machine

namespace Passage

/-- The snapshot that shows a passage. -/
def state (p : Passage) : Snapshot :=
  p.after.snapshot (Text.trim p.line)

/-- What holds of each passage of a run by itself. -/
structure Valid (p : Passage) : Prop where
  decode : Statement.decode p.line = .ok p.statement
  shown : p.statement ≠ .empty
  applied : p.before.applied p.statement = .ok p.after

end Passage

namespace Trace

/-- What lines pass through, from a machine on. -/
def passages (m : Machine) : List String → List Passage
  | [] => []
  | line :: rest =>
    match Statement.decode line with
    | .error _ => []
    | .ok .empty => passages m rest
    | .ok statement =>
      match m.applied statement with
      | .error _ => []
      | .ok m' => ⟨m, line, statement, m'⟩ :: passages m'.fade rest

/-- A run shows what the lines pass through that have a number. -/
theorem states_follow (m : Machine) (counter : LineCounter) (lines : List String) :
    (follow m counter lines).states =
      (passages m (lines.take (LineCounter.highest - counter.count))).map Passage.state := by
  induction lines generalizing m counter with
  | nil =>
    rw [List.take_nil]
    rfl
  | cons line lines ih =>
    cases hnext : counter.next? with
    | none =>
      rw [follow_cons_of_none hnext, LineCounter.next?_eq_none hnext, Nat.sub_self, List.take_zero]
      rfl
    | some next =>
      rw [follow_cons_of_some hnext, LineCounter.left_eq_succ hnext, List.take_succ_cons, passages]
      cases Statement.decode line with
      | error e => rfl
      | ok statement =>
        by_cases hempty : statement = .empty
        · subst hempty
          exact ih m next
        · cases happlied : m.applied statement with
          | error f =>
            simp only [happlied]
            rfl
          | ok m' =>
            simp only [happlied, cons, ih, List.map_cons]
            rfl

/-- The passages of a listing. -/
def passagesOf (m : Machine) (source : String) : List Passage :=
  passages m (((Text.lines source.toList).map String.ofList).take LineCounter.highest)

theorem states_run (m : Machine) (source : String) :
    (run m source).states = m.snapshot "init" :: (passagesOf m source).map Passage.state := by
  have hfollow := states_follow m {} ((Text.lines source.toList).map String.ofList)
  rw [passagesOf, run, hfollow]
  rfl

/-- Nothing is passed through, or the first line that is shown and then what is left. -/
theorem passages_cases (m : Machine) (lines : List String) :
    passages m lines = [] ∨
    ∃ p rest, passages m lines = p :: passages p.after.fade rest ∧ p.before = m ∧ p.Valid ∧
      lines.filter Text.isShown = p.line :: rest.filter Text.isShown := by
  induction lines with
  | nil => exact .inl rfl
  | cons line lines ih =>
    have hshown : Statement.decode line = .ok .empty ↔ ¬ Text.isShown line = true := by
      rw [Statement.decode_eq_ok_empty_iff]
      simp [Text.isShown]
    rw [passages]
    cases hdecode : Statement.decode line with
    | error e => exact .inl rfl
    | ok statement =>
      rw [hdecode] at hshown
      cases statement with
      | empty =>
        rw [List.filter_cons_of_neg (hshown.mp rfl)]
        exact ih
      | unsupported mnemonic =>
        have hline : Text.isShown line = true := by simpa using hshown
        rw [List.filter_cons_of_pos hline]
        exact .inr ⟨_, lines, rfl, rfl, ⟨hdecode, by simp, rfl⟩, rfl⟩
      | instruction i =>
        have hline : Text.isShown line = true := by simpa using hshown
        rw [List.filter_cons_of_pos hline]
        dsimp only
        cases happlied : m.applied (.instruction i) with
        | error f => exact .inl rfl
        | ok m' => exact .inr ⟨_, lines, rfl, rfl, ⟨hdecode, by simp, happlied⟩, rfl⟩

/-- The passage of a number is that of the shown line of the number. -/
theorem passages_valid {m : Machine} {lines : List String} {j : Nat} {p : Passage}
    (h : (passages m lines)[j]? = some p) :
    p.Valid ∧ (lines.filter Text.isShown)[j]? = some p.line := by
  induction j generalizing m lines with
  | zero =>
    rcases passages_cases m lines with hnil | ⟨q, rest, hcons, -, hvalid, hlines⟩
    · simp [hnil] at h
    · obtain rfl : q = p := by simpa [hcons] using h
      exact ⟨hvalid, by rw [hlines]; rfl⟩
  | succ j ih =>
    rcases passages_cases m lines with hnil | ⟨q, rest, hcons, -, -, hlines⟩
    · simp [hnil] at h
    · rw [hcons, List.getElem?_cons_succ] at h
      rw [hlines, List.getElem?_cons_succ]
      exact ih h

/-- The passage of a number in a listing is that of the shown line of the number. -/
theorem passagesOf_valid {m : Machine} {source : String} {j : Nat} {p : Passage}
    (h : (passagesOf m source)[j]? = some p) :
    p.Valid ∧ (Text.shownLines source)[j]? = some p.line := by
  obtain ⟨hvalid, hline⟩ := passages_valid h
  have hfirst : List.filter Text.isShown _ <+: Text.shownLines source :=
    (List.take_prefix LineCounter.highest _).filter Text.isShown
  obtain ⟨hj, hline⟩ := List.getElem?_eq_some_iff.mp hline
  rw [hfirst.getElem hj] at hline
  exact ⟨hvalid, List.getElem?_eq_some_iff.mpr ⟨_, hline⟩⟩

theorem passages_zero {m : Machine} {lines : List String} {p : Passage}
    (h : (passages m lines)[0]? = some p) : p.before = m := by
  rcases passages_cases m lines with hnil | ⟨q, rest, hcons, hbefore, -, -⟩
  · simp [hnil] at h
  · obtain rfl : q = p := by simpa [hcons] using h
    exact hbefore

/-- Between two passages the labels fade. -/
theorem passages_succ {m : Machine} {lines : List String} {j : Nat} {p q : Passage}
    (hp : (passages m lines)[j]? = some p) (hq : (passages m lines)[j + 1]? = some q) :
    q.before = p.after.fade := by
  induction j generalizing m lines with
  | zero =>
    rcases passages_cases m lines with hnil | ⟨p', rest, hcons, -, -, -⟩
    · simp [hnil] at hp
    · obtain rfl : p' = p := by simpa [hcons] using hp
      rw [hcons, List.getElem?_cons_succ] at hq
      exact passages_zero hq
  | succ j ih =>
    rcases passages_cases m lines with hnil | ⟨p', rest, hcons, -, -, -⟩
    · simp [hnil] at hp
    · rw [hcons, List.getElem?_cons_succ] at hp hq
      exact ih hp hq

/-- What holds of the first passage and goes on from each to the next holds of all. -/
theorem passages_induction {m : Machine} {lines : List String} {motive : Nat → Passage → Prop}
    (zero : ∀ p, (passages m lines)[0]? = some p → p.before = m → motive 0 p)
    (succ : ∀ j p q, (passages m lines)[j]? = some p → (passages m lines)[j + 1]? = some q →
      q.before = p.after.fade → motive j p → motive (j + 1) q)
    {j : Nat} {p : Passage} (h : (passages m lines)[j]? = some p) : motive j p := by
  induction j generalizing p with
  | zero => exact zero p h (passages_zero h)
  | succ j ih =>
    obtain ⟨hj, -⟩ := List.getElem?_eq_some_iff.mp h
    have hq : (passages m lines)[j]? = some (passages m lines)[j] :=
      List.getElem?_eq_getElem (Nat.lt_of_succ_lt hj)
    exact succ j _ p hq h (passages_succ hq h) (ih hq)

/-- What lines and fading keep holds before and after every passage. -/
theorem passages_forall {P : Machine → Prop}
    (happlied : ∀ {m m' statement}, m.applied statement = .ok m' → P m → P m')
    (hfade : ∀ {m}, P m → P m.fade) {m : Machine} {lines : List String} (hm : P m) {j : Nat}
    {p : Passage} (h : (passages m lines)[j]? = some p) : P p.before ∧ P p.after := by
  have hbefore : P p.before := by
    refine passages_induction (motive := fun _ p => P p.before) ?_ ?_ h
    · intro p _ hp
      rw [hp]
      exact hm
    · intro j p q hp _ hq ih
      rw [hq]
      exact hfade (happlied (passages_valid hp).1.applied ih)
  exact ⟨hbefore, happlied (passages_valid h).1.applied hbefore⟩

/-- Behind the first state of a trace stands the picture of a passage. -/
theorem exists_passage {m : Machine} {source : String} {j : Nat} {b : Snapshot}
    (h : (run m source).states[j + 1]? = some b) :
    ∃ p, (passagesOf m source)[j]? = some p ∧ b = p.state := by
  rw [states_run, List.getElem?_cons_succ, List.getElem?_map, Option.map_eq_some_iff] at h
  obtain ⟨p, hp, rfl⟩ := h
  exact ⟨p, hp, rfl⟩

/-- Every state of a trace is the picture of a machine. -/
theorem exists_snapshot {m : Machine} {source : String} {j : Nat} {b : Snapshot}
    (h : (run m source).states[j]? = some b) :
    ∃ (m' : Machine) (text : String), b = m'.snapshot text := by
  cases j with
  | zero =>
    rw [states_run] at h
    exact ⟨m, "init", (Option.some.inj h).symm⟩
  | succ j =>
    obtain ⟨p, -, hb⟩ := exists_passage h
    exact ⟨_, _, hb⟩

/-- The state in front of a passage shows the stack and the registers before it. -/
theorem state_before {m : Machine} {source : String} {j : Nat} {a : Snapshot} {p : Passage}
    (ha : (run m source).states[j]? = some a) (hp : (passagesOf m source)[j]? = some p) :
    a.stack = p.before.stack.slots ∧ a.registers = p.before.bank.values.map some := by
  cases j with
  | zero =>
    rw [states_run] at ha
    cases ha
    rw [passages_zero hp]
    exact ⟨rfl, rfl⟩
  | succ j =>
    obtain ⟨q, hq, rfl⟩ := exists_passage ha
    rw [passages_succ hq hp]
    exact ⟨rfl, rfl⟩

end Trace

/-- A state of a run is there if a part of it computes. -/
theorem Session.exists_state {α : Type} (f : Snapshot → α) {setup : Setup} {source : String}
    {j : Nat} {x : α}
    (h : (start setup).map (fun s => (s.run source).states[j]?.map f) = .ok (some x)) :
    ∃ s b, start setup = .ok s ∧ (s.run source).states[j]? = some b ∧ f b = x := by
  obtain ⟨s, hs, h⟩ := map_eq_ok_iff.mp h
  obtain ⟨b, hb, hx⟩ := Option.map_eq_some_iff.mp h
  exact ⟨s, b, hs, hb, hx⟩

namespace Snapshot

/-- The value that a view shows in a snapshot, zero if the register is left out. -/
def read (s : Snapshot) (v : View) : Word :=
  Bank.cut v.width ((s.register v.register).getD 0)

/-- The number of the byte that an address means in a snapshot. -/
def target (s : Snapshot) (a : Address) : Int :=
  (s.read a.base).toNat + a.offset.toInt

variable {s : Snapshot} {m : Machine}

theorem register_eq_of_registers_eq (h : s.registers = m.bank.values.map some) (r : Register) :
    s.register r = some (m.bank.get r) := by
  simp [register, h, Bank.get]

theorem read_eq_of_registers_eq (h : s.registers = m.bank.values.map some) :
    s.read = m.bank.read := by
  funext v
  simp [read, register_eq_of_registers_eq h, Bank.read]

theorem target_eq_of_registers_eq (h : s.registers = m.bank.values.map some) :
    s.target = m.target := by
  funext address
  simp [target, read_eq_of_registers_eq h, Machine.target]

end Snapshot

end StackSteps
