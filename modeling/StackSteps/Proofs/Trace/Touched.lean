import StackSteps.Proofs.Trace.Passages

/-!
# What the marks of a trace say

Each state of a trace lists the views and the slots that its line touched. The lists are exactly
those of the line's instruction, nothing else has changed since the state before, and a line with
an unsupported mnemonic has changed nothing (`Session.touched_of_run`).
-/
namespace StackSteps

/-- The views that a write through a view touches, in display order. -/
def View.marks (v : View) : List View :=
  if v.isAlias then [v.backing, v] else [v]

theorem View.whole_mem_marks (v : View) : whole v.register ∈ v.marks := by
  obtain ⟨r, width⟩ := v
  cases width <;> simp [marks, isAlias, backing]

theorem View.eq_low_of_mem_marks {v : View} {r : Register} (h : low r ∈ v.marks) : v = low r := by
  obtain ⟨s, width⟩ := v
  cases width <;> simp_all [marks, isAlias, backing]

/-- The views that an instruction touches, in display order. -/
def Instruction.touchedViews (i : Instruction) : List View :=
  match i.written? with
  | none => []
  | some v => v.marks

namespace Statement

/-- The views that a line touches. -/
def touchedViews : Statement → List View
  | empty | unsupported _ => []
  | instruction i => i.touchedViews

/-- The slots that a line writes. -/
def writtenSlots (target : Address → Int) : Statement → List Nat
  | empty | unsupported _ => []
  | instruction i => i.writtenSlots target

end Statement

namespace Machine

theorem toList_touchedViews_markView (m : Machine) (v : View) :
    (m.clearTouched.markView v).touchedViews.toList = v.marks := by
  obtain ⟨r, width⟩ := v
  cases width with
  | x => rfl
  | w =>
    have hrank : (View.whole r).rank < (View.low r).rank := by
      simp [View.rank, View.isAlias]
    exact if_pos hrank

variable {m : Machine} {i : Instruction}

theorem touchedViews_performed (m : Machine) (i : Instruction) :
    (m.clearTouched.performed i).touchedViews.toList = i.touchedViews := by
  unfold Instruction.touchedViews
  cases h : i.written? with
  | none => rw [(performed_of_written?_eq_none h).2]; rfl
  | some v => rw [(performed_of_written?_eq_some h).2, toList_touchedViews_markView]

theorem touchedSlots_performed (h : i.fault? m.stack.size m.target = none) :
    (m.clearTouched.performed i).touchedSlots.toList = i.writtenSlots m.target := by
  have hfold : (m.clearTouched.performed i).touchedSlots =
      (i.writtenSlots m.target).foldl OrderedSet.insert .empty := performed_touchedSlots h
  rw [hfold]
  cases i with
  | add dst lhs rhs => rfl
  | sub dst lhs rhs => rfl
  | mov dst src => rfl
  | strb src address => rfl
  | ldrb dst address => rfl
  | stp first second address =>
    show OrderedSet.insertInto ((m.target address).toNat / 8 + 1)
      [(m.target address).toNat / 8] = _
    simp [OrderedSet.insertInto, Ranked.rank, Instruction.writtenSlots]

/-- A register of which no view is touched keeps its value. -/
theorem get_performed_of_not_mem {r : Register} (h : View.whole r ∉ i.touchedViews) :
    (m.performed i).bank.get r = m.bank.get r := by
  unfold Instruction.touchedViews at h
  cases hw : i.written? with
  | none => rw [(performed_of_written?_eq_none hw).1]
  | some v =>
    obtain ⟨value, hbank⟩ := (performed_of_written?_eq_some hw (m := m)).1
    rw [hw] at h
    have hne : v.register ≠ r := by
      rintro rfl
      exact h v.whole_mem_marks
    rw [hbank, Bank.get_write_of_ne m.bank hne]

/-- Where a low view is touched, the register is marked as well and keeps its upper half. -/
theorem upperHalf_performed_of_mem {r : Register} (h : View.low r ∈ i.touchedViews) :
    View.whole r ∈ i.touchedViews ∧
      Word.upperHalf ((m.performed i).bank.get r) = Word.upperHalf (m.bank.get r) := by
  unfold Instruction.touchedViews at h ⊢
  cases hw : i.written? with
  | none => simp [hw] at h
  | some v =>
    rw [hw] at h
    obtain rfl := View.eq_low_of_mem_marks h
    obtain ⟨value, hbank⟩ := (performed_of_written?_eq_some hw (m := m)).1
    refine ⟨(View.low r).whole_mem_marks, ?_⟩
    rw [hbank, Bank.upperHalf_write_low]

/-- The second machine lists these views and slots as touched, and differs from the first in no
other slot or register. Through a low view it differs in the low half. -/
structure TouchesOnly (m m' : Machine) (views : List View) (slots : List Nat) : Prop where
  views_eq : m'.touchedViews.toList = views
  slots_eq : m'.touchedSlots.toList = slots
  slot_eq : ∀ {k}, k ∉ slots → m'.stack.slots[k]? = m.stack.slots[k]?
  get_eq : ∀ {r}, View.whole r ∉ views → m'.bank.get r = m.bank.get r
  low : ∀ {r}, View.low r ∈ views → View.whole r ∈ views ∧
    Word.upperHalf (m'.bank.get r) = Word.upperHalf (m.bank.get r)

theorem touchesOnly_clearTouched (m : Machine) : TouchesOnly m m.clearTouched [] [] where
  views_eq := rfl
  slots_eq := rfl
  slot_eq _ := rfl
  get_eq _ := rfl
  low h := absurd h List.not_mem_nil

theorem touchesOnly_performed (h : i.fault? m.stack.size m.target = none) :
    TouchesOnly m (m.clearTouched.performed i) i.touchedViews (i.writtenSlots m.target) where
  views_eq := touchedViews_performed m i
  slots_eq := touchedSlots_performed h
  slot_eq := performed_slot_of_not_mem (m := m.clearTouched) h
  get_eq := get_performed_of_not_mem (m := m.clearTouched)
  low := upperHalf_performed_of_mem (m := m.clearTouched)

theorem touchesOnly_applied {m' : Machine} {statement : Statement}
    (h : m.applied statement = .ok m') :
    TouchesOnly m m' statement.touchedViews (statement.writtenSlots m.target) := by
  rcases applied_cases h with ⟨rfl, rfl⟩ | ⟨mnemonic, rfl, rfl⟩ | ⟨i, rfl, hnone, rfl⟩
  · exact touchesOnly_clearTouched m
  · exact touchesOnly_clearTouched m
  · exact touchesOnly_performed hnone

theorem applied_unsupported {mnemonic : String} {m' : Machine}
    (h : m.applied (.unsupported mnemonic) = .ok m') : m' = m.clearTouched := by
  cases h
  rfl

end Machine

/-- Comparing a state of a trace with the one before it: what is not listed as touched is as
before, and of a register of which only the low half was written the upper half is. What is listed
is what the line touches, and a line with an unsupported mnemonic lists and changes nothing. -/
theorem Session.touched_of_run (s : Session) (source : String) {j : Nat} {a b : Snapshot}
    (ha : (s.run source).states[j]? = some a) (hb : (s.run source).states[j + 1]? = some b) :
    (∀ k, k ∉ b.touchedSlots → b.slot k = a.slot k) ∧
    (∀ r, View.whole r ∉ b.touchedViews → b.register r = a.register r) ∧
    (∀ r, View.low r ∈ b.touchedViews → View.whole r ∈ b.touchedViews ∧
      ∃ u v, a.register r = some u ∧ b.register r = some v ∧
        Word.upperHalf v = Word.upperHalf u) ∧
    ∃ line statement, (Text.shownLines source)[j]? = some line ∧
      Statement.decode line = .ok statement ∧ b.instruction = Text.trim line ∧
      b.touchedViews = statement.touchedViews ∧
      b.touchedSlots = statement.writtenSlots a.target ∧
      (∀ mnemonic, statement = .unsupported mnemonic →
        b.touchedViews = [] ∧ b.touchedSlots = [] ∧
          b.stack = a.stack ∧ b.registers = a.registers) := by
  obtain ⟨p, hp, rfl⟩ := Trace.exists_passage hb
  obtain ⟨hvalid, hline⟩ := Trace.passagesOf_valid hp
  obtain ⟨hstack, hregisters⟩ := Trace.state_before ha hp
  have hregister := Snapshot.register_eq_of_registers_eq hregisters
  have htouches := Machine.touchesOnly_applied hvalid.applied
  rw [← Snapshot.target_eq_of_registers_eq hregisters] at htouches
  have hviews : p.state.touchedViews = p.statement.touchedViews := htouches.views_eq
  have hslots : p.state.touchedSlots = p.statement.writtenSlots a.target := htouches.slots_eq
  refine ⟨?_, ?_, ?_, p.line, p.statement, hline, hvalid.decode, rfl, hviews, hslots, ?_⟩
  · intro k hk
    rw [hslots] at hk
    rw [Snapshot.slot, Snapshot.slot, hstack]
    exact htouches.slot_eq hk
  · intro r hr
    rw [hviews] at hr
    rw [hregister, Passage.state, Machine.register_snapshot, htouches.get_eq hr]
  · intro r hr
    rw [hviews] at hr ⊢
    obtain ⟨hwhole, hupper⟩ := htouches.low hr
    exact ⟨hwhole, _, _, hregister r, Machine.register_snapshot .., hupper⟩
  · intro mnemonic hstatement
    rw [hviews, hslots, hstatement]
    have happlied := hvalid.applied
    rw [hstatement] at happlied
    rw [Passage.state, Machine.applied_unsupported happlied, hstack, hregisters]
    exact ⟨rfl, rfl, rfl, rfl⟩

/-- Behind a blank and an unsupported line, the one that opens a frame touches the slots of the
saved pair and the moved pointer. -/
theorem Session.touched_of_prologue :
    ∃ (s : Session) (a b : Snapshot), Session.start .standard = .ok s ∧
      (s.run "\nfoo\nstp x29, x30, [sp, #-16]!").states[1]? = some a ∧
      (s.run "\nfoo\nstp x29, x30, [sp, #-16]!").states[2]? = some b ∧
      b.touchedSlots = [13, 14] ∧ b.touchedViews = [.whole .sp] ∧
      (∀ k, k ≠ 13 → k ≠ 14 → b.slot k = a.slot k) ∧
      ∀ r, r ≠ .sp → b.register r = a.register r := by
  have hrun : (Session.start .standard).map (fun s =>
      (s.run "\nfoo\nstp x29, x30, [sp, #-16]!").states[2]?.map
        fun b => (b.touchedSlots, b.touchedViews)) = .ok (some ([13, 14], [.whole .sp])) := by
    decide +kernel
  obtain ⟨s, b, hs, hb, hmarks⟩ := exists_state _ hrun
  obtain ⟨hslots, hviews⟩ := Prod.mk.inj hmarks
  obtain ⟨hlength, -⟩ := List.getElem?_eq_some_iff.mp hb
  obtain ⟨a, ha⟩ : ∃ a, (s.run "\nfoo\nstp x29, x30, [sp, #-16]!").states[1]? = some a :=
    ⟨_, List.getElem?_eq_getElem (Nat.lt_of_succ_lt hlength)⟩
  obtain ⟨hslot, hregister, -⟩ := touched_of_run s _ ha hb
  rw [hslots] at hslot
  rw [hviews] at hregister
  refine ⟨s, a, b, hs, ha, hb, hslots, hviews, ?_, ?_⟩
  · intro k hlow hhigh
    exact hslot k (by simp [hlow, hhigh])
  · intro r hr
    exact hregister r (by simpa using hr)

end StackSteps
