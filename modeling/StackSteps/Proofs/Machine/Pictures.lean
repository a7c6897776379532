import StackSteps.Proofs.Machine.WellFormed

/-!
# A picture tells the whole machine

A picture of a reachable machine leaves out empty lists of labels and the lifetime of labels, and
nothing else: machines with the same picture and lifetime are equal, so that no calls tell them
apart, and what is asked of the picture is answered as by the machine
(`snapshot_tells_machine`).
-/
namespace StackSteps

/-- Stores with the same lists of labels are equal. -/
theorem Labels.ext {ls ls' : Labels} (hlength : ls.slots.length = ls'.slots.length)
    (hslot : ∀ k, ls.slot k = ls'.slot k) (hregister : ∀ r, ls.register r = ls'.register r) :
    ls = ls' := by
  obtain ⟨slots, registers⟩ := ls
  obtain ⟨slots', registers'⟩ := ls'
  have hslots : slots = slots' := by
    refine List.ext_getElem hlength fun k hk hk' => ?_
    simpa [slot, hk, hk'] using hslot k
  have hregisters : registers = registers' := Table.ext hregister
  rw [hslots, hregisters]

/-- The snapshot answers every question as the machine does, and past the end of the stack it has no
slot, no labels and no marks. -/
structure Snapshot.Answers (s : Snapshot) (m : Machine) : Prop where
  register : ∀ r, s.register r = some (m.bank.get r)
  slot : ∀ k, s.slot k = m.stack.slots[k]?
  labelsOfSlot : ∀ k, s.labelsOfSlot k = m.labels.slot k
  labelsOfRegister : ∀ r, s.labelsOfRegister r = m.labels.register r
  touchedSlot : ∀ k, s.touchedSlot k = true ↔ k ∈ m.touchedSlots
  touchedView : ∀ v, s.touchedView v = true ↔ v ∈ m.touchedViews
  beyond : ∀ k, m.stack.size ≤ k →
    s.slot k = none ∧ s.labelsOfSlot k = [] ∧ s.touchedSlot k = false

namespace Machine

/-- What an effect gives or fails with, without the machine that it leaves. -/
def outcome {ε α : Type} (x : EStateM ε Machine α) (m : Machine) : Except ε α :=
  match x.run m with
  | .ok a _ => .ok a
  | .error e _ => .error e

/-- What a call answers. -/
inductive Answer where
  | done
  | executed (result : Except Fault Unit)
  | applied (result : Except Fault Step)
  | stepped (result : Except StepError Step)

def answer (m : Machine) : Call → Answer
  | .seed .. | .withLifetime _ | .clearTouched | .fade => .done
  | .execute i => .executed (outcome (execute i) m)
  | .apply statement text => .applied (outcome (apply statement text) m)
  | .step line => .stepped (outcome (step line) m)

/-- What each of a list of calls answers, and the picture of the machine that it leaves. -/
def answers (m : Machine) (text : String) : List Call → List (Answer × Snapshot)
  | [] => []
  | c :: calls =>
    (m.answer c, (m.afterCall c).snapshot text) :: (m.afterCall c).answers text calls

variable {m n : Machine} {text : String}

theorem WellFormed.answers (hm : m.WellFormed) (text : String) : (m.snapshot text).Answers m where
  register := register_snapshot m text
  slot := slot_snapshot m text
  labelsOfSlot := labelsOfSlot_snapshot m text
  labelsOfRegister := labelsOfRegister_snapshot m text
  touchedSlot := touchedSlot_snapshot m text
  touchedView := touchedView_snapshot m text
  beyond k hk := by
    refine ⟨List.getElem?_eq_none hk, ?_, ?_⟩
    · rw [labelsOfSlot_snapshot, Labels.slot_of_le m.labels (hm.length ▸ hk)]
    · rw [Bool.eq_false_iff, ne_eq, touchedSlot_snapshot]
      intro hmem
      exact absurd (hm.touchedSlots k hmem) (Nat.not_lt.mpr hk)

/-- What both machines answer to the questions of one snapshot is all that they hold. -/
theorem eq_of_answers {s : Snapshot} (hm : s.Answers m) (hn : s.Answers n)
    (hlength : m.labels.slots.length = n.labels.slots.length)
    (hlifetime : m.lifetime = n.lifetime) : m = n := by
  have hbank : m.bank = n.bank :=
    Bank.ext fun r => Option.some.inj ((hm.register r).symm.trans (hn.register r))
  have hstack : m.stack = n.stack :=
    Stack.ext (List.ext_getElem? fun k => (hm.slot k).symm.trans (hn.slot k))
  have hlabels : m.labels = n.labels :=
    Labels.ext hlength (fun k => (hm.labelsOfSlot k).symm.trans (hn.labelsOfSlot k))
      fun r => (hm.labelsOfRegister r).symm.trans (hn.labelsOfRegister r)
  have hslots : m.touchedSlots = n.touchedSlots :=
    OrderedSet.ext fun k => (hm.touchedSlot k).symm.trans (hn.touchedSlot k)
  have hviews : m.touchedViews = n.touchedViews :=
    OrderedSet.ext fun v => (hm.touchedView v).symm.trans (hn.touchedView v)
  obtain ⟨bank, stack, labels, touchedSlots, touchedViews, lifetime⟩ := m
  dsimp only at hbank hstack hlabels hslots hviews hlifetime
  rw [hbank, hstack, hlabels, hslots, hviews, hlifetime]

theorem WellFormed.eq_of_snapshot_eq (hm : m.WellFormed) (hn : n.WellFormed)
    (hlifetime : m.lifetime = n.lifetime) (h : m.snapshot text = n.snapshot text) : m = n := by
  have hstack : m.stack.slots = n.stack.slots := congrArg Snapshot.stack h
  have hlength : m.labels.slots.length = n.labels.slots.length := by
    rw [hm.length, hn.length, Stack.size, Stack.size, hstack]
  exact eq_of_answers (hm.answers text) (h ▸ hn.answers text) hlength hlifetime

/-- Reachable machines with one lifetime of labels and one picture are equal, and whatever calls are
made on them, they answer alike, also with errors, and their pictures stay alike. Every question
that is asked of a picture of a reachable machine is answered as by the machine. -/
theorem snapshot_tells_machine (hm : Reachable m) (hn : Reachable n) (text : String) :
    (m.lifetime = n.lifetime → m.snapshot text = n.snapshot text →
      m = n ∧ ∀ calls shown, m.answers shown calls = n.answers shown calls) ∧
    (m.snapshot text).Answers m := by
  have hwell := WellFormed.of_reachable hm
  refine ⟨fun hlifetime h => ?_, hwell.answers text⟩
  obtain rfl := hwell.eq_of_snapshot_eq (WellFormed.of_reachable hn) hlifetime h
  exact ⟨rfl, fun calls shown => rfl⟩

/-- Two copies in either order, the one time behind a store of which the marks and the label are
gone, leave one machine. -/
theorem snapshot_tells_machine_after_copies :
    let x0 : Instruction := .mov (.whole (.general 0)) (.immediate ⟨1, .decimal⟩)
    let x1 : Instruction := .mov (.whole (.general 1)) (.immediate ⟨2, .decimal⟩)
    let calls : List Call :=
      [.step "strb w0, [sp]", .fade, .clearTouched, .execute x0, .execute x1]
    let others : List Call := [.execute x1, .step "ldrb w0, [sp, #8]", .execute x1, .execute x0]
    ∃ m₀ m n, start 2 = .ok m₀ ∧ m₀.afterCalls calls = m ∧ m₀.afterCalls others = n ∧
      m.snapshot "now" = n.snapshot "now" ∧ m = n ∧ (m.snapshot "now").slot 2 = none := by
  intro x0 x1 calls others
  let seen (calls : List Call) (m₀ : Machine) :=
    ((m₀.afterCalls calls).lifetime, (m₀.afterCalls calls).snapshot "now")
  have hseen : (start 2).map (seen calls) = (start 2).map (seen others) := by
    decide +kernel
  obtain ⟨m₀, hm₀⟩ : ∃ m₀, start 2 = .ok m₀ := ⟨_, rfl⟩
  have hreachable : ∀ calls, Reachable (m₀.afterCalls calls) :=
    fun calls => reachable_iff.mpr ⟨2, m₀, calls, .inl hm₀, rfl⟩
  rw [hm₀] at hseen
  obtain ⟨hlifetime, hsnapshot⟩ := Prod.mk.inj (Except.ok.inj hseen)
  obtain ⟨hequal, hanswers⟩ :=
    snapshot_tells_machine (hreachable calls) (hreachable others) "now"
  have hsize : (m₀.afterCalls calls).stack.size = 2 := size_afterCalls (.inl hm₀) calls
  exact ⟨m₀, _, _, hm₀, rfl, rfl, hsnapshot, (hequal hlifetime hsnapshot).1,
    (hanswers.beyond 2 (Nat.le_of_eq hsize)).1⟩

end Machine

end StackSteps
