import StackSteps.Proofs.Machine.Labelling
import StackSteps.Proofs.Session.Freshness
import StackSteps.Proofs.Setup.Seeds
import StackSteps.Proofs.Trace.Simulation

/-!
# Runs on a larger stack

Slots on top of a stack are reached by addresses that fail without them. What comes through on the
smaller stack does the same on the larger one (`Machine.performed_shrunk`), where labels may come
onto the further slots, but no values. A run therefore gets as far on the larger stack, and shows
the same up to there (`Session.run_of_larger_stack`).
-/
namespace StackSteps

theorem Instruction.fault?_of_le {slots slots' : Nat} (hle : slots ≤ slots')
    {target : Address → Int} {i : Instruction} (h : i.fault? slots target = none) :
    i.fault? slots' target = none := by
  cases i with
  | add dst lhs rhs | sub dst lhs rhs | mov dst src => exact h
  | strb src address =>
    obtain ⟨hlow, hhigh⟩ := fault?_strb_eq_none_iff.mp h
    exact fault?_strb_eq_none_iff.mpr ⟨hlow, by omega⟩
  | ldrb dst address =>
    obtain ⟨hlow, hhigh⟩ := fault?_ldrb_eq_none_iff.mp h
    exact fault?_ldrb_eq_none_iff.mpr ⟨hlow, by omega⟩
  | stp first second address =>
    obtain ⟨hlow, hhigh⟩ := fault?_stp_eq_none_iff.mp h
    exact fault?_stp_eq_none_iff.mpr ⟨hlow, by omega⟩

namespace Labels

/-- The labels of the first slots and of all registers. -/
def takeSlots (ls : Labels) (size : Nat) : Labels :=
  { ls with slots := ls.slots.take size }

variable (ls : Labels) (size : Nat)

theorem get?_slotEntries_takeSlots {size k : Nat} (hk : k < size) :
    (ls.takeSlots size).slotEntries.get? k = ls.slotEntries.get? k := by
  simp only [slotEntries, takeSlots, Sparse.get?_filled, List.getElem?_take_of_lt hk]

@[simp] theorem takeSlots_addSlot (i : Nat) (text : String) (count : Nat) :
    (ls.addSlot i text count).takeSlots size = (ls.takeSlots size).addSlot i text count := by
  simp [takeSlots, addSlot, List.take_modify]

@[simp] theorem takeSlots_replaceSlot (i : Nat) (label : Label) :
    (ls.replaceSlot i label).takeSlots size = (ls.takeSlots size).replaceSlot i label := by
  simp [takeSlots, replaceSlot, List.take_set]

@[simp] theorem takeSlots_addRegister (r : Register) (text : String) (count : Nat) :
    (ls.addRegister r text count).takeSlots size = (ls.takeSlots size).addRegister r text count :=
  rfl

@[simp] theorem takeSlots_fade : ls.fade.takeSlots size = (ls.takeSlots size).fade := by
  simp [takeSlots, fade, List.map_take]

theorem takeSlots_start {size size' : Nat} (hle : size ≤ size') :
    (start size').takeSlots size = start size := by
  simp [takeSlots, start, List.take_replicate, hle]

end Labels

namespace Machine

/-- The machine with another stack in place of its own, of which only the labels of as many slots
are left. -/
def shrunk (n : Machine) (stack : Stack) : Machine :=
  { n with stack, labels := n.labels.takeSlots stack.size }

theorem fade_shrunk (n : Machine) (stack : Stack) :
    (n.shrunk stack).fade = n.fade.shrunk stack := by
  simp [shrunk, Machine.fade]

/-- Where a smaller stack has the same values, an instruction does the same there. -/
theorem performed_shrunk {n : Machine} {stack : Stack} {i : Instruction}
    (h : ∀ k, stack.slot k = n.stack.slot k) :
    (n.shrunk stack).performed i = (n.performed i).shrunk ((n.shrunk stack).performed i).stack := by
  cases i with
  | add dst lhs rhs | sub dst lhs rhs => rfl
  | mov dst src =>
    cases src with
    | immediate imm => rfl
    | register v =>
      by_cases hv : v.register.isPointer = true
      · simp only [performed, moved, hv, if_true]
        simp [shrunk, assigned, markView, value]
      · simp only [performed, moved, hv]
        rfl
  | strb src address =>
    simp [performed, byteStored, shrunk, target, h]
  | ldrb dst address =>
    simp [performed, byteLoaded, shrunk, target, h, markView]
  | stp first second address =>
    simp only [performed, pairStored]
    split <;> simp [shrunk, target, markView]

/-- The first machine has further slots, which hold zero and may carry labels. In everything else
the machines are alike. -/
structure Extends (size extra : Nat) (n m : Machine) : Prop where
  eq : m = n.shrunk m.stack
  size : m.stack.size = size
  slots : n.stack.slots = m.stack.slots ++ List.replicate extra 0

namespace Extends

variable {size extra : Nat} {m n : Machine} {i : Instruction}

theorem bank (h : Extends size extra n m) : n.bank = m.bank := by
  rw [h.eq]
  rfl

theorem labels (h : Extends size extra n m) : m.labels = n.labels.takeSlots size := by
  rw [h.eq, shrunk, h.size]

theorem target (h : Extends size extra n m) : n.target = m.target := by
  funext address
  rw [Machine.target, Machine.target, h.bank]

theorem slot (h : Extends size extra n m) (k : Nat) : m.stack.slot k = n.stack.slot k := by
  rw [Stack.slot, Stack.slot, h.slots, List.getElem?_append]
  split
  · rfl
  · rename_i hk
    rw [List.getElem?_eq_none (Nat.not_lt.mp hk), List.getElem?_replicate]
    split <;> rfl

theorem size_le (h : Extends size extra n m) : m.stack.size ≤ n.stack.size := by
  rw [Stack.size, Stack.size, h.slots, List.length_append]
  omega

/-- No instruction that comes through writes a further slot. -/
theorem slots_performed (h : Extends size extra n m)
    (hi : i.fault? m.stack.size m.target = none) :
    (n.performed i).stack.slots = (m.performed i).stack.slots ++ List.replicate extra 0 := by
  have hsize : m.stack.size = m.stack.slots.length := rfl
  cases i with
  | add dst lhs rhs | sub dst lhs rhs | ldrb dst address => exact h.slots
  | mov dst src => simpa [performed] using h.slots
  | strb src address =>
    obtain ⟨hlow, hhigh⟩ := Instruction.fault?_strb_eq_none_iff.mp hi
    have hk : (m.target address).toNat / 8 < m.stack.slots.length := by omega
    simp [performed, byteStored, h.target, h.bank, h.slots, ← h.slot, List.set_append_left _ _ hk]
  | stp first second address =>
    obtain ⟨hlow, hhigh⟩ := Instruction.fault?_stp_eq_none_iff.mp hi
    have hk : (m.target address).toNat / 8 < m.stack.slots.length := by omega
    have hk' : (m.target address + 8).toNat / 8 < m.stack.slots.length := by omega
    simp only [performed, stack_pairStored, Stack.slots_set, Place.slot_ofAddress, h.target, h.bank,
      h.slots]
    rw [List.set_append_left _ _ hk, List.set_append_left _ _ (by rwa [List.length_set])]

theorem performed (h : Extends size extra n m) (hi : i.fault? m.stack.size m.target = none) :
    Extends size extra (n.performed i) (m.performed i) where
  eq := by
    have hperformed := performed_shrunk (i := i) h.slot
    rwa [← h.eq] at hperformed
  size := by
    rw [size_performed, h.size]
  slots := h.slots_performed hi

end Extends

theorem simulation_extends (size extra : Nat) :
    Simulation (fun m n => Extends size extra n m) fun _ => True where
  clearTouched h := ⟨congrArg clearTouched h.eq, h.size, h.slots⟩
  fade h := ⟨(congrArg Machine.fade h.eq).trans (fade_shrunk _ _), h.size, h.slots⟩
  fault? {m n} i h := by
    rw [h.target]
    cases hm : i.fault? m.stack.size m.target with
    | none => exact .inl (Instruction.fault?_of_le h.size_le hm)
    | some f => exact .inr ⟨f, rfl, trivial⟩
  performed h hi := h.performed hi

end Machine

section start

variable {slots : Nat} {setup : Setup}

namespace Setup

/-- If both pointers have starting values, the number of slots plays no part in the registers. -/
theorem startValue_of_mem (hsp : .sp ∈ setup.seeds.map Prod.fst)
    (hfp : .fp ∈ setup.seeds.map Prod.fst) (slots : Nat) (r : Register) :
    (lastFor r setup.seeds).getD (Machine.startValue slots r) =
      (lastFor r setup.seeds).getD 0 := by
  cases r with
  | general number => rfl
  | sp =>
    obtain ⟨v, hv⟩ := exists_lastFor .sp hsp
    rw [hv]
    rfl
  | fp =>
    obtain ⟨v, hv⟩ := exists_lastFor .fp hfp
    rw [hv]
    rfl

theorem eq_of_machine {m : Machine} (h : setup.machine = .ok m)
    (hsp : .sp ∈ setup.seeds.map Prod.fst) (hfp : .fp ∈ setup.seeds.map Prod.fst) :
    m.stack.slots = List.replicate setup.slots 0 ∧ m = {
      bank := .ofFn fun r => (lastFor r setup.seeds).getD 0
      stack := m.stack
      labels := .start setup.slots
      touchedSlots := .empty
      touchedViews := .empty
      lifetime := setup.lifetime } := by
  rw [machine_eq] at h
  obtain ⟨m₀, hstart, rfl⟩ := map_eq_ok_iff.mp h
  obtain ⟨stack, bank, hstack, rfl⟩ := Machine.MadeWith.eq (.inl hstart)
  refine ⟨Machine.slots_of_start hstack, ?_⟩
  simp only [Machine.size_of_start hstack, startBank, startValue_of_mem hsp hfp]

end Setup

/-- If both pointers have starting values, a machine with more slots extends the one with fewer. -/
theorem Machine.extends_of_setup {m n : Machine} (hle : setup.slots ≤ slots)
    (hsp : .sp ∈ setup.seeds.map Prod.fst) (hfp : .fp ∈ setup.seeds.map Prod.fst)
    (h : setup.machine = .ok m) (h' : (setup.withSlots slots).machine = .ok n) :
    Extends setup.slots (slots - setup.slots) n m := by
  obtain ⟨hm, hmeq⟩ := Setup.eq_of_machine h hsp hfp
  obtain ⟨hn, hneq⟩ := Setup.eq_of_machine h' hsp hfp
  have hsize : m.stack.size = setup.slots := by
    rw [Stack.size, hm, List.length_replicate]
  refine ⟨?_, hsize, ?_⟩
  · rw [hneq, shrunk, hsize]
    exact hmeq.trans (by rw [← Labels.takeSlots_start hle]; rfl)
  · rw [hm, hn, ← List.replicate_add, Nat.add_sub_cancel' hle]
    rfl

end start

/-- On a larger stack a listing has every state that it has on a smaller one, if the setup gives
both pointers a starting value: with the same text, registers, labels of registers and marks, with
the same values and labels of the slots that both stacks have, and with zero in all others. If the
run on the smaller stack completes, so does the other one, with no more states and with the same
notices. If it stops at a line that is refused, both have the same failure. -/
theorem Session.run_of_larger_stack {setup : Setup} {slots : Nat} {s s' : Session}
    (hle : setup.slots ≤ slots) (hsp : .sp ∈ setup.seeds.map Prod.fst)
    (hfp : .fp ∈ setup.seeds.map Prod.fst) (h : start setup = .ok s)
    (h' : start (setup.withSlots slots) = .ok s') (source : String) :
    let t := s.run source
    let t' := s'.run source
    (∀ (j : Nat) (a : Snapshot), t.states[j]? = some a → ∃ b, t'.states[j]? = some b ∧
      b.instruction = a.instruction ∧ b.registers = a.registers ∧
      b.registerLabels = a.registerLabels ∧ b.touchedSlots = a.touchedSlots ∧
      b.touchedViews = a.touchedViews ∧ a.stack.length = setup.slots ∧
      b.stack = a.stack ++ List.replicate (slots - setup.slots) 0 ∧
      ∀ k < setup.slots, b.slotLabels.get? k = a.slotLabels.get? k) ∧
    (t.failure = none → t'.failure = none ∧ t'.states.length = t.states.length ∧
      t'.notices = t.notices) ∧
    ∀ f e, t.failure = some f → f.error = .decode e → t'.failure = some f := by
  intro t t'
  obtain ⟨hfresh, rfl, -⟩ := start_eq_ok_iff.mp h
  obtain ⟨hfresh', hsetup', -⟩ := start_eq_ok_iff.mp h'
  have hmade := hfresh'.machine
  rw [hsetup'] at hmade
  have hextends := Machine.extends_of_setup hle hsp hfp hfresh.machine hmade
  have hmatched : t.MatchedBy _ _ t' := (Machine.simulation_extends _ _).run hextends source
  refine ⟨fun j a ha => ?_, fun hnone => ?_, fun f e hf he => ?_⟩
  · obtain ⟨b, hb, m, n, text, hmn, rfl, rfl⟩ := hmatched.state ha
    have hlabels : ∀ k < s.setup.slots,
        (n.snapshot text).slotLabels.get? k = (m.snapshot text).slotLabels.get? k := by
      intro k hk
      simp only [Machine.snapshot, hmn.labels]
      rw [Labels.get?_slotEntries_takeSlots _ hk]
    refine ⟨_, hb, rfl, ?_, ?_, ?_, ?_, hmn.size, hmn.slots, hlabels⟩
    all_goals
      rw [hmn.eq]
      rfl
  · obtain ⟨hlength, hnotices, hfailure⟩ := hmatched.ends_alike (by simp [hnone])
    exact ⟨hfailure.trans hnone, hlength, hnotices⟩
  · have hdecode : ∀ failure fault, t.failure = some failure → failure.error = .fault fault →
        ¬ True := by
      intro failure fault hfailure hfault
      rw [hf, Option.some.injEq] at hfailure
      rw [← hfailure, he] at hfault
      contradiction
    obtain ⟨-, -, hfailure⟩ := hmatched.ends_alike hdecode
    exact hfailure.trans hf

/-- Above sixteen slots a store fails in the third line, and on twenty slots it comes through. In
the state before it the slot there has a name, and no other difference is seen. -/
theorem Session.run_of_twenty_slots :
    let source := "add sp, sp, #8\nmov x0, sp\nstrb w0, [sp]"
    ∃ (setup : Setup) (s s' : Session) (a b : Snapshot), setup.slots = 16 ∧
      start setup = .ok s ∧ start (setup.withSlots 20) = .ok s' ∧
      (s.run source).failure.map Failure.line = some 3 ∧ (s'.run source).failure = none ∧
      (s.run source).states[2]? = some a ∧ (s'.run source).states[2]? = some b ∧
      b.slotLabels.get? 16 = some [⟨"x0", 1⟩] ∧ b.registers = a.registers ∧
      b.stack = a.stack ++ List.replicate 4 0 ∧
      ∀ k < 16, b.slotLabels.get? k = a.slotLabels.get? k := by
  intro source
  let setup : Setup :=
    { Setup.standard with seeds := [(.sp, 120), (.fp, 120)], seeds_le := by decide }
  have hrun : (start setup).map (fun s =>
      ((s.run source).failure.map Failure.line, (s.run source).states[2]?.isSome)) =
        .ok (some 3, true) := by
    decide +kernel
  have hrun' : (start (setup.withSlots 20)).map (fun s =>
      ((s.run source).failure, (s.run source).states[2]?.map (·.slotLabels.get? 16))) =
        .ok (none, some (some [⟨"x0", 1⟩])) := by
    decide +kernel
  obtain ⟨s, hs, hrun⟩ := map_eq_ok_iff.mp hrun
  obtain ⟨s', hs', hrun'⟩ := map_eq_ok_iff.mp hrun'
  obtain ⟨hthree, hsome⟩ := Prod.mk.inj hrun
  obtain ⟨hnone, hlabel⟩ := Prod.mk.inj hrun'
  obtain ⟨a, ha⟩ := Option.isSome_iff_exists.mp hsome
  obtain ⟨b', hb', hlabel⟩ := Option.map_eq_some_iff.mp hlabel
  obtain ⟨hstates, -⟩ :=
    run_of_larger_stack (by decide) (by decide) (by decide) hs hs' source
  obtain ⟨b, hb, -, hregisters, -, -, -, -, hstack, hlabels⟩ := hstates 2 a ha
  obtain rfl : b = b' := Option.some.inj (hb.symm.trans hb')
  exact ⟨setup, s, s', a, b, rfl, hs, hs', hthree, hnone, ha, hb, hlabel, hregisters, hstack,
    hlabels⟩

end StackSteps
