import StackSteps.Data.Except
import StackSteps.Proofs.Machine.Performed
import StackSteps.Proofs.Machine.Reachable
import StackSteps.Setup

/-!
# Sequences of calls

A machine is made by a constructor and then called any number of times. The machines that come out
are the reachable ones (`reachable_iff`), and what every single call keeps holds of all of them
(`Kept.afterCalls`), as that the number of slots is the one asked for (`size_afterCalls`).
-/
namespace StackSteps.Machine

inductive Call where
  | seed (r : Register) (v : Word)
  | withLifetime (lifetime : Nat)
  | clearTouched
  | fade
  | execute (i : Instruction)
  | apply (statement : Statement) (text : String)
  | step (line : String)

/-- The machine after a call, whether the call fails or not. -/
def afterCall (m : Machine) : Call → Machine
  | .seed r v => m.seed r v
  | .withLifetime lifetime => m.withLifetime lifetime
  | .clearTouched => m.clearTouched
  | .fade => m.fade
  | .execute i => after (execute i) m
  | .apply statement text => after (apply statement text) m
  | .step line => after (step line) m

def afterCalls (m : Machine) (calls : List Call) : Machine :=
  calls.foldl afterCall m

/-- Whether a constructor makes the machine when it is asked for so many slots. -/
def MadeWith (slots : Nat) (m : Machine) : Prop :=
  start slots = .ok m ∨ ∃ seeds, seeded slots seeds = .ok m

theorem afterCalls_concat (m : Machine) (calls : List Call) (c : Call) :
    m.afterCalls (calls ++ [c]) = (m.afterCalls calls).afterCall c := by
  simp [afterCalls]

theorem Reachable.afterCall {m : Machine} (h : Reachable m) (c : Call) :
    Reachable (m.afterCall c) := by
  cases c with
  | seed r v => exact h.seed r v
  | withLifetime lifetime => exact h.withLifetime lifetime
  | clearTouched => exact h.clearTouched
  | fade => exact h.fade
  | execute i => exact h.execute i
  | apply statement text => exact h.apply statement text
  | step line => exact h.step line

theorem reachable_iff {m : Machine} :
    Reachable m ↔ ∃ slots m₀ calls, MadeWith slots m₀ ∧ m₀.afterCalls calls = m := by
  constructor
  · intro h
    have hcall : ∀ {m : Machine} (c : Call),
        (∃ slots m₀ calls, MadeWith slots m₀ ∧ m₀.afterCalls calls = m) →
        ∃ slots m₀ calls, MadeWith slots m₀ ∧ m₀.afterCalls calls = m.afterCall c := by
      rintro m c ⟨slots, m₀, calls, hmade, rfl⟩
      exact ⟨slots, m₀, calls ++ [c], hmade, afterCalls_concat m₀ calls c⟩
    induction h with
    | start h => exact ⟨_, _, [], .inl h, rfl⟩
    | seeded h => exact ⟨_, _, [], .inr ⟨_, h⟩, rfl⟩
    | seed _ r v ih => exact hcall (.seed r v) ih
    | withLifetime _ lifetime ih => exact hcall (.withLifetime lifetime) ih
    | clearTouched _ ih => exact hcall .clearTouched ih
    | fade _ ih => exact hcall .fade ih
    | execute _ i ih => exact hcall (.execute i) ih
    | apply _ statement text ih => exact hcall (.apply statement text) ih
    | step _ line ih => exact hcall (.step line) ih
  · rintro ⟨slots, m₀, calls, hmade, rfl⟩
    induction calls using List.reverseRecOn with
    | nil =>
      rcases hmade with h | ⟨seeds, h⟩
      · exact .start h
      · exact .seeded h
    | append_singleton calls c ih =>
      rw [afterCalls_concat]
      exact ih.afterCall c

/-- An instruction changes nothing, or it comes through. -/
theorem after_execute (m : Machine) (i : Instruction) :
    after (execute i) m = m ∨
      i.fault? m.stack.size m.target = none ∧ after (execute i) m = m.performed i := by
  rw [after, run_execute]
  cases h : m.executed i with
  | error f => exact .inl rfl
  | ok m' =>
    obtain ⟨hnone, rfl⟩ := executed_eq_ok_iff.mp h
    exact .inr ⟨hnone, rfl⟩

/-- A statement clears the marks, and if it is an instruction it may come through then. -/
theorem after_apply (m : Machine) (statement : Statement) (text : String) :
    after (apply statement text) m = m.clearTouched ∨
      ∃ i, statement = .instruction i ∧ i.fault? m.stack.size m.target = none ∧
        after (apply statement text) m = m.clearTouched.performed i := by
  rw [after, run_apply]
  cases h : m.applied statement with
  | error f => exact .inl rfl
  | ok m' =>
    rcases applied_cases h with ⟨-, rfl⟩ | ⟨mnemonic, -, rfl⟩ | ⟨i, hi, hnone, rfl⟩
    · exact .inl rfl
    · exact .inl rfl
    · exact .inr ⟨i, hi, hnone, rfl⟩

/-- A line that is refused changes nothing, and another one is applied. -/
theorem after_step (m : Machine) (line : String) :
    after (step line) m = m ∨
      ∃ statement, Statement.decode line = .ok statement ∧
        after (step line) m = after (apply statement line) m := by
  rw [after, run_step]
  cases h : Statement.decode line with
  | error e => exact .inl rfl
  | ok statement =>
    refine .inr ⟨statement, rfl, ?_⟩
    rw [after, run_apply]
    dsimp only
    cases m.applied statement <;> rfl

/-- What each kind of change keeps. -/
structure Kept (P : Machine → Prop) : Prop where
  seed : ∀ {m} r v, P m → P (m.seed r v)
  withLifetime : ∀ {m} lifetime, P m → P (m.withLifetime lifetime)
  clearTouched : ∀ {m}, P m → P m.clearTouched
  fade : ∀ {m}, P m → P m.fade
  performed : ∀ {m i}, i.fault? m.stack.size m.target = none → P m → P (m.performed i)

namespace Kept

variable {P : Machine → Prop} {m : Machine}

theorem execute (hP : Kept P) (h : P m) (i : Instruction) : P (after (execute i) m) := by
  rcases after_execute m i with hm | ⟨hnone, hm⟩
  · rwa [hm]
  · rw [hm]
    exact hP.performed hnone h

theorem applied (hP : Kept P) (h : P m) {statement : Statement} {m' : Machine}
    (happlied : m.applied statement = .ok m') : P m' := by
  rcases applied_cases happlied with ⟨-, rfl⟩ | ⟨mnemonic, -, rfl⟩ | ⟨i, -, hnone, rfl⟩
  · exact hP.clearTouched h
  · exact hP.clearTouched h
  · exact hP.performed hnone (hP.clearTouched h)

theorem apply (hP : Kept P) (h : P m) (statement : Statement) (text : String) :
    P (after (apply statement text) m) := by
  rcases after_apply m statement text with hm | ⟨i, -, hnone, hm⟩
  · rw [hm]
    exact hP.clearTouched h
  · rw [hm]
    exact hP.performed hnone (hP.clearTouched h)

theorem step (hP : Kept P) (h : P m) (line : String) : P (after (step line) m) := by
  rcases after_step m line with hm | ⟨statement, -, hm⟩
  · rwa [hm]
  · rw [hm]
    exact hP.apply h statement line

theorem afterCall (hP : Kept P) (h : P m) (c : Call) : P (m.afterCall c) := by
  cases c with
  | seed r v => exact hP.seed r v h
  | withLifetime lifetime => exact hP.withLifetime lifetime h
  | clearTouched => exact hP.clearTouched h
  | fade => exact hP.fade h
  | execute i => exact hP.execute h i
  | apply statement text => exact hP.apply h statement text
  | step line => exact hP.step h line

theorem afterCalls (hP : Kept P) (h : P m) (calls : List Call) : P (m.afterCalls calls) := by
  induction calls using List.reverseRecOn with
  | nil => exact h
  | append_singleton calls c ih =>
    rw [afterCalls_concat]
    exact hP.afterCall ih c

end Kept

/-- Starting values change nothing but registers. -/
theorem foldl_seed (seeds : List (Register × Word)) (m : Machine) :
    seeds.foldl (fun m (r, v) => m.seed r v) m =
      { m with bank := seeds.foldl (fun b (r, v) => b.set r v) m.bank } := by
  induction seeds generalizing m with
  | nil => rfl
  | cons seed seeds ih =>
    rw [List.foldl_cons, ih]
    rfl

/-- A new machine is blank but for its registers. -/
theorem MadeWith.eq {slots : Nat} {m : Machine} (h : MadeWith slots m) :
    ∃ stack bank, Stack.start slots = .ok stack ∧ m = {
      bank, stack
      labels := .start stack.size
      touchedSlots := .empty
      touchedViews := .empty
      lifetime := Label.standardLifetime } := by
  have hstart : ∀ {m}, start slots = .ok m → ∃ stack, Stack.start slots = .ok stack ∧ m = {
      bank := .start stack.top, stack
      labels := .start stack.size
      touchedSlots := .empty
      touchedViews := .empty
      lifetime := Label.standardLifetime } := by
    intro m h
    obtain ⟨stack, hstack, hm⟩ := bind_eq_ok_iff.mp h
    exact ⟨stack, hstack, (Except.ok.inj hm).symm⟩
  rcases h with h | ⟨seeds, h⟩
  · obtain ⟨stack, hstack, rfl⟩ := hstart h
    exact ⟨stack, _, hstack, rfl⟩
  · obtain ⟨m₀, hm₀, rfl⟩ := map_eq_ok_iff.mp h
    obtain ⟨stack, hstack, rfl⟩ := hstart hm₀
    exact ⟨stack, _, hstack, foldl_seed seeds _⟩

theorem slots_of_start {slots : Nat} {stack : Stack} (h : Stack.start slots = .ok stack) :
    stack.slots = List.replicate slots 0 := by
  rw [Stack.start] at h
  split at h
  · cases h
    rfl
  · contradiction

theorem size_of_start {slots : Nat} {stack : Stack} (h : Stack.start slots = .ok stack) :
    stack.size = slots := by
  rw [Stack.size, slots_of_start h, List.length_replicate]

theorem MadeWith.size {slots : Nat} {m : Machine} (h : MadeWith slots m) :
    m.stack.size = slots := by
  obtain ⟨stack, bank, hstack, rfl⟩ := h.eq
  exact size_of_start hstack

theorem MadeWith.labels {slots : Nat} {m : Machine} (h : MadeWith slots m) :
    m.labels = .start m.stack.size := by
  obtain ⟨stack, bank, -, rfl⟩ := h.eq
  rfl

theorem kept_size (slots : Nat) : Kept fun m => m.stack.size = slots where
  seed _ _ h := h
  withLifetime _ h := h
  clearTouched h := h
  fade h := h
  performed _ h := (size_performed _ _).trans h

theorem size_afterCalls {slots : Nat} {m₀ : Machine} (h₀ : MadeWith slots m₀)
    (calls : List Call) : (m₀.afterCalls calls).stack.size = slots :=
  (kept_size slots).afterCalls h₀.size calls

/-- The machine of a setup is made with its slots and then given its lifetime of labels. -/
theorem exists_madeWith_of_setup {setup : Setup} {m : Machine} (h : setup.machine = .ok m) :
    ∃ m₀, MadeWith setup.slots m₀ ∧ m = m₀.withLifetime setup.lifetime := by
  obtain ⟨-, -, h⟩ := bind_eq_ok_iff.mp h
  obtain ⟨m₀, hm₀, hm⟩ := bind_eq_ok_iff.mp h
  exact ⟨m₀, .inr ⟨_, hm₀⟩, (Except.ok.inj hm).symm⟩

end StackSteps.Machine
