import StackSteps.Proofs.Machine.Performed
import StackSteps.Proofs.Trace.Driving

/-!
# Two runs of one listing

Two machines are run on the same lines. If they start in a relation that every line keeps
(`Simulation`), then each state of the first run is matched by one of the second, and the runs end
alike, unless the first ends in a fault that the second may be spared (`Simulation.run`).
-/
namespace StackSteps

/-- A relation of machines that instructions keep. Where one fails on the first machine, it fails
alike on the second, or the second may be spared the fault. -/
structure Simulation (R : Machine → Machine → Prop) (spared : Fault → Prop) : Prop where
  clearTouched : ∀ {m n}, R m n → R m.clearTouched n.clearTouched
  fade : ∀ {m n}, R m n → R m.fade n.fade
  fault? : ∀ {m n} (i : Instruction), R m n →
    i.fault? n.stack.size n.target = i.fault? m.stack.size m.target ∨
      ∃ f, i.fault? m.stack.size m.target = some f ∧ spared f
  performed : ∀ {m n} {i : Instruction}, R m n → i.fault? m.stack.size m.target = none →
    R (m.performed i) (n.performed i)

/-- Snapshots that show related machines under the same text. -/
def Snapshot.Related (R : Machine → Machine → Prop) (a b : Snapshot) : Prop :=
  ∃ m n text, R m n ∧ a = m.snapshot text ∧ b = n.snapshot text

namespace Trace

/-- The second trace has the states of the first one in related form, and it ends alike or the first
one ends in a fault that the second may be spared. -/
structure MatchedBy (R : Machine → Machine → Prop) (spared : Fault → Prop) (t u : Trace) :
    Prop where
  state : ∀ {j : Nat} {a : Snapshot}, t.states[j]? = some a →
    ∃ b, u.states[j]? = some b ∧ a.Related R b
  ending : (u.states.length = t.states.length ∧ u.notices = t.notices ∧ u.failure = t.failure) ∨
    ∃ failure f, t.failure = some failure ∧ failure.error = .fault f ∧ spared f

variable {R : Machine → Machine → Prop} {spared : Fault → Prop} {t u : Trace}

theorem matchedBy_self (h : t.states = []) : t.MatchedBy R spared t where
  state ha := by simp [h] at ha
  ending := .inl ⟨rfl, rfl, rfl⟩

theorem matchedBy_of_spared {line : Nat} {text : String} {f : Fault} (hf : spared f) (u : Trace) :
    (stopped ⟨line, text, .fault f⟩).MatchedBy R spared u where
  state h := by simp [stopped] at h
  ending := .inr ⟨_, f, rfl, rfl, hf⟩

theorem MatchedBy.cons {a b : Snapshot} (h : t.MatchedBy R spared u) (hab : a.Related R b)
    (line : Nat) (outcome : Machine.Outcome) :
    (cons line ⟨a, outcome⟩ t).MatchedBy R spared (cons line ⟨b, outcome⟩ u) where
  state := by
    intro j c hc
    cases j with
    | zero =>
      obtain rfl : a = c := Option.some.inj hc
      exact ⟨b, rfl, hab⟩
    | succ j => exact h.state hc
  ending := by
    refine h.ending.imp_left ?_
    rintro ⟨hlength, hnotices, hfailure⟩
    refine ⟨congrArg (· + 1) hlength, ?_, hfailure⟩
    cases outcome <;> simp [Trace.cons, hnotices]

theorem MatchedBy.ends_alike (h : t.MatchedBy R spared u)
    (hnot : ∀ failure f, t.failure = some failure → failure.error = .fault f → ¬ spared f) :
    u.states.length = t.states.length ∧ u.notices = t.notices ∧ u.failure = t.failure := by
  rcases h.ending with halike | ⟨failure, f, hfailure, herror, hspared⟩
  · exact halike
  · exact absurd hspared (hnot failure f hfailure herror)

end Trace

namespace Simulation

variable {R : Machine → Machine → Prop} {spared : Fault → Prop} {m n : Machine}

theorem applied (h : Simulation R spared) (hR : R m n) (statement : Statement) :
    (∃ m' n', m.applied statement = .ok m' ∧ n.applied statement = .ok n' ∧ R m' n') ∨
    ∃ f, m.applied statement = .error f ∧ (n.applied statement = .error f ∨ spared f) := by
  cases statement with
  | empty => exact .inl ⟨_, _, rfl, rfl, h.clearTouched hR⟩
  | unsupported mnemonic => exact .inl ⟨_, _, rfl, rfl, h.clearTouched hR⟩
  | instruction i =>
    have hclear := h.clearTouched hR
    simp only [Machine.applied, Machine.executed_eq]
    rcases h.fault? i hclear with hsame | ⟨f, hf, hspared⟩
    · rw [hsame]
      cases hfault : i.fault? m.clearTouched.stack.size m.clearTouched.target with
      | none => exact .inl ⟨_, _, rfl, rfl, h.performed hclear hfault⟩
      | some f => exact .inr ⟨f, rfl, .inl rfl⟩
    · rw [hf]
      exact .inr ⟨f, rfl, .inr hspared⟩

theorem follow (h : Simulation R spared) (hR : R m n) (counter : LineCounter)
    (lines : List String) :
    (Trace.follow m counter lines).MatchedBy R spared (Trace.follow n counter lines) := by
  induction lines generalizing m n counter with
  | nil => exact Trace.matchedBy_self rfl
  | cons line lines ih =>
    cases hnext : counter.next? with
    | none =>
      rw [Trace.follow_cons_of_none hnext, Trace.follow_cons_of_none hnext]
      exact Trace.matchedBy_self rfl
    | some next =>
      simp only [Trace.follow_cons_of_some hnext]
      cases Statement.decode line with
      | error e => exact Trace.matchedBy_self rfl
      | ok statement =>
        by_cases hempty : statement = .empty
        · subst hempty
          exact ih hR _
        · rcases h.applied hR statement with ⟨m', n', hm', hn', hR'⟩ | ⟨f, hm', hn' | hspared⟩
          · simp only [hm', hn']
            exact (ih (h.fade hR') _).cons ⟨m', n', _, hR', rfl, rfl⟩ _ _
          · simp only [hm', hn']
            exact Trace.matchedBy_self rfl
          · -- the second run may go on, but the first one has ended
            simp only [hm']
            exact Trace.matchedBy_of_spared hspared _

theorem run (h : Simulation R spared) (hR : R m n) (source : String) :
    (Trace.run m source).MatchedBy R spared (Trace.run n source) :=
  (h.follow hR {} _).cons ⟨m, n, "init", hR, rfl, rfl⟩ 0 .executed

end Simulation

end StackSteps
