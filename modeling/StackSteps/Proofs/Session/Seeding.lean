import StackSteps.Proofs.Session.Freshness
import StackSteps.Proofs.Setup.Seeds

/-!
# Starting values show in the first state

A further starting value for a register shows in the new starting machine and in the first state of
the trace, and leaves the other registers alone, if the setup has at most one entry for the
register. A setup may have more, and then the value is lost: it takes the place of the first entry,
and the last one counts (`seeded_value_shows`).
-/
namespace StackSteps.Session

variable {r : Register} {v : Word}

theorem setRegister_eq_ok {s s' : Session} {trace : Trace} (hfresh : s.Fresh)
    (h : (setRegister r v).run s = .ok trace s') :
    let machine := if s.setup.entries r ≤ 1 then s.machine.seed r v else s.machine
    ∃ setup, s.setup.withSeed r v = .ok setup ∧ s' = s.restarted setup machine ∧
      trace = .run machine s.source := by
  intro machine
  rw [run_setRegister] at h
  cases hseed : s.setup.withSeed r v with
  | error f =>
    rw [hseed] at h
    contradiction
  | ok setup =>
    have hmachine : setup.machine = .ok machine := by
      rw [Setup.machine_withSeed hseed, hfresh.machine]
      rfl
    simp only [hseed, run_reconfigure, hmachine] at h
    cases h
    exact ⟨setup, rfl, rfl, rfl⟩

/-- Only the register that is seeded starts with another value. -/
theorem get_ite_seed (m : Machine) (seeded : Prop) [Decidable seeded] (q : Register) :
    (if seeded then m.seed r v else m).bank.get q =
      if q = r ∧ seeded then v else m.bank.get q := by
  by_cases hseeded : seeded
  · rw [if_pos hseeded, Machine.seed, Bank.get_set]
    by_cases hq : q = r
    · rw [if_pos hq.symm, if_pos ⟨hq, hseeded⟩]
    · rw [if_neg (Ne.symm hq), if_neg fun h => hq h.1]
  · rw [if_neg hseeded, if_neg fun h => hseeded h.2]

/-- A further value for a register is what the register starts with if there is at most one entry
for it, and otherwise the register starts as before. The other registers start as before either
way. -/
theorem seeded_value_shows (r : Register) (v : Word) :
    (∀ s s' : Setup, 0 < s.slots ∧ s.slots ≤ Stack.maxSize → s.withSeed r v = .ok s' →
      ∃ m m', s.machine = .ok m ∧ s'.machine = .ok m' ∧
        ∀ q, m'.bank.get q = if q = r ∧ s.entries r ≤ 1 then v else m.bank.get q) ∧
    ∀ setup s₀ calls, start setup = .ok s₀ →
      let s := s₀.afterCalls calls
      ∀ trace s', (setRegister r v).run s = .ok trace s' →
        s'.trace = trace ∧ ∃ first, trace.states[0]? = some first ∧
          ∀ q, first.register q =
            some (if q = r ∧ s.setup.entries r ≤ 1 then v else s.machine.bank.get q) := by
  constructor
  · intro s s' hslots h
    obtain ⟨m, hm⟩ := Setup.exists_machine hslots
    refine ⟨m, _, hm, ?_, get_ite_seed m (s.entries r ≤ 1)⟩
    rw [Setup.machine_withSeed h, hm]
    rfl
  · intro setup s₀ calls h₀ s trace s' h
    obtain ⟨hfresh, -, hsource⟩ := start_eq_ok_iff.mp h₀
    obtain ⟨-, -, rfl, rfl⟩ := setRegister_eq_ok (afterCalls_spec hfresh hsource calls).1 h
    refine ⟨rfl, _, rfl, fun q => ?_⟩
    rw [Machine.register_snapshot, get_ite_seed]

/-- A value for `x1` shows beside two entries for `x0`, of which the last one still shows. -/
theorem seeded_value_shows_beside_two_entries :
    ∃ setup s₀ trace s' first, setup.seeds = [(.general 0, 1), (.general 0, 2)] ∧
      start setup = .ok s₀ ∧ (setRegister (.general 1) 7).run s₀ = .ok trace s' ∧
      trace.states[0]? = some first ∧ first.register (.general 1) = some 7 ∧
      first.register (.general 0) = some 2 := by
  let setup : Setup := { Setup.unseeded with
    seeds := [(.general 0, 1), (.general 0, 2)], seeds_le := by decide }
  have hs₀ : start setup = .ok _ := rfl
  obtain ⟨-, first, hfirst, hregister⟩ :=
    (seeded_value_shows (.general 1) 7).2 setup _ [] hs₀ _ _ rfl
  exact ⟨setup, _, _, _, first, rfl, hs₀, rfl, hfirst, hregister (.general 1),
    hregister (.general 0)⟩

/-- The setup has two entries for `x0`, and the last of them shows and not the further value. -/
theorem seeded_value_lost_on_two_entries :
    ∃ setup setup' m' s₀ trace s' first, setup.seeds = [(.general 0, 1), (.general 0, 2)] ∧
      setup.slots = 16 ∧ setup.withSeed (.general 0) 7 = .ok setup' ∧ setup'.machine = .ok m' ∧
      m'.bank.get (.general 0) = 2 ∧
      start setup = .ok s₀ ∧ (setRegister (.general 0) 7).run s₀ = .ok trace s' ∧
      trace.states[0]? = some first ∧ first.register (.general 0) = some 2 := by
  let setup : Setup := { Setup.unseeded with
    seeds := [(.general 0, 1), (.general 0, 2)], seeds_le := by decide }
  exact ⟨setup, _, _, _, _, _, _, rfl, rfl, rfl, rfl, by decide +kernel, rfl, rfl, rfl,
    by decide +kernel⟩

end StackSteps.Session
