import StackSteps.Proofs.Setup.Seeds
import StackSteps.Proofs.Trace.LabelAges
import StackSteps.Proofs.Trace.Simulation

/-!
# Runs with another lifetime of labels

Nothing is computed from the labels of registers (`Machine.performed_relabelled`), so a run is the
same under a longer lifetime of labels, but that a register shows further labels and shows each of
its labels for longer. How much longer is the same for all of them, since every step takes one from
a count or renews it (`Label.Outlasts`, `Session.run_of_longer_lifetime`).
-/
namespace StackSteps

namespace Label

/-- Every text of the second list is on the first one, with so much more to its count. -/
structure Outlasts (extra : Nat) (longer labels : List Label) : Prop where
  distinct : Distinct labels
  distinct_longer : Distinct longer
  count : ∀ {text count}, count? text labels = some count →
    count? text longer = some (count + extra)

variable {extra : Nat} {longer labels : List Label}

theorem outlasts_nil (extra : Nat) : Outlasts extra [] [] where
  distinct := List.nodup_nil
  distinct_longer := List.nodup_nil
  count h := absurd h.symm (Option.some_ne_none _)

theorem Outlasts.refresh (h : Outlasts extra longer labels) (text : String) (count : Nat) :
    Outlasts extra (refresh text (count + extra) longer) (refresh text count labels) where
  distinct := h.distinct.refresh text count
  distinct_longer := h.distinct_longer.refresh text (count + extra)
  count := by
    intro other n hn
    rw [count?_refresh] at hn ⊢
    by_cases ht : text = other
    · rw [if_pos ht, Option.some.injEq] at hn
      rw [if_pos ht, hn]
    · rw [if_neg ht] at hn ⊢
      exact h.count hn

theorem Outlasts.fade (h : Outlasts extra longer labels) :
    Outlasts extra (fade longer) (fade labels) where
  distinct := h.distinct.fade
  distinct_longer := h.distinct_longer.fade
  count := by
    intro text n hn
    obtain ⟨hbefore, hpos⟩ := (count?_fade_eq_some_iff h.distinct).mp hn
    refine (count?_fade_eq_some_iff h.distinct_longer).mpr ⟨?_, by omega⟩
    rw [h.count hbefore]
    congr 1
    omega

theorem Outlasts.mem (h : Outlasts extra longer labels) {text : String} {count : Nat}
    (hmem : ⟨text, count⟩ ∈ labels) : ⟨text, count + extra⟩ ∈ longer :=
  (mem_iff_count?_eq h.distinct_longer).mpr (h.count ((mem_iff_count?_eq h.distinct).mp hmem))

end Label

namespace Machine

/-- The machine with other labels on its registers and with another lifetime of labels. -/
def relabelled (m : Machine) (registers : Table (List Label)) (lifetime : Nat) : Machine :=
  { m with labels := { m.labels with registers }, lifetime }

/-- Labels of registers and their lifetime make a difference to the labels of registers alone. -/
theorem performed_relabelled (m : Machine) (registers : Table (List Label)) (lifetime : Nat)
    (i : Instruction) :
    (m.relabelled registers lifetime).performed i =
      (m.performed i).relabelled ((m.relabelled registers lifetime).performed i).labels.registers
        lifetime := by
  cases i with
  | add dst lhs rhs | sub dst lhs rhs | strb src address | ldrb dst address => rfl
  | mov dst src =>
    cases src with
    | immediate imm => rfl
    | register v =>
      simp only [performed, moved]
      split <;> rfl
  | stp first second address =>
    simp only [performed, pairStored]
    split <;> rfl

/-- The first machine has a lifetime of labels that is so much longer, and shows each label of a
register for so many more steps. But for labels of registers the machines are alike. -/
structure Outlasts (extra : Nat) (n m : Machine) : Prop where
  eq : n = m.relabelled n.labels.registers n.lifetime
  lifetime : n.lifetime = m.lifetime + extra
  labels : ∀ r, Label.Outlasts extra (n.labels.register r) (m.labels.register r)

variable {extra : Nat} {m n : Machine}

theorem Outlasts.performed (h : Outlasts extra n m) (i : Instruction) :
    Outlasts extra (n.performed i) (m.performed i) where
  eq := by
    rw [lifetime_performed, h.eq]
    exact performed_relabelled m _ _ i
  lifetime := by
    rw [lifetime_performed, lifetime_performed, h.lifetime]
  labels r := by
    rw [register_performed, register_performed, h.lifetime]
    split
    · exact h.labels r
    · split
      · exact (h.labels r).refresh _ _
      · exact h.labels r

theorem simulation_outlasts (extra : Nat) :
    Simulation (fun m n => Outlasts extra n m) fun _ => False where
  clearTouched h := ⟨congrArg clearTouched h.eq, h.lifetime, h.labels⟩
  fade {m n} h := by
    refine ⟨?_, h.lifetime, fun r => ?_⟩
    · rw [h.eq]
      rfl
    · simp only [Machine.fade, Labels.register_fade]
      exact (h.labels r).fade
  fault? {m n} i h := by
    rw [h.eq]
    exact .inl rfl
  performed {m n i} h _ := h.performed i

end Machine

theorem Setup.machine_withLifetime (setup : Setup) (lifetime : Nat) :
    (setup.withLifetime lifetime).machine = setup.machine.map (·.withLifetime lifetime) := by
  have hsame : (setup.withLifetime lifetime).validate = setup.validate := rfl
  rw [machine, machine, hsame]
  cases setup.validate with
  | error f => rfl
  | ok u =>
    show (Machine.seeded setup.slots setup.seeds).bind _ = _
    cases Machine.seeded setup.slots setup.seeds <;> rfl

/-- A new machine outlasts the one that has a shorter lifetime of labels. -/
theorem Machine.outlasts_of_setup {setup : Setup} {m : Machine} (h : setup.machine = .ok m)
    {lifetime : Nat} (hle : setup.lifetime ≤ lifetime) :
    Outlasts (lifetime - setup.lifetime) (m.withLifetime lifetime) m where
  eq := rfl
  lifetime := by
    have hlifetime : m.lifetime = setup.lifetime := (Trace.runsUnder_of_setup h).lifetime
    have hlonger : (m.withLifetime lifetime).lifetime = lifetime := rfl
    omega
  labels r := by
    have hnil : m.labels.register r = [] := by
      rw [Trace.labels_of_setup h, Labels.register_start]
    have hnil' : (m.withLifetime lifetime).labels.register r = [] := hnil
    rw [hnil, hnil']
    exact Label.outlasts_nil _

/-- Under a longer lifetime of labels a listing has the same states, notices and failure, but for
the labels of registers. Each label of a register is there under the longer lifetime as well, where
its count is larger by as much as the lifetime. -/
theorem Session.run_of_longer_lifetime {setup : Setup} {lifetime : Nat} {s s' : Session}
    (hle : setup.lifetime ≤ lifetime) (h : start setup = .ok s)
    (h' : start (setup.withLifetime lifetime) = .ok s') (source : String) :
    let t := s.run source
    let t' := s'.run source
    t'.states.length = t.states.length ∧ t'.notices = t.notices ∧ t'.failure = t.failure ∧
    ∀ (j : Nat) (a a' : Snapshot), t.states[j]? = some a → t'.states[j]? = some a' →
      a'.instruction = a.instruction ∧ a'.stack = a.stack ∧ a'.registers = a.registers ∧
      a'.slotLabels = a.slotLabels ∧ a'.touchedSlots = a.touchedSlots ∧
      a'.touchedViews = a.touchedViews ∧
      ∀ r text count, ⟨text, count⟩ ∈ a.labelsOfRegister r →
        ⟨text, count + (lifetime - setup.lifetime)⟩ ∈ a'.labelsOfRegister r := by
  intro t t'
  obtain ⟨hfresh, rfl, -⟩ := start_eq_ok_iff.mp h
  obtain ⟨hfresh', hsetup', -⟩ := start_eq_ok_iff.mp h'
  have hmachine' : s'.machine = s.machine.withLifetime lifetime := by
    have hmade := hfresh'.machine
    rw [hsetup', Setup.machine_withLifetime, hfresh.machine] at hmade
    exact (Except.ok.inj hmade).symm
  have houtlasts := Machine.outlasts_of_setup hfresh.machine hle
  rw [← hmachine'] at houtlasts
  have hmatched : t.MatchedBy _ _ t' := (Machine.simulation_outlasts _).run houtlasts source
  obtain ⟨hlength, hnotices, hfailure⟩ := hmatched.ends_alike fun _ _ _ _ => not_false
  refine ⟨hlength, hnotices, hfailure, fun j a a' ha ha' => ?_⟩
  obtain ⟨b, hb, m, n, text, hlonger, rfl, rfl⟩ := hmatched.state ha
  obtain rfl : n.snapshot text = a' := Option.some.inj (hb.symm.trans ha')
  have hlabels : ∀ r other count, ⟨other, count⟩ ∈ (m.snapshot text).labelsOfRegister r →
      ⟨other, count + (lifetime - s.setup.lifetime)⟩ ∈ (n.snapshot text).labelsOfRegister r := by
    intro r other count hmem
    rw [Machine.labelsOfRegister_snapshot] at hmem ⊢
    exact (hlonger.labels r).mem hmem
  refine ⟨rfl, ?_, ?_, ?_, ?_, ?_, hlabels⟩
  all_goals
    rw [hlonger.eq]
    rfl

/-- One step after `x0` got the address of the highest slot, its label has one of two steps to go,
or four of five. The load above the stack fails in either run. -/
theorem Session.run_of_lifetime_five :
    let source := "mov x0, sp\nfoo\nldrb w1, [x0, #8]"
    ∃ (s s' : Session) (a a' : Snapshot), start .standard = .ok s ∧
      start (Setup.standard.withLifetime 5) = .ok s' ∧
      (s.run source).states[2]? = some a ∧ (s'.run source).states[2]? = some a' ∧
      ⟨"mov sp", 1⟩ ∈ a.labelsOfRegister (.general 0) ∧
      ⟨"mov sp", 4⟩ ∈ a'.labelsOfRegister (.general 0) ∧
      (s.run source).failure.map Failure.line = some 3 ∧
      (s'.run source).failure.map Failure.line = some 3 := by
  intro source
  have hrun : (start .standard).map (fun s => ((s.run source).failure.map Failure.line,
      (s.run source).states[2]?.map fun a => a.labelsOfRegister (.general 0))) =
        .ok (some 3, some [⟨"mov sp", 1⟩]) := by
    decide +kernel
  obtain ⟨s, hs, hrun⟩ := map_eq_ok_iff.mp hrun
  obtain ⟨s', hs'⟩ : ∃ s', start (Setup.standard.withLifetime 5) = .ok s' := ⟨_, rfl⟩
  obtain ⟨hthree, hlabels⟩ := Prod.mk.inj hrun
  obtain ⟨a, ha, hlabels⟩ := Option.map_eq_some_iff.mp hlabels
  have hmem : ⟨"mov sp", 1⟩ ∈ a.labelsOfRegister (.general 0) := by
    rw [hlabels]
    exact List.mem_singleton_self _
  obtain ⟨hlength, -, hfailure, hstates⟩ :=
    run_of_longer_lifetime (by decide) hs hs' source
  obtain ⟨a', ha'⟩ : ∃ a', (s'.run source).states[2]? = some a' := by
    obtain ⟨htwo, -⟩ := List.getElem?_eq_some_iff.mp ha
    exact ⟨_, List.getElem?_eq_getElem (by rw [hlength]; exact htwo)⟩
  obtain ⟨-, -, -, -, -, -, hlonger⟩ := hstates 2 a a' ha ha'
  exact ⟨s, s', a, a', hs, hs', ha, ha', hmem, hlonger _ _ _ hmem, hthree, by rw [hfailure, hthree]⟩

end StackSteps
