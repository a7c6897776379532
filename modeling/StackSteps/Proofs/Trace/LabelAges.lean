import StackSteps.Proofs.Machine.Labelling
import StackSteps.Proofs.Session.Freshness
import StackSteps.Proofs.Trace.Passages

/-!
# How long labels are seen in a trace

The labels of a state are told by the listing alone (`Session.labels_of_run`). On a register, a text
is seen from the latest step that set it on, with one less to go in every further step, until the
lifetime is over. On a slot only the labels of the last step are seen.
-/
namespace StackSteps

/-- Whether the step of a number sets the text on the register. Step one is that of the first line
that is not blank. -/
def SetsLabel (source : String) (r : Register) (text : String) (k : Nat) : Prop :=
  ∃ n line statement, k = n + 1 ∧ (Text.shownLines source)[n]? = some line ∧
    Statement.decode line = .ok statement ∧ statement.registerLabel? = some (r, text)

section ages

variable {P : Nat → Prop} {L j : Nat}

/-- What is left to a count after `j` steps when the latest of the steps in question renewed it. -/
def Remaining (P : Nat → Prop) (L j count : Nat) : Prop :=
  ∃ k, IsGreatest {k | k ≤ j ∧ P k} k ∧ (j = k ∨ j - k < L) ∧ count = L - (j - k)

theorem remaining_zero (h : ¬ P 0) (count : Nat) : ¬ Remaining P L 0 count := by
  rintro ⟨k, ⟨⟨hk, hP⟩, -⟩, -, -⟩
  obtain rfl : k = 0 := by omega
  exact h hP

/-- A step that renews the count leaves all of it. -/
theorem remaining_succ_of_pos (h : P (j + 1)) {count : Nat} :
    Remaining P L (j + 1) count ↔ count = L := by
  have hgreatest : IsGreatest {k | k ≤ j + 1 ∧ P k} (j + 1) := ⟨⟨le_rfl, h⟩, fun k hk => hk.1⟩
  constructor
  · rintro ⟨k, hk, -, rfl⟩
    rw [hk.unique hgreatest]
    omega
  · rintro rfl
    exact ⟨j + 1, hgreatest, .inl rfl, by omega⟩

/-- Any other step takes one off, and a count that was one or none is gone. -/
theorem remaining_succ_of_neg (h : ¬ P (j + 1)) {count : Nat} :
    Remaining P L (j + 1) count ↔ Remaining P L j (count + 1) ∧ 0 < count := by
  have hset : {k | k ≤ j + 1 ∧ P k} = {k | k ≤ j ∧ P k} := by
    ext k
    constructor
    · rintro ⟨hk, hP⟩
      have hne : k ≠ j + 1 := fun he => h (he ▸ hP)
      exact ⟨by omega, hP⟩
    · rintro ⟨hk, hP⟩
      exact ⟨by omega, hP⟩
  unfold Remaining
  rw [hset]
  constructor
  · rintro ⟨k, hk, hage, hcount⟩
    have hkj : k ≤ j := hk.1.1
    exact ⟨⟨k, hk, by omega, by omega⟩, by omega⟩
  · rintro ⟨⟨k, hk, hage, hcount⟩, hpos⟩
    have hkj : k ≤ j := hk.1.1
    exact ⟨k, hk, by omega, by omega⟩

end ages

namespace Trace

variable {m : Machine} {source : String} {j : Nat} {p : Passage}

/-- The step of a passage sets what its line says. -/
theorem setsLabel_iff (hp : (passagesOf m source)[j]? = some p) {r : Register} {text : String} :
    SetsLabel source r text (j + 1) ↔ p.statement.registerLabel? = some (r, text) := by
  obtain ⟨hvalid, hline⟩ := passagesOf_valid hp
  constructor
  · rintro ⟨n, line, statement, hn, hline', hdecode, hlabel⟩
    obtain rfl : j = n := by omega
    obtain rfl : p.line = line := Option.some.inj (hline.symm.trans hline')
    obtain rfl : p.statement = statement := Except.ok.inj (hvalid.decode.symm.trans hdecode)
    exact hlabel
  · intro hlabel
    exact ⟨j, p.line, p.statement, rfl, hline, hvalid.decode, hlabel⟩

theorem not_setsLabel_zero {r : Register} {text : String} : ¬ SetsLabel source r text 0 := by
  rintro ⟨n, -, -, hn, -⟩
  omega

/-- One passage takes the counts of a register's labels a step further. -/
theorem count?_after {L : Nat} (hp : (passagesOf m source)[j]? = some p)
    (hlifetime : p.before.lifetime = L) {r : Register} {text : String}
    (hbefore : ∀ count, Label.count? text (p.before.labels.register r) = some count ↔
      Remaining (SetsLabel source r text) L j (count + 1) ∧ 0 < count) (count : Nat) :
    Label.count? text (p.after.labels.register r) = some count ↔
      Remaining (SetsLabel source r text) L (j + 1) count := by
  have hregister := Machine.register_applied (passages_valid hp).1.applied r
  -- a step that sets the text renews its count, and every other leaves it as it has faded
  by_cases hsets : SetsLabel source r text (j + 1)
  · have hlabel := (setsLabel_iff hp).mp hsets
    have hrenewed : p.after.labels.register r =
        Label.refresh text L (p.before.labels.register r) := by
      rw [hregister, hlabel, ← hlifetime]
      exact if_pos rfl
    rw [remaining_succ_of_pos hsets, hrenewed, Label.count?_refresh, if_pos rfl,
      Option.some.injEq, eq_comm]
  · have hlabel : p.statement.registerLabel? ≠ some (r, text) :=
      fun he => hsets ((setsLabel_iff hp).mpr he)
    have hsame : Label.count? text (p.after.labels.register r) =
        Label.count? text (p.before.labels.register r) := by
      rw [hregister]
      split
      · rfl
      · rename_i s other hother
        split
        · rename_i hs
          have hne : other ≠ text := by
            rintro rfl
            exact hlabel (hs ▸ hother)
          rw [Label.count?_refresh, if_neg hne]
        · rfl
    rw [remaining_succ_of_neg hsets, hsame, hbefore]

/-- What holds of every machine in a run under a setup. -/
structure RunsUnder (setup : Setup) (m : Machine) : Prop where
  sound : m.SoundLabels
  lifetime : m.lifetime = setup.lifetime
  size : m.stack.size = setup.slots

variable {setup : Setup}

theorem labels_of_setup (h : setup.machine = .ok m) : m.labels = .start m.stack.size := by
  obtain ⟨m₀, hmade, rfl⟩ := Machine.exists_madeWith_of_setup h
  exact hmade.labels

theorem runsUnder_of_setup (h : setup.machine = .ok m) : RunsUnder setup m := by
  obtain ⟨m₀, hmade, rfl⟩ := Machine.exists_madeWith_of_setup h
  have hsound := Machine.soundLabels_of_madeWith hmade
  exact ⟨Machine.kept_soundLabels.withLifetime setup.lifetime hsound, rfl, hmade.size⟩

theorem runsUnder_passage (h : setup.machine = .ok m) (hp : (passagesOf m source)[j]? = some p) :
    RunsUnder setup p.before ∧ RunsUnder setup p.after := by
  refine passages_forall ?_ ?_ (runsUnder_of_setup h) hp
  · intro m m' statement happlied hm
    exact ⟨Machine.kept_soundLabels.applied hm.sound happlied,
      (Machine.lifetime_applied happlied).trans hm.lifetime,
      (Machine.kept_size setup.slots).applied hm.size happlied⟩
  · intro m hm
    exact ⟨Machine.kept_soundLabels.fade hm.sound, hm.lifetime, hm.size⟩

/-- The counts on a register in the state of a passage. -/
theorem count?_passage (h : setup.machine = .ok m) (hp : (passagesOf m source)[j]? = some p)
    (r : Register) (text : String) (count : Nat) :
    Label.count? text (p.after.labels.register r) = some count ↔
      Remaining (SetsLabel source r text) setup.lifetime (j + 1) count := by
  refine passages_induction (motive := fun j p => ∀ count,
    Label.count? text (p.after.labels.register r) = some count ↔
      Remaining (SetsLabel source r text) setup.lifetime (j + 1) count) ?_ ?_ hp count
  · intro p hp hbefore
    refine count?_after hp (runsUnder_passage h hp).1.lifetime fun count => ?_
    have hnone : ¬ Remaining (SetsLabel source r text) setup.lifetime 0 (count + 1) :=
      remaining_zero not_setsLabel_zero _
    rw [hbefore, labels_of_setup h, Labels.register_start]
    simp [Label.count?, hnone]
  · intro j p q hp hq hbefore ih
    refine count?_after hq (runsUnder_passage h hq).1.lifetime fun count => ?_
    have hdistinct := (runsUnder_passage h hp).2.sound.distinct r
    rw [hbefore, Machine.fade, Labels.register_fade, Label.count?_fade_eq_some_iff hdistinct, ih]

/-- No slot label outlives its step. -/
theorem slot_before (h : setup.machine = .ok m) (hp : (passagesOf m source)[j]? = some p)
    (k : Nat) : p.before.labels.slot k = [] := by
  refine passages_induction (motive := fun _ p => ∀ k, p.before.labels.slot k = []) ?_ ?_ hp k
  · intro p _ hbefore k
    rw [hbefore, labels_of_setup h, Labels.slot_start]
  · intro j p q hp _ hbefore ih k
    have hslot := Machine.slot_applied (runsUnder_passage h hp).1.sound.length ih
      (passages_valid hp).1.applied k
    -- with none before it, a slot has one label at most, which has count one and fades
    rw [hbefore, Machine.fade, Labels.slot_fade, hslot]
    cases p.statement.slotLabel? p.before.stack.size p.before.bank.read p.before.target k <;> rfl

/-- The first state has no labels. -/
theorem labels_first {b : Snapshot} (h : setup.machine = .ok m)
    (hb : (run m source).states[0]? = some b) :
    (∀ r, b.labelsOfRegister r = []) ∧ ∀ k, b.labelsOfSlot k = [] := by
  obtain rfl : m.snapshot "init" = b := by
    rw [states_run] at hb
    exact Option.some.inj hb
  constructor
  · intro r
    rw [Machine.labelsOfRegister_snapshot, labels_of_setup h, Labels.register_start]
  · intro k
    rw [Machine.labelsOfSlot_snapshot, labels_of_setup h, Labels.slot_start]

end Trace

namespace Machine

/-- A snapshot leaves out what has no labels. -/
theorem labels_snapshot_ne_nil (m : Machine) (text : String) :
    (∀ r, (m.snapshot text).registerLabels.get r ≠ some []) ∧
      ∀ k, (m.snapshot text).slotLabels.get? k ≠ some [] :=
  ⟨fun _ h => (registerLabels_snapshot_eq_some_iff.mp h).2 rfl,
    fun _ h => (slotLabels_snapshot_eq_some_iff.mp h).2 rfl⟩

end Machine

/-- In a run with lifetime `L`, a text is on a register in state `j` if and only if some step up to
`j` set it, the latest of these being step `j` itself or less than `L` steps ago, and the steps in
between are taken off its count. A slot has the label of the step that led to the state, with count
one, and the first state has no labels. A register or slot without labels is left out. -/
theorem Session.labels_of_run {setup : Setup} {s : Session} (h : Session.start setup = .ok s)
    (source : String) {j : Nat} {b : Snapshot} (hb : (s.run source).states[j]? = some b) :
    (∀ r, ((b.labelsOfRegister r).map (·.text)).Nodup ∧
      ∀ text count, ⟨text, count⟩ ∈ b.labelsOfRegister r ↔
        ∃ k, IsGreatest {k | k ≤ j ∧ SetsLabel source r text k} k ∧
          (j = k ∨ j - k < setup.lifetime) ∧ count = setup.lifetime - (j - k)) ∧
    (match j with
      | 0 => (∀ r, b.labelsOfRegister r = []) ∧ ∀ k, b.labelsOfSlot k = []
      | n + 1 => ∃ a line statement, (s.run source).states[n]? = some a ∧
        (Text.shownLines source)[n]? = some line ∧ Statement.decode line = .ok statement ∧
        ∀ k, b.labelsOfSlot k =
          ((statement.slotLabel? setup.slots a.read a.target k).map (Label.mk · 1)).toList) ∧
    (∀ r, b.registerLabels.get r ≠ some []) ∧ ∀ k, b.slotLabels.get? k ≠ some [] := by
  obtain ⟨hfresh, rfl, -⟩ := start_eq_ok_iff.mp h
  have hmachine := hfresh.machine
  have habsent : (∀ r, b.registerLabels.get r ≠ some []) ∧ ∀ k, b.slotLabels.get? k ≠ some [] := by
    obtain ⟨m, text, rfl⟩ := Trace.exists_snapshot hb
    exact m.labels_snapshot_ne_nil text
  cases j with
  | zero =>
    obtain ⟨hregister, hslot⟩ := Trace.labels_first hmachine hb
    refine ⟨fun r => ?_, ⟨hregister, hslot⟩, habsent⟩
    rw [hregister]
    refine ⟨List.nodup_nil, fun text count => iff_of_false List.not_mem_nil ?_⟩
    exact remaining_zero Trace.not_setsLabel_zero count
  | succ n =>
    obtain ⟨p, hp, rfl⟩ := Trace.exists_passage hb
    obtain ⟨hvalid, hline⟩ := Trace.passagesOf_valid hp
    obtain ⟨hbefore, hafter⟩ := Trace.runsUnder_passage hmachine hp
    obtain ⟨hlength, -⟩ := List.getElem?_eq_some_iff.mp hb
    have ha := List.getElem?_eq_getElem (Nat.lt_of_succ_lt hlength)
    obtain ⟨-, hregisters⟩ := Trace.state_before ha hp
    refine ⟨fun r => ?_, ⟨_, p.line, p.statement, ha, hline, hvalid.decode, fun k => ?_⟩, habsent⟩
    · rw [Passage.state, Machine.labelsOfRegister_snapshot]
      refine ⟨hafter.sound.distinct r, fun text count => ?_⟩
      rw [Label.mem_iff_count?_eq (hafter.sound.distinct r)]
      exact Trace.count?_passage hmachine hp r text count
    · rw [Passage.state, Machine.labelsOfSlot_snapshot,
        Snapshot.read_eq_of_registers_eq hregisters, Snapshot.target_eq_of_registers_eq hregisters,
        ← hbefore.size]
      exact Machine.slot_applied hbefore.sound.length (Trace.slot_before hmachine hp)
        hvalid.applied k

/-- A step after `x0` got the address of the highest slot, its label has one step to go, and that
of the slot is gone. The blank line is no step. -/
theorem Session.labels_after_unsupported :
    ∃ (s : Session) (b : Snapshot), Session.start .standard = .ok s ∧
      (s.run "mov x0, sp\n\nfoo").states[2]? = some b ∧
      ⟨"mov sp", 1⟩ ∈ b.labelsOfRegister (.general 0) ∧ ∀ k, b.labelsOfSlot k = [] := by
  have hrun : (Session.start .standard).map (fun s =>
      (s.run "mov x0, sp\n\nfoo").states[2]?.map Snapshot.instruction) = .ok (some "foo") := by
    decide +kernel
  obtain ⟨s, b, hs, hb, -⟩ := exists_state _ hrun
  have hlines : Text.shownLines "mov x0, sp\n\nfoo" = ["mov x0, sp", "foo"] := by
    decide +kernel
  have hmove : Statement.decode "mov x0, sp" =
      .ok (.instruction (.mov (.whole (.general 0)) (.register (.whole .sp)))) := rfl
  have hfoo : Statement.decode "foo" = .ok (.unsupported "foo") := rfl
  obtain ⟨hregister, ⟨a, line, statement, -, hline, hdecode, hslot⟩, -⟩ :=
    labels_of_run hs _ hb
  refine ⟨s, b, hs, hb, ?_, fun k => ?_⟩
  · refine ((hregister (.general 0)).2 "mov sp" 1).mpr ⟨1, ⟨?_, ?_⟩, .inr (by decide), rfl⟩
    · exact ⟨by decide, 0, "mov x0, sp", _, rfl, by rw [hlines]; rfl, hmove, rfl⟩
    · rintro k ⟨hk, n, line, statement, rfl, hline, hdecode, hlabel⟩
      rw [hlines] at hline
      match n with
      | 0 => exact le_rfl
      | 1 =>
        cases hline
        rw [hfoo] at hdecode
        cases hdecode
        contradiction
  · rw [hlines] at hline
    cases hline
    rw [hfoo] at hdecode
    cases hdecode
    exact hslot k

end StackSteps
