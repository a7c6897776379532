import StackSteps.Proofs.Machine.Reachable

/-!
# What a failing call leaves behind

An instruction that fails changes nothing, and a line that is refused changes nothing. A statement
that fails leaves registers, stack, labels and lifetime as they were, but what the step before
touched is forgotten by then: the machine is the same as before only if nothing was marked
(`unchanged_iff_of_failure`).
-/
namespace StackSteps.Machine

theorem clearTouched_eq_iff {m : Machine} :
    m.clearTouched = m ↔ m.touchedSlots = .empty ∧ m.touchedViews = .empty := by
  obtain ⟨bank, stack, labels, touchedSlots, touchedViews, lifetime⟩ := m
  simp [clearTouched, eq_comm]

theorem apply_error {statement : Statement} {text : String} {m m' : Machine} {f : Fault}
    (h : (apply statement text).run m = .error f m') : m' = m.clearTouched := by
  rw [run_apply] at h
  split at h
  next => contradiction
  next =>
    cases h
    rfl

/-- A line fails in decoding or in execution. -/
theorem step_error {line : String} {m m' : Machine} {e : StepError}
    (h : (step line).run m = .error e m') :
    (∃ cause, e = .decode cause) ∧ m' = m ∨ (∃ f, e = .fault f) ∧ m' = m.clearTouched := by
  rw [run_step] at h
  split at h
  next cause _ =>
    cases h
    exact .inl ⟨⟨cause, rfl⟩, rfl⟩
  next =>
    split at h
    next => contradiction
    next f _ =>
      cases h
      exact .inr ⟨⟨f, rfl⟩, rfl⟩

/-- The machine after a failing call is the one before but for the marks of touched places, and
these are kept if and only if the line was refused in decoding or there were none. -/
theorem unchanged_iff_of_failure (m : Machine) :
    (∀ line e m', (step line).run m = .error e m' →
      m'.clearTouched = m.clearTouched ∧
        (m' = m ↔ (∃ cause, e = .decode cause) ∨
          m.touchedSlots = .empty ∧ m.touchedViews = .empty)) ∧
    (∀ statement text f m', (apply statement text).run m = .error f m' →
      m'.clearTouched = m.clearTouched ∧
        (m' = m ↔ m.touchedSlots = .empty ∧ m.touchedViews = .empty)) := by
  constructor
  · intro line e m' h
    rcases step_error h with ⟨hcause, rfl⟩ | ⟨⟨f, rfl⟩, rfl⟩
    · exact ⟨rfl, iff_of_true rfl (.inl hcause)⟩
    · refine ⟨rfl, ?_⟩
      rw [clearTouched_eq_iff]
      simp
  · intro statement text f m' h
    have hm := apply_error h
    rw [hm]
    exact ⟨rfl, clearTouched_eq_iff⟩

/-- After `mov x0, #0`, a load below the stack fails and forgets that `x0` was touched. -/
theorem failing_load_forgets_marks :
    ∃ m₀ s m f m', seeded 16 [] = .ok m₀ ∧ (step "mov x0, #0").run m₀ = .ok s m ∧ Reachable m ∧
      (step "ldrb w0, [x0, #-1]").run m = .error f m' ∧ m' ≠ m := by
  obtain ⟨m₀, hm₀⟩ : ∃ m₀, seeded 16 [] = .ok m₀ := ⟨_, rfl⟩
  let x0 : View := .whole (.general 0)
  let m := m₀.clearTouched.assigned x0 0 "mov #0"
  have hmove : (step "mov x0, #0").run m₀ = .ok ⟨m.snapshot "mov x0, #0", .executed⟩ m := by
    have hdecode : Statement.decode "mov x0, #0" =
        .ok (.instruction (.mov x0 (.immediate ⟨0, .decimal⟩))) := rfl
    rw [run_step, hdecode]
    rfl
  have hload : (step "ldrb w0, [x0, #-1]").run m =
      .error (.fault (.outOfBounds (-1))) m.clearTouched := by
    have hdecode : Statement.decode "ldrb w0, [x0, #-1]" =
        .ok (.instruction (.ldrb (.low (.general 0)) ⟨x0, -1, false⟩)) := rfl
    have htarget : m.clearTouched.target ⟨x0, -1, false⟩ = -1 := by
      have hread : m.bank.read x0 = 0 := Bank.read_write_self ..
      show ((m.bank.read x0).toNat : Int) + _ = -1
      rw [hread]
      rfl
    have hlocate : m.clearTouched.stack.locate (-1) = .error (.outOfBounds (-1)) :=
      Stack.locate_eq_error_iff.mpr ⟨.inl (by decide), rfl⟩
    rw [run_step, hdecode]
    simp [applied, executed, htarget, hlocate, bind, Except.bind]
  have hreachable : Reachable m := by
    rw [← after_of_run_ok hmove]
    exact .step (.seeded hm₀) _
  refine ⟨m₀, _, m, _, _, hm₀, hmove, hreachable, hload, ?_⟩
  intro hsame
  obtain ⟨-, hviews⟩ := clearTouched_eq_iff.mp hsame
  have hmem : x0 ∈ m.touchedViews := OrderedSet.mem_insert.mpr (.inl rfl)
  rw [hviews] at hmem
  exact OrderedSet.not_mem_empty x0 hmem

end StackSteps.Machine
