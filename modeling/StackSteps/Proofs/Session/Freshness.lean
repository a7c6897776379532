import Mathlib
import StackSteps.Data.Except
import StackSteps.Session

/-!
# The stored trace is fresh

A session stores what it could compute: its starting machine from the setup, and its trace from the
machine and the listing. Every call keeps the two in step (`Fresh.after`), a call that fails changes
nothing (`after_eq_of_error`), and so a session is at any time the one that the setup and the last
listing make anew (`fresh_afterCalls`).
-/
namespace StackSteps

/-- The last of some values, when there is one more to look at. -/
theorem getLast?_filterMap_concat {α β : Type} (f : α → Option β) (as : List α) (a : α) (b : β) :
    ((as ++ [a]).filterMap f).getLast?.getD b =
      (f a).getD ((as.filterMap f).getLast?.getD b) := by
  cases h : f a with
  | none => simp [h]
  | some c => simp [h]

namespace Session

inductive Call where
  | update (source : String)
  | setRegister (r : Register) (v : Word)
  | reconfigure (setup : Setup)
  | run (source : String)

/-- What a call does to a session, and the trace that it answers with. -/
def perform : Call → Change Trace
  | .update source => do
    modify (·.update source)
    return (← get).trace
  | .setRegister r v => setRegister r v
  | .reconfigure setup => reconfigure setup
  | .run source => return (← get).run source

/-- The session after a call, whether the call fails or not. -/
def after (s : Session) (call : Call) : Session :=
  match (perform call).run s with
  | .ok _ s' => s'
  | .error _ s' => s'

def afterCalls (s : Session) (calls : List Call) : Session :=
  calls.foldl after s

/-- The listing that a call sets. -/
def Call.listing? : Call → Option String
  | .update source => some source
  | .setRegister .. | .reconfigure _ | .run _ => none

/-- The listing of the last update, which is empty before there is one. -/
def lastListing (calls : List Call) : String :=
  (calls.filterMap Call.listing?).getLast?.getD ""

/-- What is stored is what the setup and the listing make. -/
structure Fresh (s : Session) : Prop where
  machine : s.setup.machine = .ok s.machine
  trace : s.trace = s.run s.source

/-- The session that a setup with a machine leaves of another. -/
def restarted (s : Session) (setup : Setup) (machine : Machine) : Session :=
  { setup, machine, source := s.source, trace := .run machine s.source }

theorem run_reconfigure (setup : Setup) (s : Session) :
    (reconfigure setup).run s =
      match setup.machine with
      | .ok machine => .ok (Trace.run machine s.source) (s.restarted setup machine)
      | .error f => .error f s := by
  rw [reconfigure, run_ofExcept_bind]
  cases setup.machine <;> rfl

theorem run_setRegister (r : Register) (v : Word) (s : Session) :
    (setRegister r v).run s =
      match s.setup.withSeed r v with
      | .ok setup => (reconfigure setup).run s
      | .error f => .error f s := by
  rw [setRegister, run_get_bind, run_ofExcept_bind]
  cases s.setup.withSeed r v <;> rfl

/-- A call leaves the session alone, takes another listing, or starts anew with the same one. -/
theorem perform_cases (call : Call) (s : Session) :
    (∃ f, call.listing? = none ∧ (perform call).run s = .error f s) ∨
    (∃ source, call = .run source ∧ (perform call).run s = .ok (s.run source) s) ∨
    (∃ source, call = .update source ∧
      (perform call).run s = .ok (s.run source) (s.update source)) ∨
    (∃ setup machine, call.listing? = none ∧ setup.machine = .ok machine ∧
      (perform call).run s = .ok (.run machine s.source) (s.restarted setup machine)) := by
  have hreconfigure : ∀ setup : Setup,
      (∃ f, (reconfigure setup).run s = .error f s) ∨
      ∃ machine, setup.machine = .ok machine ∧
        (reconfigure setup).run s = .ok (.run machine s.source) (s.restarted setup machine) := by
    intro setup
    rw [run_reconfigure]
    cases setup.machine with
    | error f => exact .inl ⟨f, rfl⟩
    | ok machine => exact .inr ⟨machine, rfl, rfl⟩
  cases call with
  | update source => exact .inr (.inr (.inl ⟨source, rfl, rfl⟩))
  | run source => exact .inr (.inl ⟨source, rfl, rfl⟩)
  | reconfigure setup =>
    rcases hreconfigure setup with ⟨f, hf⟩ | ⟨machine, hmachine, hok⟩
    · exact .inl ⟨f, rfl, hf⟩
    · exact .inr (.inr (.inr ⟨setup, machine, rfl, hmachine, hok⟩))
  | setRegister r v =>
    have hrun := run_setRegister r v s
    cases hseed : s.setup.withSeed r v with
    | error f =>
      rw [hseed] at hrun
      exact .inl ⟨f, rfl, hrun⟩
    | ok setup =>
      rw [hseed] at hrun
      rcases hreconfigure setup with ⟨f, hf⟩ | ⟨machine, hmachine, hok⟩
      · exact .inl ⟨f, rfl, hrun.trans hf⟩
      · exact .inr (.inr (.inr ⟨setup, machine, rfl, hmachine, hrun.trans hok⟩))

theorem after_eq_of_ok {call : Call} {s s' : Session} {trace : Trace}
    (h : (perform call).run s = .ok trace s') : s.after call = s' := by
  rw [after, h]

/-- A call that fails leaves the session alone. -/
theorem eq_of_perform_eq_error {call : Call} {s s' : Session} {f : Fault}
    (h : (perform call).run s = .error f s') : s' = s := by
  rcases perform_cases call s with ⟨f', -, hrun⟩ | ⟨source, -, hrun⟩ | ⟨source, -, hrun⟩ |
    ⟨setup, machine, -, -, hrun⟩
  all_goals
    rw [hrun] at h
    cases h
  rfl

theorem after_eq_of_error {call : Call} {s : Session} {f : Fault}
    (h : (perform call).run s = .error f s) : s.after call = s := by
  rw [after, h]

theorem Fresh.after {s : Session} (h : s.Fresh) (call : Call) : (s.after call).Fresh := by
  rcases perform_cases call s with ⟨f, -, hrun⟩ | ⟨source, -, hrun⟩ | ⟨source, -, hrun⟩ |
    ⟨setup, machine, -, hmachine, hrun⟩
  · rw [after_eq_of_error hrun]
    exact h
  · rw [after_eq_of_ok hrun]
    exact h
  · rw [after_eq_of_ok hrun]
    exact ⟨h.machine, rfl⟩
  · rw [after_eq_of_ok hrun]
    exact ⟨hmachine, rfl⟩

theorem source_after (s : Session) (call : Call) :
    (s.after call).source = call.listing?.getD s.source := by
  rcases perform_cases call s with ⟨f, hnone, hrun⟩ | ⟨source, rfl, hrun⟩ | ⟨source, rfl, hrun⟩ |
    ⟨setup, machine, hnone, -, hrun⟩
  · rw [after_eq_of_error hrun, hnone]
    rfl
  · rw [after_eq_of_ok hrun]
    rfl
  · rw [after_eq_of_ok hrun]
    rfl
  · rw [after_eq_of_ok hrun, hnone]
    rfl

theorem afterCalls_concat (s : Session) (calls : List Call) (call : Call) :
    s.afterCalls (calls ++ [call]) = (s.afterCalls calls).after call := by
  simp [afterCalls]

theorem lastListing_concat (calls : List Call) (call : Call) :
    lastListing (calls ++ [call]) = call.listing?.getD (lastListing calls) :=
  getLast?_filterMap_concat Call.listing? calls call ""

/-- A session starts with an empty listing. -/
theorem start_eq_ok_iff {setup : Setup} {s : Session} :
    start setup = .ok s ↔ s.Fresh ∧ s.setup = setup ∧ s.source = "" := by
  unfold start
  constructor
  · intro h
    obtain ⟨machine, hmachine, hs⟩ := bind_eq_ok_iff.mp h
    obtain rfl := Except.ok.inj hs
    exact ⟨⟨hmachine, rfl⟩, rfl, rfl⟩
  · rintro ⟨hfresh, rfl, hsource⟩
    have htrace : s.trace = .run s.machine s.source := hfresh.trace
    rw [hfresh.machine]
    obtain ⟨setup, machine, source, trace⟩ := s
    dsimp only at hsource htrace
    subst hsource htrace
    rfl

theorem Fresh.exists_start {s : Session} (h : s.Fresh) :
    ∃ fresh, start s.setup = .ok fresh ∧ fresh.update s.source = s := by
  refine ⟨{ s with source := "", trace := s.run "" }, ?_, ?_⟩
  · exact start_eq_ok_iff.mpr ⟨⟨h.machine, rfl⟩, rfl, rfl⟩
  · have htrace : s.trace = .run s.machine s.source := h.trace
    obtain ⟨setup, machine, source, trace⟩ := s
    dsimp only at htrace
    subst htrace
    rfl

theorem afterCalls_spec {s₀ : Session} (hfresh : s₀.Fresh) (hsource : s₀.source = "")
    (calls : List Call) :
    (s₀.afterCalls calls).Fresh ∧ (s₀.afterCalls calls).source = lastListing calls := by
  induction calls using List.reverseRecOn with
  | nil => exact ⟨hfresh, hsource⟩
  | append_singleton calls call ih =>
    rw [afterCalls_concat, lastListing_concat, source_after, ih.2]
    exact ⟨ih.1.after call, rfl⟩

/-- After any calls, what is stored is what the setup and the last listing make, so that a session
started anew from them is the same. A call that fails, and every run of another listing, leaves the
session as it was. -/
theorem fresh_afterCalls {setup : Setup} {s₀ : Session} (h₀ : start setup = .ok s₀)
    (calls : List Call) :
    let s := s₀.afterCalls calls
    s.setup.machine = .ok s.machine ∧ s.source = lastListing calls ∧ s.trace = s.run s.source ∧
    (∃ fresh, start s.setup = .ok fresh ∧ fresh.update s.source = s) ∧
    (∀ call f s', (perform call).run s = .error f s' → s' = s) ∧
    (∀ source, (perform (.run source)).run s = .ok (s.run source) s) := by
  intro s
  obtain ⟨hfresh, -, hsource⟩ := start_eq_ok_iff.mp h₀
  obtain ⟨hfresh, hsource⟩ := afterCalls_spec hfresh hsource calls
  exact ⟨hfresh.machine, hsource, hfresh.trace, hfresh.exists_start,
    fun call f s' => eq_of_perform_eq_error, fun source => rfl⟩

/-- A listing stays behind a refused setup and a new starting value for a register that the setup
names twice. -/
theorem fresh_after_refused_setup :
    ∃ setup s₀ s fresh, setup.seeds = [(.general 0, 1), (.general 0, 2)] ∧ start setup = .ok s₀ ∧
      s₀.afterCalls [.update "mov x1, x0", .reconfigure (Setup.unseeded.withSlots 0),
        .setRegister (.general 0) 3] = s ∧
      start s.setup = .ok fresh ∧ fresh.update "mov x1, x0" = s := by
  obtain ⟨s₀, hs₀⟩ : ∃ s₀, start { Setup.unseeded with
      seeds := [(.general 0, 1), (.general 0, 2)], seeds_le := by decide } = .ok s₀ := ⟨_, rfl⟩
  obtain ⟨-, hsource, -, ⟨fresh, hstart, hupdate⟩, -⟩ := fresh_afterCalls hs₀
    [.update "mov x1, x0", .reconfigure (Setup.unseeded.withSlots 0),
      .setRegister (.general 0) 3]
  rw [hsource] at hupdate
  exact ⟨_, s₀, _, fresh, rfl, hs₀, rfl, hstart, hupdate⟩

end Session

end StackSteps
