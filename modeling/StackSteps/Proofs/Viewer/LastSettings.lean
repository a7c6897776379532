import StackSteps.Json.Compact
import StackSteps.Proofs.Setup.Seeds
import StackSteps.Proofs.Viewer.Calls

/-!
# The last settings decide

A viewer starts every run from a setup that has grown over all its calls, but what it shows hangs
only on the last listing, the last lifetime of labels and the last starting value of each register
(`trace_of_last_settings`). A call is refused only if its texts name no register or no value.
-/
namespace StackSteps.Viewer

namespace Call

/-- Why a call is refused: its texts name no register, or no value for it. -/
def refusal? : Call → Option Refusal
  | setSeed name value =>
    match readSeed name value with
    | .error refusal => some refusal
    | .ok _ => none
  | update _ | setLifetime _ => none

/-- The starting value that a call gives to a register. -/
def seed? : Call → Option (Register × Word)
  | setSeed name value => (readSeed name value).toOption
  | update _ | setLifetime _ => none

def lifetime? : Call → Option Nat
  | setLifetime lifetime => some lifetime
  | update _ | setSeed .. => none

def listing? : Call → Option String
  | update source => some source
  | setSeed .. | setLifetime _ => none

end Call

/-- The last starting value that a register was given. -/
def lastSeed? (calls : List Call) (r : Register) : Option Word :=
  lastFor r (calls.filterMap Call.seed?)

/-- The last lifetime of labels, which is two before one is set. -/
def lastLifetime (calls : List Call) : Nat :=
  (calls.filterMap Call.lifetime?).getLast?.getD 2

/-- The last listing, which is empty before there is one. -/
def lastListing (calls : List Call) : String :=
  (calls.filterMap Call.listing?).getLast?.getD ""

/-- The value that a register has in a viewer before it is given one: marks in the registers that a
call saves, and in the pointers the address of the highest slot. -/
def standardValue (slots : Nat) : Register → Word
  | .general 29 => 0x1111111111111111
  | .general 30 => 0x2222222222222222
  | .general _ => 0
  | .sp | .fp => UInt64.ofNat (8 * (slots - 1))

/-- The value with which a register starts after some calls. -/
def startValue (slots : Nat) (calls : List Call) (r : Register) : Word :=
  (lastSeed? calls r).getD (standardValue slots r)

theorem lastSeed?_concat (calls : List Call) (call : Call) (r : Register) :
    lastSeed? (calls ++ [call]) r =
      (call.seed?.bind fun (s, w) => if s = r then some w else none).or (lastSeed? calls r) :=
  lastFor_filterMap_concat r Call.seed? calls call

theorem standardValue_eq (slots : Nat) (r : Register) :
    standardValue slots r = (lastFor r Setup.standard.seeds).getD (Machine.startValue slots r) := by
  cases r with
  | general number => fin_cases number <;> rfl
  | sp => rfl
  | fp => rfl

/-- What a viewer keeps of the calls on it. -/
structure Remembers (slots : Nat) (calls : List Call) (v : Viewer) : Prop where
  fresh : v.session.Fresh
  distinct : v.session.setup.Distinct
  slots : v.session.setup.slots = slots
  seeds : ∀ r, lastFor r v.session.setup.seeds =
    (lastSeed? calls r).or (lastFor r Setup.standard.seeds)
  lifetime : v.session.setup.lifetime = lastLifetime calls
  source : v.session.source = lastListing calls

namespace Remembers

variable {encode : Json.Encoder} {slots : Nat} {calls : List Call} {v v' : Viewer} {call : Call}

theorem of_start (h : start slots = .ok v) : v.Remembers slots [] := by
  unfold start at h
  cases hs : Session.start (Setup.standard.withSlots slots) with
  | error f =>
    rw [hs] at h
    contradiction
  | ok s =>
    rw [hs] at h
    cases h
    obtain ⟨hfresh, hsetup, hsource⟩ := Session.start_eq_ok_iff.mp hs
    exact {
      fresh := hfresh
      distinct := by
        rw [hsetup]
        show (Setup.standard.seeds.map Prod.fst).Nodup
        decide
      slots := by rw [hsetup]; rfl
      seeds := fun r => by rw [hsetup]; rfl
      lifetime := by rw [hsetup]; rfl
      source := hsource }

/-- A viewer that takes over what a call sets, and the rest from the viewer before it, keeps the
call too. -/
theorem concat (h : v.Remembers slots calls) (hfresh : v'.session.Fresh)
    (hdistinct : v'.session.setup.Distinct)
    (hslots : v'.session.setup.slots = v.session.setup.slots)
    (hseeds : ∀ r, lastFor r v'.session.setup.seeds =
      (call.seed?.bind fun (s, w) => if s = r then some w else none).or
        (lastFor r v.session.setup.seeds))
    (hlifetime : v'.session.setup.lifetime = call.lifetime?.getD v.session.setup.lifetime)
    (hsource : v'.session.source = call.listing?.getD v.session.source) :
    v'.Remembers slots (calls ++ [call]) where
  fresh := hfresh
  distinct := hdistinct
  slots := hslots.trans h.slots
  seeds r := by
    rw [lastSeed?_concat, Option.or_assoc, ← h.seeds]
    exact hseeds r
  lifetime := by
    rw [lastLifetime, getLast?_filterMap_concat, ← lastLifetime, ← h.lifetime]
    exact hlifetime
  source := by
    rw [lastListing, getLast?_filterMap_concat, ← lastListing, ← h.source]
    exact hsource

/-- Only a call whose texts name no register or no value is refused. -/
theorem perform (encode : Json.Encoder) (h : v.Remembers slots calls) (call : Call) :
    (∃ refusal, call.refusal? = some refusal ∧
      (Viewer.perform encode call).run v = .error refusal v ∧ v.Remembers slots (calls ++ [call])) ∨
    ∃ v' : Viewer, call.refusal? = none ∧
      (Viewer.perform encode call).run v = v'.answered encode ∧
      v'.Remembers slots (calls ++ [call]) := by
  cases call with
  | update source =>
    exact .inr ⟨v.updated source, rfl, run_update encode source v,
      h.concat ⟨h.fresh.machine, rfl⟩ h.distinct rfl (fun _ => rfl) rfl rfl⟩
  | setLifetime lifetime =>
    obtain ⟨m, hm⟩ : ∃ m, (v.session.setup.withLifetime lifetime).machine = .ok m :=
      Setup.exists_machine_of_slots_eq h.fresh.machine rfl
    refine .inr ⟨v.restarted (v.session.setup.withLifetime lifetime) m, rfl, ?_, ?_⟩
    · rw [run_setLifetime, run_change_reconfigure, hm]
    · exact h.concat ⟨hm, rfl⟩ h.distinct rfl (fun _ => rfl) rfl rfl
  | setSeed name value =>
    rw [run_setSeed]
    cases hread : readSeed name value with
    | error refusal =>
      have hseed : (Call.setSeed name value).seed? = none := by
        rw [Call.seed?, hread]
        rfl
      refine .inl ⟨refusal, by rw [Call.refusal?, hread], rfl, ?_⟩
      exact h.concat h.fresh h.distinct rfl (fun _ => by rw [hseed]; rfl) rfl rfl
    | ok seed =>
      obtain ⟨r, w⟩ := seed
      have hseed : (Call.setSeed name value).seed? = some (r, w) := by
        rw [Call.seed?, hread]
        rfl
      obtain ⟨setup, hsetup, hdistinct, hslots, hlifetime, hlast⟩ :=
        Setup.withSeed_of_distinct h.distinct r w
      obtain ⟨m, hm⟩ := Setup.exists_machine_of_slots_eq h.fresh.machine hslots
      refine .inr ⟨v.restarted setup m, by rw [Call.refusal?, hread], ?_, ?_⟩
      · dsimp only
        rw [hsetup]
        dsimp only
        rw [run_change_reconfigure, hm]
      · refine h.concat ⟨hm, rfl⟩ hdistinct hslots (fun q => ?_) hlifetime rfl
        rw [hseed, restarted, Session.restarted, hlast, ite_eq_bind_or]

theorem after (encode : Json.Encoder) (h : v.Remembers slots calls) (call : Call) :
    (v.after encode call).Remembers slots (calls ++ [call]) := by
  rcases h.perform encode call with ⟨refusal, -, hrun, hkeeps⟩ | ⟨v', -, hrun, hkeeps⟩
  · rw [after_eq_of_error hrun]
    exact hkeeps
  · rw [after_eq_of_answered hrun]
    exact hkeeps

theorem afterCalls (encode : Json.Encoder) (h : v.Remembers slots []) (calls : List Call) :
    (v.afterCalls encode calls).Remembers slots calls := by
  induction calls using List.reverseRecOn with
  | nil => exact h
  | append_singleton calls call ih =>
    rw [afterCalls_concat]
    exact ih.after encode call

/-- What is kept decides what is shown. -/
theorem trace_eq (h : v.Remembers slots calls) :
    ∃ m₀, Machine.start slots = .ok m₀ ∧ v.session.trace =
      .run { m₀ with bank := .ofFn (startValue slots calls), lifetime := lastLifetime calls }
        (lastListing calls) := by
  have hmachine := h.fresh.machine
  have hbank : v.session.setup.startBank = .ofFn (startValue slots calls) := by
    refine Bank.ext fun r => ?_
    rw [Setup.get_startBank, Bank.get_ofFn, h.seeds, h.slots, startValue, standardValue_eq]
    cases lastSeed? calls r <;> rfl
  rw [Setup.machine_eq, h.slots, hbank, h.lifetime] at hmachine
  obtain ⟨m₀, hstart, hmachine⟩ := map_eq_ok_iff.mp hmachine
  refine ⟨m₀, hstart, ?_⟩
  rw [h.fresh.trace, Session.run, h.source, ← hmachine]

theorem run_perform (encode : Json.Encoder) (h : v.Remembers slots calls) (call : Call) :
    (Viewer.perform encode call).run v =
      match call.refusal? with
      | some refusal => .error refusal v
      | none => (v.after encode call).answered encode := by
  rcases h.perform encode call with ⟨refusal, hrefusal, hrun, -⟩ | ⟨v', hrefusal, hrun, -⟩
  · rw [hrefusal]
    exact hrun
  · rw [hrefusal, after_eq_of_answered hrun]
    exact hrun

end Remembers

/-- After any calls a viewer shows the run of the last listing from a new machine with the last
starting values and the last lifetime of labels. A call whose texts name no register or no value is
refused and changes nothing, and every other call comes through and is answered with the text of the
trace, if there is one. The order of the calls and whatever was set before does not show. -/
theorem trace_of_last_settings (encode : Json.Encoder) {slots : Nat} {v₀ : Viewer}
    (h₀ : start slots = .ok v₀) (calls : List Call) :
    let v := v₀.afterCalls encode calls
    (∃ m₀, Machine.start slots = .ok m₀ ∧ v.session.trace =
      .run { m₀ with bank := .ofFn (startValue slots calls), lifetime := lastLifetime calls }
        (lastListing calls)) ∧
    (∀ call, (perform encode call).run v =
      match call.refusal? with
      | some refusal => .error refusal v
      | none => (v.after encode call).answered encode) ∧
    (∀ others, (∀ r, lastSeed? others r = lastSeed? calls r) →
      lastLifetime others = lastLifetime calls → lastListing others = lastListing calls →
      (v₀.afterCalls encode others).session.trace = v.session.trace ∧
      (v₀.afterCalls encode others).session.trace.text encode = v.session.trace.text encode) := by
  intro v
  have hkeeps : ∀ calls, (v₀.afterCalls encode calls).Remembers slots calls :=
    (Remembers.of_start h₀).afterCalls encode
  refine ⟨(hkeeps calls).trace_eq, (hkeeps calls).run_perform encode, ?_⟩
  intro others hseeds hlifetime hlisting
  obtain ⟨m₀, hm₀, htrace⟩ := (hkeeps calls).trace_eq
  obtain ⟨m₁, hm₁, hothers⟩ := (hkeeps others).trace_eq
  have hm : m₁ = m₀ := Except.ok.inj (hm₁.symm.trans hm₀)
  have hvalues : startValue slots others = startValue slots calls := by
    funext r
    rw [startValue, startValue, hseeds]
  have hsame : (v₀.afterCalls encode others).session.trace = v.session.trace := by
    rw [htrace, hothers, hm, hvalues, hlifetime, hlisting]
  exact ⟨hsame, by rw [hsame]⟩

/-- What is set again, refused or set in another order does not show. Both registers start with the
last values for them, and the label has the last lifetime. -/
theorem trace_of_settings_in_another_order :
    let calls : List Call := [.setSeed "x0" "3", .update "nop", .setSeed "x0" "0x10",
      .setSeed "x99" "1", .setSeed "x1" "7", .setLifetime 5, .setSeed "x0" "ten",
      .update "mov x1, x0"]
    let others : List Call := [.setLifetime 5, .update "mov x1, x0", .setSeed "x1" "7",
      .setSeed "x0" "16"]
    let shown : Snapshot → String × Option Word × Option Word × List Label := fun s =>
      (s.instruction, s.register (.general 0), s.register (.general 1),
        s.labelsOfRegister (.general 1))
    ∃ v₀, start 16 = .ok v₀ ∧
      (v₀.afterCalls Json.compact others).session.trace.text Json.compact =
        (v₀.afterCalls Json.compact calls).session.trace.text Json.compact ∧
      (v₀.afterCalls Json.compact calls).session.trace.states.map shown =
        [("init", some 16, some 7, []), ("mov x1, x0", some 16, some 16, [⟨"mov x0", 5⟩])] := by
  intro calls others shown
  have hrun : (start 16).map (fun v₀ =>
      (v₀.afterCalls Json.compact calls).session.trace.states.map shown) =
      .ok [("init", some 16, some 7, []),
        ("mov x1, x0", some 16, some 16, [⟨"mov x0", 5⟩])] := by
    decide +kernel
  obtain ⟨v₀, h₀, hshown⟩ := map_eq_ok_iff.mp hrun
  obtain ⟨-, -, hsame⟩ := trace_of_last_settings Json.compact h₀ calls
  refine ⟨v₀, h₀, (hsame others ?_ rfl rfl).2, hshown⟩
  intro r
  cases r with
  | general number =>
    revert number
    decide +kernel
  | sp => rfl
  | fp => rfl

end StackSteps.Viewer
