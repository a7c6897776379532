import StackSteps.Proofs.Session.Freshness
import StackSteps.Proofs.Setup.Seeds

/-!
# Setups that are built up

A setup is made from the standard or the unseeded one by edits: a further starting value, another
number of slots, another lifetime of labels. No edit gives a register a second starting value, and
as there is room for one value of each register, no edit fails (`Setup.BuiltBy.edit`). The same
holds of the starting values that a session is given, and whatever was set before, a machine starts
with the last value of each register (`Session.built_setups_have_room`).
-/
namespace StackSteps

namespace Setup

/-- A change in the making of a setup. -/
inductive Edit where
  | seed (r : Register) (v : Word)
  | slots (slots : Nat)
  | lifetime (lifetime : Nat)

namespace Edit

def seed? : Edit → Option (Register × Word)
  | seed r v => some (r, v)
  | slots _ | lifetime _ => none

def slots? : Edit → Option Nat
  | slots n => some n
  | seed .. | lifetime _ => none

end Edit

def edit (s : Setup) : Edit → Except Fault Setup
  | .seed r v => s.withSeed r v
  | .slots slots => .ok (s.withSlots slots)
  | .lifetime lifetime => .ok (s.withLifetime lifetime)

/-- The setup after some edits, if none of them fails. -/
def edited (s : Setup) (edits : List Edit) : Except Fault Setup :=
  edits.foldlM edit s

theorem edited_concat (s : Setup) (edits : List Edit) (e : Edit) :
    s.edited (edits ++ [e]) = s.edited edits >>= (·.edit e) := by
  simp [edited, List.foldlM_append]

/-- The last number of slots, which is that of the base before one is set. -/
def lastSlots (base : Setup) (edits : List Edit) : Nat :=
  (edits.filterMap Edit.slots?).getLast?.getD base.slots

/-- The last value that a register was given, by the edits or else by the base. -/
def lastSeed? (base : Setup) (edits : List Edit) (r : Register) : Option Word :=
  (lastFor r (edits.filterMap Edit.seed?)).or (lastFor r base.seeds)

theorem lastSeed?_concat (base : Setup) (edits : List Edit) (e : Edit) (r : Register) :
    lastSeed? base (edits ++ [e]) r =
      (e.seed?.bind fun (s, v) => if s = r then some v else none).or (lastSeed? base edits r) := by
  rw [lastSeed?, lastFor_filterMap_concat, Option.or_assoc, lastSeed?]

/-- What a setup keeps of the edits that it was made by. -/
structure BuiltBy (s base : Setup) (edits : List Edit) : Prop where
  distinct : s.Distinct
  slots : s.slots = lastSlots base edits
  seeds : ∀ r, lastFor r s.seeds = lastSeed? base edits r

namespace BuiltBy

variable {base s : Setup} {edits : List Edit}

theorem of_distinct (h : base.Distinct) : base.BuiltBy base [] where
  distinct := h
  slots := rfl
  seeds _ := rfl

/-- No edit fails, as there is room for one value of each register. -/
theorem edit (h : s.BuiltBy base edits) (e : Edit) :
    ∃ s', s.edit e = .ok s' ∧ s'.BuiltBy base (edits ++ [e]) := by
  have hslots : lastSlots base (edits ++ [e]) = e.slots?.getD s.slots := by
    rw [lastSlots, getLast?_filterMap_concat, h.slots, lastSlots]
  have hseeds : ∀ r, lastSeed? base (edits ++ [e]) r =
      (e.seed?.bind fun (s, v) => if s = r then some v else none).or (lastFor r s.seeds) := by
    intro r
    rw [lastSeed?_concat, h.seeds]
  cases e with
  | slots slots =>
    exact ⟨s.withSlots slots, rfl, h.distinct, hslots.symm, fun r => (hseeds r).symm⟩
  | lifetime lifetime =>
    exact ⟨s.withLifetime lifetime, rfl, h.distinct, hslots.symm, fun r => (hseeds r).symm⟩
  | seed r v =>
    obtain ⟨s', hs', hdistinct, hsame, -, hlast⟩ := withSeed_of_distinct h.distinct r v
    refine ⟨s', hs', hdistinct, hsame.trans hslots.symm, fun q => ?_⟩
    rw [hlast, hseeds, Edit.seed?, ite_eq_bind_or]

theorem exists_edited (h : base.Distinct) (edits : List Edit) :
    ∃ s, base.edited edits = .ok s ∧ s.BuiltBy base edits := by
  induction edits using List.reverseRecOn with
  | nil => exact ⟨base, rfl, of_distinct h⟩
  | append_singleton edits e ih =>
    obtain ⟨s, hs, hbuilt⟩ := ih
    obtain ⟨s', hs', hbuilt'⟩ := hbuilt.edit e
    refine ⟨s', ?_, hbuilt'⟩
    rw [edited_concat, hs]
    exact hs'

theorem exists_withSeed (h : s.BuiltBy base edits) (r : Register) (v : Word) :
    ∃ s', s.withSeed r v = .ok s' := by
  obtain ⟨s', hs', -⟩ := withSeed_of_distinct h.distinct r v
  exact ⟨s', hs'⟩

/-- A machine of the setup starts with the last values, and otherwise like a new one. -/
theorem exists_machine (h : s.BuiltBy base edits) (hslots : 1 ≤ s.slots ∧ s.slots ≤ 4096) :
    ∃ m, s.machine = .ok m ∧
      ∀ r, m.bank.get r = (lastSeed? base edits r).getD (Machine.startValue s.slots r) := by
  obtain ⟨m, hm⟩ := Machine.exists_start hslots
  refine ⟨_, by rw [machine_eq, hm, Except.map], fun r => ?_⟩
  rw [get_startBank, h.seeds]

end BuiltBy

end Setup

namespace Session

variable {s : Session}

/-- The starting value that a call gives to a register. -/
def Call.edit? : Call → Option Setup.Edit
  | .setRegister r v => some (.seed r v)
  | .update _ | .reconfigure _ | .run _ => none

/-- A session whose setup names no register twice takes every further starting value. -/
theorem exists_setRegister (hfresh : s.Fresh) (hdistinct : s.setup.Distinct) (r : Register)
    (v : Word) :
    ∃ setup machine, s.setup.withSeed r v = .ok setup ∧
      (setRegister r v).run s = .ok (.run machine s.source) (s.restarted setup machine) := by
  obtain ⟨setup, hsetup, -, hslots, -⟩ := Setup.withSeed_of_distinct hdistinct r v
  obtain ⟨machine, hmachine⟩ := Setup.exists_machine_of_slots_eq hfresh.machine hslots
  refine ⟨setup, machine, hsetup, ?_⟩
  rw [run_setRegister, hsetup]
  dsimp only
  rw [run_reconfigure, hmachine]

variable {base : Setup} {edits : List Setup.Edit}

theorem builtBy_after (hfresh : s.Fresh) (h : s.setup.BuiltBy base edits) {call : Call}
    (hcall : ∀ other, call ≠ .reconfigure other) :
    (s.after call).setup.BuiltBy base (edits ++ call.edit?.toList) := by
  cases call with
  | update source | run source =>
    simp only [Call.edit?, Option.toList_none, List.append_nil]
    exact h
  | reconfigure other => exact absurd rfl (hcall other)
  | setRegister r v =>
    obtain ⟨setup, machine, hsetup, hrun⟩ := exists_setRegister hfresh h.distinct r v
    obtain ⟨setup', hsetup', hbuilt⟩ := h.edit (.seed r v)
    obtain rfl : setup = setup' := Except.ok.inj (hsetup.symm.trans hsetup')
    have hafter : s.after (.setRegister r v) = s.restarted setup machine := after_eq_of_ok hrun
    rw [hafter]
    exact hbuilt

theorem builtBy_afterCalls {s₀ : Session} (hfresh : s₀.Fresh)
    (h : s₀.setup.BuiltBy base edits) {calls : List Call}
    (hcalls : ∀ other, .reconfigure other ∉ calls) :
    (s₀.afterCalls calls).Fresh ∧
      (s₀.afterCalls calls).setup.BuiltBy base (edits ++ calls.filterMap Call.edit?) := by
  induction calls using List.reverseRecOn with
  | nil =>
    rw [List.filterMap_nil, List.append_nil]
    exact ⟨hfresh, h⟩
  | append_singleton calls call ih =>
    obtain ⟨hfresh', h'⟩ := ih fun other hmem => hcalls other (List.mem_append_left _ hmem)
    have hcall : ∀ other, call ≠ .reconfigure other := by
      rintro other rfl
      exact hcalls other (List.mem_append_right _ (List.mem_singleton_self _))
    have hedits : (calls ++ [call]).filterMap Call.edit? =
        calls.filterMap Call.edit? ++ call.edit?.toList := by
      rw [List.filterMap_append]
      cases hedit : call.edit? <;> simp [hedit]
    rw [afterCalls_concat, hedits, ← List.append_assoc]
    exact ⟨hfresh'.after call, builtBy_after hfresh' h' hcall⟩

end Session

/-- What a setup that was built up is good for: no register has two starting values, there is room
for every further one, and if the stack may be as large, a machine starts with the last values. -/
structure Setup.Serves (s base : Setup) (edits : List Setup.Edit) : Prop where
  nodup : (s.seeds.map Prod.fst).Nodup
  room : ∀ r v, ∃ s', s.withSeed r v = .ok s'
  slots : s.slots = lastSlots base edits
  machine : 1 ≤ s.slots ∧ s.slots ≤ 4096 → ∃ m, s.machine = .ok m ∧
    ∀ r, m.bank.get r = (lastSeed? base edits r).getD (Machine.startValue s.slots r)

theorem Setup.BuiltBy.serves {s base : Setup} {edits : List Setup.Edit}
    (h : s.BuiltBy base edits) : s.Serves base edits where
  nodup := h.distinct
  room := h.exists_withSeed
  slots := h.slots
  machine := h.exists_machine

/-- No edit of the standard or the unseeded setup fails, nor does a session of such a setup refuse
a starting value: no register has two values, there is room for one of each, and a machine starts
with the last ones. A register that was given none starts with the value that the first setup has
for it, or else a pointer with the address of the highest slot and any other register with zero. -/
theorem Session.built_setups_have_room {base : Setup} (hbase : base = .standard ∨ base = .unseeded)
    (edits : List Setup.Edit) :
    ∃ setup, base.edited edits = .ok setup ∧ setup.Serves base edits ∧
      ∀ s₀, start setup = .ok s₀ → ∀ calls, (∀ other, .reconfigure other ∉ calls) →
        let s := s₀.afterCalls calls
        s.setup.Serves base (edits ++ calls.filterMap Call.edit?) ∧
        ∀ r v, ∃ trace s', (setRegister r v).run s = .ok trace s' := by
  have hdistinct : base.Distinct := by
    unfold Setup.Distinct
    rcases hbase with rfl | rfl
    · decide
    · decide
  obtain ⟨setup, hsetup, hbuilt⟩ := Setup.BuiltBy.exists_edited hdistinct edits
  refine ⟨setup, hsetup, hbuilt.serves, ?_⟩
  intro s₀ h₀ calls hcalls s
  obtain ⟨hfresh, rfl, -⟩ := start_eq_ok_iff.mp h₀
  obtain ⟨hfresh', hbuilt'⟩ := builtBy_afterCalls hfresh hbuilt hcalls
  refine ⟨hbuilt'.serves, fun r v => ?_⟩
  obtain ⟨_, _, -, hrun⟩ := exists_setRegister hfresh' hbuilt'.distinct r v
  exact ⟨_, _, hrun⟩

/-- All registers have a starting value, two are given another, and there is room for more. -/
theorem Session.full_setup_has_room :
    let edits := Register.all.map (Setup.Edit.seed · 1) ++ [.seed (.general 29) 9, .slots 4]
    ∃ setup s₀ m, Setup.standard.edited edits = .ok setup ∧ setup.seeds.length = 33 ∧
      start setup = .ok s₀ ∧
      let s := s₀.afterCalls [.update "mov x0, sp", .setRegister .sp 7]
      s.setup.machine = .ok m ∧ m.bank.get (.general 29) = 9 ∧ m.bank.get .sp = 7 ∧
      m.bank.get .fp = 1 ∧ ∃ trace s', (setRegister .fp 5).run s = .ok trace s' := by
  intro edits
  have hstart : ((Setup.standard.edited edits).bind start).map (fun s => s.setup.seeds.length) =
      .ok 33 := by
    decide +kernel
  obtain ⟨s₀, h₀, hfull⟩ := map_eq_ok_iff.mp hstart
  obtain ⟨setup, hsetup, h₀⟩ := bind_eq_ok_iff.mp h₀
  obtain ⟨setup', hsetup', -, hsession⟩ := built_setups_have_room (.inl rfl) edits
  obtain rfl : setup' = setup := Except.ok.inj (hsetup'.symm.trans hsetup)
  obtain ⟨hserves, hroom⟩ := hsession s₀ h₀ [.update "mov x0, sp", .setRegister .sp 7] (by simp)
  have hslots : (s₀.afterCalls [.update "mov x0, sp", .setRegister .sp 7]).setup.slots = 4 :=
    hserves.slots
  obtain ⟨m, hm, hvalues⟩ := hserves.machine (by omega)
  obtain ⟨-, rfl, -⟩ := start_eq_ok_iff.mp h₀
  refine ⟨s₀.setup, s₀, m, hsetup, hfull, h₀, hm, ?_, ?_, ?_, hroom .fp 5⟩
  · rw [hvalues]
    rfl
  · rw [hvalues]
    rfl
  · rw [hvalues]
    rfl

end StackSteps
