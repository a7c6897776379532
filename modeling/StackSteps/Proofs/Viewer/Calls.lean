import StackSteps.Proofs.Session.Freshness
import StackSteps.Viewer

/-!
# Calls of a viewer

A viewer takes another listing, another starting value or another lifetime of labels, and answers
with the text of its trace. A call that is refused for what it says leaves the viewer alone, and one
that comes through is answered with the text of the viewer that it leaves, if the encoder has one
(`perform_cases`).
-/
namespace StackSteps.Viewer

inductive Call where
  | update (source : String)
  | setSeed (name value : String)
  | setLifetime (lifetime : Nat)

variable (encode : Json.Encoder)

/-- What a call does to a viewer, and the text that it answers with. -/
def perform : Call → Request String
  | .update source => update encode source
  | .setSeed name value => setSeed encode name value
  | .setLifetime lifetime => setLifetime encode lifetime

/-- The viewer after a call, whether the call is refused or not. -/
def after (v : Viewer) (call : Call) : Viewer :=
  match (perform encode call).run v with
  | .ok _ v' => v'
  | .error _ v' => v'

def afterCalls (v : Viewer) (calls : List Call) : Viewer :=
  calls.foldl (after encode) v

theorem afterCalls_concat (v : Viewer) (calls : List Call) (call : Call) :
    v.afterCalls encode (calls ++ [call]) = (v.afterCalls encode calls).after encode call := by
  simp [afterCalls]

/-- The answer of a call that has come through to a viewer. -/
def answered (v : Viewer) : EStateM.Result Refusal Viewer String :=
  match v.session.trace.text encode with
  | none => .error .couldNotEncode v
  | some text => .ok text v

/-- The viewer with another listing. -/
def updated (v : Viewer) (source : String) : Viewer :=
  ⟨v.session.update source⟩

/-- The viewer with the session that a setup with a machine leaves. -/
def restarted (v : Viewer) (setup : Setup) (machine : Machine) : Viewer :=
  ⟨v.session.restarted setup machine⟩

theorem run_update (source : String) (v : Viewer) :
    (perform encode (.update source)).run v = (v.updated source).answered encode := rfl

theorem run_change (c : Session.Change Trace) (v : Viewer) :
    (change encode c).run v =
      match c.run v.session with
      | .error f session => .error (.ofFault f) ⟨session⟩
      | .ok trace session =>
        match trace.text encode with
        | none => .error .couldNotEncode ⟨session⟩
        | some text => .ok text ⟨session⟩ := rfl

theorem run_change_reconfigure (setup : Setup) (v : Viewer) :
    (change encode (Session.reconfigure setup)).run v =
      match setup.machine with
      | .ok machine => (v.restarted setup machine).answered encode
      | .error f => .error (.ofFault f) v := by
  rw [run_change, Session.run_reconfigure]
  cases setup.machine <;> rfl

theorem run_setLifetime (lifetime : Nat) (v : Viewer) :
    (perform encode (.setLifetime lifetime)).run v =
      (change encode (Session.reconfigure (v.session.setup.withLifetime lifetime))).run v := rfl

theorem run_setSeed (name value : String) (v : Viewer) :
    (perform encode (.setSeed name value)).run v =
      match readSeed name value with
      | .error refusal => .error refusal v
      | .ok (r, w) =>
        match v.session.setup.withSeed r w with
        | .error f => .error (.ofFault f) v
        | .ok setup => (change encode (Session.reconfigure setup)).run v := by
  rw [perform, setSeed, run_ofExcept_bind]
  cases readSeed name value with
  | error refusal => rfl
  | ok seed =>
    show (change encode (Session.setRegister seed.1 seed.2)).run v = _
    rw [run_change, Session.run_setRegister]
    dsimp only
    cases v.session.setup.withSeed seed.1 seed.2 <;> rfl

/-- A call is refused and leaves the viewer alone, or it comes through to another viewer. -/
theorem perform_cases (call : Call) (v : Viewer) :
    (∃ refusal, (perform encode call).run v = .error refusal v) ∨
      ∃ v' : Viewer, (perform encode call).run v = v'.answered encode := by
  have hreconfigure : ∀ setup : Setup,
      (∃ refusal, (change encode (Session.reconfigure setup)).run v = .error refusal v) ∨
        ∃ v' : Viewer,
          (change encode (Session.reconfigure setup)).run v = v'.answered encode := by
    intro setup
    rw [run_change_reconfigure]
    cases setup.machine with
    | error f => exact .inl ⟨.ofFault f, rfl⟩
    | ok machine => exact .inr ⟨v.restarted setup machine, rfl⟩
  cases call with
  | update source => exact .inr ⟨v.updated source, run_update encode source v⟩
  | setLifetime lifetime => exact hreconfigure (v.session.setup.withLifetime lifetime)
  | setSeed name value =>
    rw [run_setSeed]
    cases readSeed name value with
    | error refusal => exact .inl ⟨refusal, rfl⟩
    | ok seed =>
      dsimp only
      cases v.session.setup.withSeed seed.1 seed.2 with
      | error f => exact .inl ⟨.ofFault f, rfl⟩
      | ok setup => exact hreconfigure setup

variable {encode}

theorem after_eq_of_error {call : Call} {v : Viewer} {refusal : Refusal}
    (h : (perform encode call).run v = .error refusal v) : v.after encode call = v := by
  rw [after, h]

/-- The viewer that is reached does not hang on whether there is a text to answer with. -/
theorem after_eq_of_answered {call : Call} {v v' : Viewer}
    (h : (perform encode call).run v = v'.answered encode) : v.after encode call = v' := by
  rw [after, h, answered]
  cases v'.session.trace.text encode <;> rfl

end StackSteps.Viewer
