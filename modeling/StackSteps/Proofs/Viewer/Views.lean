import StackSteps.Proofs.Json.Encoding
import StackSteps.Proofs.Viewer.Calls

/-!
# All views show the last answer

The text that answers a call is put together from the texts of the snapshots, the wording of the
notices and the failure, which the viewer also serves one at a time. Whatever it serves after some
calls agrees with the text that the last of them was answered with (`views_of_last_answer`), for any
encoder that keeps to JSON. Such an encoder has a text for every trace, so that no call is refused
for want of one after it has changed the viewer (`eq_of_perform_eq_error`).
-/
namespace StackSteps.Viewer

variable {encode : Json.Encoder}

/-- With a text for every trace, a call that comes through is answered with one. -/
theorem answered_of_lawful (h : encode.Lawful) (v : Viewer) :
    ∃ text, v.session.trace.text encode = some text ∧ v.answered encode = .ok text v := by
  obtain ⟨_, _, _, -, -, -, htext⟩ := v.session.trace.exists_text h
  exact ⟨_, htext, by rw [answered, htext]⟩

/-- A refused call leaves the viewer alone. -/
theorem eq_of_perform_eq_error (hencode : encode.Lawful) {call : Call} {v v' : Viewer}
    {refusal : Refusal} (h : (perform encode call).run v = .error refusal v') : v' = v := by
  rcases perform_cases encode call v with ⟨refusal', hrun⟩ | ⟨w, hrun⟩
  · rw [hrun] at h
    cases h
    rfl
  · obtain ⟨text, -, hanswered⟩ := answered_of_lawful hencode w
    rw [hrun, hanswered] at h
    contradiction

variable (encode)

/-- The text that a call is answered with. -/
def answer? (v : Viewer) (call : Call) : Option String :=
  match (perform encode call).run v with
  | .ok text _ => some text
  | .error .. => none

/-- The texts that calls are answered with. A refused call has none. -/
def answers (v : Viewer) : List Call → List String
  | [] => []
  | call :: calls => (v.answer? encode call).toList ++ (v.after encode call).answers calls

theorem answers_concat (v : Viewer) (calls : List Call) (call : Call) :
    v.answers encode (calls ++ [call]) =
      v.answers encode calls ++ ((v.afterCalls encode calls).answer? encode call).toList := by
  induction calls generalizing v with
  | nil => simp [answers, afterCalls]
  | cons first calls ih =>
    rw [List.cons_append, answers, ih, answers, List.append_assoc]
    rfl

variable {encode}

/-- The last answer is the text of the viewer after it and all refused calls behind it. -/
theorem text_of_getLast?_answers (hencode : encode.Lawful) (v : Viewer) (calls : List Call)
    {answer : String} (h : (v.answers encode calls).getLast? = some answer) :
    (v.afterCalls encode calls).session.trace.text encode = some answer := by
  induction calls using List.reverseRecOn with
  | nil => contradiction
  | append_singleton calls call ih =>
    rw [answers_concat] at h
    rw [afterCalls_concat]
    rcases perform_cases encode call (v.afterCalls encode calls) with
      ⟨refusal, hrun⟩ | ⟨v', hrun⟩
    · rw [answer?, hrun, Option.toList_none, List.append_nil] at h
      rw [after_eq_of_error hrun]
      exact ih h
    · obtain ⟨text, htext, hanswered⟩ := answered_of_lawful hencode v'
      rw [answer?, hrun, hanswered, Option.toList_some, List.getLast?_append] at h
      rw [after_eq_of_answered hrun, htext]
      exact h

theorem stateText_eq (v : Viewer) {texts : List String}
    (h : v.session.trace.states.mapM (Snapshot.text encode) = some texts) (i : Nat) :
    v.stateText encode i =
      match texts[i]? with
      | none => .error .noSuchState
      | some text => .ok text := by
  have hitem : (v.session.trace.states.map (Snapshot.text encode))[i]? = (texts.map some)[i]? := by
    rw [mapM_eq_some_iff.mp h]
  rw [List.getElem?_map, List.getElem?_map] at hitem
  rw [stateText]
  cases hs : v.session.trace.states[i]? with
  | none =>
    rw [hs] at hitem
    rw [Option.map_eq_none_iff.mp hitem.symm]
  | some s =>
    rw [hs] at hitem
    obtain ⟨text, htext, hsome⟩ := Option.map_eq_some_iff.mp hitem.symm
    simp only [← hsome, htext]

/-- After any calls, the text that the last one was answered with holds the texts of the snapshots
that the viewer serves, all of them and in their order, the wording of the notices, and the failure
of which the viewer serves the line and the wording. A refused call changes none of it. -/
theorem views_of_last_answer (hencode : encode.Lawful) (v₀ : Viewer) (calls : List Call)
    {answer : String} (h : (v₀.answers encode calls).getLast? = some answer) :
    let v := v₀.afterCalls encode calls
    ∃ (states notices : List String) (failure : String),
      answer = "\x7b\"states\":[" ++ ",".intercalate states ++ "],\"diagnostics\":[" ++
        ",".intercalate notices ++ "],\"failure\":" ++ failure ++ "\x7d" ∧
      v.stateCount = states.length ∧
      (∀ i text, states[i]? = some text → v.stateText encode i = .ok text) ∧
      (∀ i, states.length ≤ i → v.stateText encode i = .error .noSuchState) ∧
      v.session.trace.notices.mapM (fun n => encode (.string n.message)) = some notices ∧
      (v.failureLine = none ∧ v.failureMessage = none ∧ failure = "null" ∨
        ∃ f text message, v.session.trace.failure = some f ∧ v.failureLine = some f.line ∧
          v.failureMessage = some f.error.message ∧ encode (.string f.text) = some text ∧
          encode (.string f.error.message) = some message ∧
          failure = "\x7b\"line\":" ++ Text.integer f.line ++ ",\"text\":" ++ text ++
            ",\"message\":" ++ message ++ "\x7d") ∧
      ∀ call refusal v', (perform encode call).run v = .error refusal v' → v' = v := by
  intro v
  have hanswer := text_of_getLast?_answers hencode v₀ calls h
  obtain ⟨states, notices, failure, hstates, hnotices, hfailure, htext⟩ :=
    v.session.trace.exists_text hencode
  have hlength : v.session.trace.states.length = states.length := by
    simpa using congrArg List.length (mapM_eq_some_iff.mp hstates)
  refine ⟨states, notices, failure, Option.some.inj (hanswer.symm.trans htext), hlength, ?_, ?_,
    hnotices, ?_, fun call refusal v' => eq_of_perform_eq_error hencode⟩
  · intro i text hi
    rw [stateText_eq v hstates, hi]
  · intro i hi
    rw [stateText_eq v hstates, List.getElem?_eq_none hi]
  · unfold failureLine failureMessage
    rcases v.session.trace.exists_failureText hencode with ⟨hnone, hnull⟩ |
      ⟨f, text, message, hsome, htext, hmessage, hobject⟩
    · rw [hnone]
      exact .inl ⟨rfl, rfl, Option.some.inj (hfailure.symm.trans hnull)⟩
    · rw [hsome]
      exact .inr ⟨f, text, message, rfl, rfl, rfl, htext, hmessage,
        Option.some.inj (hfailure.symm.trans hobject)⟩

/-- A run that stops early shows its snapshots, its notice and its failure, also behind a refused
call. -/
theorem views_of_stopped_run :
    let calls : List Call := [.update "foo\nldrb w0, [sp, #99]", .setSeed "w0" "1"]
    ∃ v₀ answer first second, start 16 = .ok v₀ ∧
      (v₀.answers Json.compact calls).getLast? = some answer ∧
      answer = "\x7b\"states\":[" ++ (first ++ "," ++ second) ++ "],\"diagnostics\":[" ++
        "\"line 1: unsupported opcode `foo`\"" ++ "],\"failure\":" ++
        ("\x7b\"line\":2,\"text\":\"ldrb w0, [sp, #99]\"" ++
          ",\"message\":\"memory address 219 is out of stack bounds\"\x7d") ++ "\x7d" ∧
      let v := v₀.afterCalls Json.compact calls
      v.stateText Json.compact 0 = .ok first ∧ v.stateText Json.compact 1 = .ok second ∧
      v.stateText Json.compact 2 = .error .noSuchState ∧ v.failureLine = some 2 ∧
      v.failureMessage = some "memory address 219 is out of stack bounds" := by
  intro calls
  let stop : Failure := ⟨2, "ldrb w0, [sp, #99]", .fault (.outOfBounds 219)⟩
  obtain ⟨v₀, h₀, hcount, hnotices, hstop, answer, h⟩ : ∃ v₀, start 16 = .ok v₀ ∧
      (v₀.afterCalls Json.compact calls).stateCount = 2 ∧
      (v₀.afterCalls Json.compact calls).session.trace.notices = [⟨1, "foo"⟩] ∧
      (v₀.afterCalls Json.compact calls).session.trace.failure = some stop ∧
      ∃ answer, (v₀.answers Json.compact calls).getLast? = some answer :=
    ⟨_, rfl, by decide +kernel, by decide +kernel, by decide +kernel, _, rfl⟩
  obtain ⟨states, notices, failure, hanswer, hlength, hstates, hend, htold, hfailure, -⟩ :=
    views_of_last_answer Json.compact_lawful v₀ calls h
  obtain ⟨first, second, rfl⟩ : ∃ first second, states = [first, second] :=
    List.length_eq_two.mp (hlength.symm.trans hcount)
  have hnotice : Json.compact (.string (Notice.message ⟨1, "foo"⟩)) =
      some "\"line 1: unsupported opcode `foo`\"" := by decide +kernel
  have hline : Json.compact (.string stop.text) = some "\"ldrb w0, [sp, #99]\"" := by
    decide +kernel
  have hwording : Json.compact (.string stop.error.message) =
      some "\"memory address 219 is out of stack bounds\"" := by decide +kernel
  rw [hnotices, List.mapM_cons, hnotice] at htold
  obtain rfl := Option.some.inj htold
  rcases hfailure with ⟨hnone, -, -⟩ | ⟨f, text, message, hf, hnumber, hmessage, htext, htold, rfl⟩
  · rw [failureLine, hstop] at hnone
    contradiction
  · obtain rfl : stop = f := Option.some.inj (hstop.symm.trans hf)
    obtain rfl := Option.some.inj (hline.symm.trans htext)
    obtain rfl := Option.some.inj (hwording.symm.trans htold)
    refine ⟨v₀, answer, first, second, h₀, h, ?_, hstates 0 first rfl, hstates 1 second rfl,
      hend 2 le_rfl, hnumber, hmessage⟩
    have htwo : Text.integer stop.line = "2" := by decide +kernel
    have hobject : "\x7b\"line\":" ++ "2" ++ ",\"text\":" ++ "\"ldrb w0, [sp, #99]\"" ++
        ",\"message\":" ++ "\"memory address 219 is out of stack bounds\"" ++ "\x7d" =
        "\x7b\"line\":2,\"text\":\"ldrb w0, [sp, #99]\"" ++
          ",\"message\":\"memory address 219 is out of stack bounds\"\x7d" := by decide +kernel
    have hpair : ",".intercalate [first, second] = first ++ "," ++ second := by simp
    rw [hanswer, htwo, hobject, hpair]
    rfl

end StackSteps.Viewer
