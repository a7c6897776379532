import StackSteps.Proofs.Machine.Effects
import StackSteps.Proofs.Statement.Acceptance
import StackSteps.Session

/-!
# Driving a machine by hand

A drive gives the lines of a listing to the machine one by one and untrimmed, with `Machine.step`,
and records what a trace records. A run of the listing comes to the same trace
(`Session.run_eq_drive`), although it trims the lines, counts them in the decoder and leaves out the
blank ones, which a drive lets the machine see. The two machines differ in nothing but the marks of
touched places, which every step clears before it does anything else. The decoder counts in
thirty-two bits, which a drive does not: a run ends at the first line that has no number.
-/
namespace StackSteps

/-- The error of a step as the error of a numbered line. -/
def Machine.StepError.atLine (number : Nat) : Machine.StepError → Machine.StepError
  | .decode e => .decode { e with line := some number }
  | .fault f => .fault f

def Machine.Outcome.notices (number : Nat) : Machine.Outcome → List Notice
  | .unsupported mnemonic => [⟨number, mnemonic⟩]
  | .executed | .empty => []

/-- A machine, how many lines it was given, and what was recorded. -/
structure Drive where
  machine : Machine
  count : Nat
  trace : Trace

namespace Drive

def start (m : Machine) : Drive :=
  ⟨m, 0, ⟨[m.snapshot "init"], [], none⟩⟩

/-- Gives the machine one more line, unless an earlier one failed. -/
def next (d : Drive) (line : String) : Drive :=
  if d.trace.failure.isSome then d
  else
    let number := d.count + 1
    match (Machine.step line).run d.machine with
    | .error e m =>
      { machine := m
        count := number
        trace := { d.trace with failure := some ⟨number, Text.trim line, e.atLine number⟩ } }
    | .ok ⟨_, .empty⟩ m => { d with machine := m, count := number }
    | .ok ⟨state, outcome⟩ m =>
      { machine := m.fade
        count := number
        trace := { d.trace with
          states := d.trace.states ++ [state]
          notices := d.trace.notices ++ outcome.notices number } }

/-- Gives a fresh drive the lines in order. -/
def through (m : Machine) (lines : List String) : Drive :=
  lines.foldl next (start m)

end Drive

namespace Machine

/-- What the step before touched does not count. -/
theorem applied_congr {m m' : Machine} (h : m.clearTouched = m'.clearTouched)
    (statement : Statement) : m.applied statement = m'.applied statement := by
  cases statement <;> simp [applied, h]

end Machine

/-- The end of a run at a line that has no number. It bears the number of the line before. -/
def Failure.unnumbered (line : String) : Failure :=
  ⟨LineCounter.highest, Text.trim line, .decode ⟨none, .lineNumberOverflow⟩⟩

namespace Trace

/-- Behind the last line that has a number a run goes no further. -/
theorem follow_cons_of_none {counter : LineCounter} (h : counter.next? = none) (m : Machine)
    (line : String) (rest : List String) :
    follow m counter (line :: rest) = stopped (.unnumbered line) := by
  simp only [follow, LineCounter.decode, h, LineCounter.next?_eq_none h]
  rfl

theorem follow_cons_of_some {counter next : LineCounter} (h : counter.next? = some next)
    (m : Machine) (line : String) (rest : List String) :
    follow m counter (line :: rest) =
      match Statement.decode line with
      | .error e => stopped ⟨next.count, Text.trim line, .decode { e with line := some next.count }⟩
      | .ok .empty => follow m next rest
      | .ok statement =>
        match m.applied statement with
        | .error f => stopped ⟨next.count, Text.trim line, .fault f⟩
        | .ok m' =>
          cons next.count ⟨m'.snapshot (Text.trim line), .ofStatement statement⟩
            (follow m'.fade next rest) := by
  have happly : ∀ statement : Statement, m.apply statement (Text.trim line) = _ :=
    fun statement => Machine.run_apply statement (Text.trim line) m
  simp only [follow, LineCounter.decode, h, Statement.decode_trim]
  cases hdecode : Statement.decode line with
  | error e => rfl
  | ok statement =>
    cases statement with
    | empty => rfl
    | unsupported mnemonic => simp [Except.mapError, happly, Machine.applied]
    | instruction i =>
      simp only [Except.mapError, happly, Text.trim_trim]
      cases m.applied (.instruction i) <;> rfl

/-- A trace with the course of the lines behind it. -/
def extend (t rest : Trace) : Trace :=
  ⟨t.states ++ rest.states, t.notices ++ rest.notices, rest.failure⟩

/-- A trace that ends at a line without a number, if there is one and no line before it failed. -/
def endedAt (t : Trace) (line? : Option String) : Trace :=
  { t with failure := t.failure <|> line?.map .unnumbered }

theorem endedAt_of_failed {t : Trace} (h : t.failure ≠ none) (line? : Option String) :
    t.endedAt line? = t := by
  obtain ⟨states, notices, failure⟩ := t
  cases failure with
  | none => contradiction
  | some f => rfl

@[simp] theorem endedAt_none (t : Trace) : t.endedAt none = t := by
  simp [endedAt]

end Trace

namespace Drive

theorem next_of_failed {d : Drive} (h : d.trace.failure ≠ none) (line : String) :
    d.next line = d := by
  unfold next
  rw [if_pos (Option.isSome_iff_ne_none.mpr h)]

/-- The drive after a line that the machine refuses or fails at. -/
def failed (d : Drive) (line : String) (e : Machine.StepError) (m : Machine) : Drive where
  machine := m
  count := d.count + 1
  trace := { d.trace with failure := some ⟨d.count + 1, Text.trim line, e.atLine (d.count + 1)⟩ }

theorem failure_failed (d : Drive) (line : String) (e : Machine.StepError) (m : Machine) :
    (d.failed line e m).trace.failure ≠ none :=
  Option.some_ne_none _

/-- What is left after a failure is not read. -/
theorem foldl_next_of_failed {d : Drive} (h : d.trace.failure ≠ none) (lines : List String) :
    lines.foldl next d = d := by
  induction lines with
  | nil => rfl
  | cons line lines ih => rw [List.foldl_cons, next_of_failed h, ih]

theorem next_of_error {d : Drive} (h : d.trace.failure = none) {line : String}
    {e : Machine.StepError} {m : Machine}
    (hstep : (Machine.step line).run d.machine = .error e m) :
    d.next line = d.failed line e m := by
  unfold next
  rw [if_neg (by rw [h]; decide), hstep]
  rfl

/-- The drive after a blank line. -/
def passed (d : Drive) : Drive :=
  { d with machine := d.machine.clearTouched, count := d.count + 1 }

/-- The drive after a line that is shown. -/
def shown (d : Drive) (line : String) (statement : Statement) (m : Machine) : Drive where
  machine := m.fade
  count := d.count + 1
  trace := { d.trace with
    states := d.trace.states ++ [m.snapshot (Text.trim line)]
    notices := d.trace.notices ++
      (Machine.Outcome.ofStatement statement).notices (d.count + 1) }

theorem next_eq {d : Drive} (h : d.trace.failure = none) (line : String) :
    d.next line =
      match Statement.decode line with
      | .error e => d.failed line (.decode e) d.machine
      | .ok .empty => d.passed
      | .ok statement =>
        match d.machine.applied statement with
        | .error f => d.failed line (.fault f) d.machine.clearTouched
        | .ok m => d.shown line statement m := by
  unfold next
  rw [if_neg (by rw [h]; decide), Machine.run_step]
  cases Statement.decode line with
  | error e => rfl
  | ok statement =>
    cases statement with
    | empty => rfl
    | unsupported mnemonic => rfl
    | instruction i =>
      dsimp only
      cases d.machine.applied (.instruction i) <;> rfl

/-- What ties a drive to a run between two lines: nothing has failed, the lines are counted alike,
and the machines differ in what was touched at most. -/
structure Tracks (d : Drive) (m : Machine) (counter : LineCounter) : Prop where
  failure : d.trace.failure = none
  machine : d.machine.clearTouched = m.clearTouched
  count : d.count = counter.count

theorem extend_trace_shown (d : Drive) (line : String) (statement : Statement) (m : Machine)
    (rest : Trace) :
    (d.shown line statement m).trace.extend rest =
      d.trace.extend (.cons (d.count + 1)
        ⟨m.snapshot (Text.trim line), .ofStatement statement⟩ rest) := by
  cases statement <;>
    simp [Trace.extend, shown, Trace.cons, Machine.Outcome.ofStatement, Machine.Outcome.notices]

/-- One line with a number: it ends the drive and the run alike, or the drive keeps track of what is
left of the run. -/
theorem Tracks.next {d : Drive} {m : Machine} {counter numbered : LineCounter}
    (h : d.Tracks m counter) (hnext : counter.next? = some numbered) (line : String) :
    (∃ e m', d.next line = d.failed line e m' ∧
      ∀ rest, Trace.follow m counter (line :: rest) =
        .stopped ⟨d.count + 1, Text.trim line, e.atLine (d.count + 1)⟩) ∨
    ∃ m', (d.next line).Tracks m' numbered ∧
      ∀ rest, d.trace.extend (Trace.follow m counter (line :: rest)) =
        (d.next line).trace.extend (Trace.follow m' numbered rest) := by
  have hcount : d.count + 1 = numbered.count := by
    rw [(LineCounter.next?_eq_some hnext).2, h.count]
  simp only [Trace.follow_cons_of_some hnext, next_eq h.failure, ← hcount]
  cases Statement.decode line with
  | error e => exact .inl ⟨.decode e, d.machine, rfl, fun _ => rfl⟩
  | ok statement =>
    have happlied := Machine.applied_congr h.machine statement
    cases statement with
    | empty => exact .inr ⟨m, ⟨h.failure, h.machine, hcount⟩, fun _ => rfl⟩
    | unsupported mnemonic =>
      simp only [happlied]
      exact .inr ⟨m.clearTouched.fade, ⟨h.failure, rfl, hcount⟩,
        fun _ => (extend_trace_shown ..).symm⟩
    | instruction i =>
      simp only [happlied]
      cases m.applied (.instruction i) with
      | error f => exact .inl ⟨.fault f, d.machine.clearTouched, rfl, fun _ => rfl⟩
      | ok m' => exact .inr ⟨m'.fade, ⟨h.failure, rfl, hcount⟩,
          fun _ => (extend_trace_shown ..).symm⟩

/-- A run adds to a drive what the drive makes of the lines that have a number, and ends at the
first line that has none. -/
theorem Tracks.trace_follow {d : Drive} {m : Machine} {counter : LineCounter}
    (h : d.Tracks m counter) (lines : List String) :
    d.trace.extend (Trace.follow m counter lines) =
      ((lines.take (LineCounter.highest - counter.count)).foldl Drive.next d).trace.endedAt
        lines[LineCounter.highest - counter.count]? := by
  induction lines generalizing d m counter with
  | nil =>
    obtain ⟨machine, count, states, notices, failure⟩ := d
    have hfailure : failure = none := h.failure
    simp [Trace.extend, Trace.follow, Trace.done, hfailure]
  | cons line lines ih =>
    cases hnext : counter.next? with
    | none =>
      rw [Trace.follow_cons_of_none hnext, LineCounter.next?_eq_none hnext]
      simp [Trace.extend, Trace.stopped, Trace.endedAt, h.failure]
    | some numbered =>
      rw [LineCounter.left_eq_succ hnext, List.take_succ_cons, List.getElem?_cons_succ,
        List.foldl_cons]
      rcases h.next hnext line with ⟨e, m', hfailed, hstop⟩ | ⟨m', htracks, hgoes⟩
      · have hfailure := failure_failed d line e m'
        rw [hfailed, hstop, foldl_next_of_failed hfailure, Trace.endedAt_of_failed hfailure]
        simp [failed, Trace.extend, Trace.stopped]
      · rw [hgoes, ih htracks]

theorem trace_through (m : Machine) (source : String) :
    let lines := (Text.lines source.toList).map String.ofList
    Trace.run m source =
      (through m (lines.take LineCounter.highest)).trace.endedAt lines[LineCounter.highest]? := by
  have htracks : (start m).Tracks m {} := ⟨rfl, rfl, rfl⟩
  exact htracks.trace_follow _

/-- Either the machine refuses the line or fails at it, or one state is recorded if the line is not
blank, and none if it is. -/
theorem next_cases {d : Drive} (h : d.trace.failure = none) (line : String) :
    (∃ e m, (Machine.step line).run d.machine = .error e m) ∨
    ((d.next line).trace.failure = none ∧ (d.next line).count = d.count + 1 ∧
      (d.next line).trace.states.length = d.trace.states.length +
        if line.toList.any (!Text.isBlank ·) then 1 else 0) := by
  have hblank : Statement.decode line = .ok .empty ↔
      ¬ line.toList.any (!Text.isBlank ·) = true := by
    rw [Statement.decode_eq_ok_empty_iff]
    simp
  rw [next_eq h, Machine.run_step]
  cases hdecode : Statement.decode line with
  | error e => exact .inl ⟨_, _, rfl⟩
  | ok statement =>
    rw [hdecode] at hblank
    cases statement with
    | empty =>
      rw [if_neg (hblank.mp rfl)]
      exact .inr ⟨h, rfl, rfl⟩
    | unsupported mnemonic =>
      have hany : line.toList.any (!Text.isBlank ·) = true := by simpa using hblank
      rw [if_pos hany]
      exact .inr ⟨h, rfl, List.length_append⟩
    | instruction i =>
      have hany : line.toList.any (!Text.isBlank ·) = true := by simpa using hblank
      rw [if_pos hany]
      dsimp only
      cases d.machine.applied (.instruction i) with
      | error f => exact .inl ⟨_, _, rfl⟩
      | ok m => exact .inr ⟨h, rfl, List.length_append⟩

/-- How far the lines are read: up to the end, or up to the first line that fails. -/
theorem foldl_next_cases {d : Drive} (h : d.trace.failure = none) (lines : List String) :
    ∃ before rest, lines = before ++ rest ∧ (before.foldl next d).trace.failure = none ∧
      (lines.foldl next d).trace.states.length = d.trace.states.length +
        before.countP (fun line => line.toList.any (!Text.isBlank ·)) ∧
      (rest = [] ∧ (lines.foldl next d).trace.failure = none ∨
        ∃ line rest' e m, rest = line :: rest' ∧
          (Machine.step line).run (before.foldl next d).machine = .error e m ∧
          (lines.foldl next d).trace.failure = some ⟨d.count + before.length + 1,
            Text.trim line, e.atLine (d.count + before.length + 1)⟩) := by
  induction lines generalizing d with
  | nil => exact ⟨[], [], rfl, h, rfl, .inl ⟨rfl, h⟩⟩
  | cons line lines ih =>
    rcases next_cases h line with ⟨e, m, hstep⟩ | ⟨hfailure, hcount, hstates⟩
    · have hstop : (line :: lines).foldl next d = d.failed line e m := by
        rw [List.foldl_cons, next_of_error h hstep]
        exact foldl_next_of_failed (failure_failed d line e m) lines
      rw [hstop]
      exact ⟨[], line :: lines, rfl, h, rfl, .inr ⟨line, lines, e, m, rfl, hstep, rfl⟩⟩
    · obtain ⟨before, rest, hsplit, hbefore, hlength, hend⟩ := ih hfailure
      refine ⟨line :: before, rest, by rw [hsplit, List.cons_append], hbefore, ?_, ?_⟩
      · rw [List.foldl_cons, hlength, hstates, List.countP_cons]
        omega
      · rw [hcount] at hend
        rw [List.foldl_cons, List.foldl_cons, List.length_cons]
        have hnumber : d.count + (before.length + 1) + 1 = d.count + 1 + before.length + 1 := by
          omega
        rw [hnumber]
        exact hend

theorem failure_ne_none_of_step {d : Drive} {before : List String} {line : String}
    {e : Machine.StepError} {m : Machine}
    (h : (Machine.step line).run (before.foldl next d).machine = .error e m)
    (rest : List String) :
    ((before ++ line :: rest).foldl next d).trace.failure ≠ none := by
  rw [List.foldl_append, List.foldl_cons]
  generalize before.foldl next d = d' at h
  by_cases hd : d'.trace.failure = none
  · have hfailed := failure_failed d' line e m
    rw [next_of_error hd h, foldl_next_of_failed hfailed]
    exact hfailed
  · rwa [next_of_failed hd, foldl_next_of_failed hd]

end Drive

/-- A run comes to the trace of the drive through the lines that have a number, and then ends at the
line behind them if there is one. So if all lines have a number, the run comes to the trace of the
drive. It has one state before the first line and one for each line that is not blank, up to the
first line that fails, and its failure is that line. -/
theorem Session.run_eq_drive (s : Session) (source : String) :
    let lines := (Text.lines source.toList).map String.ofList
    s.run source = (Drive.through s.machine (lines.take LineCounter.highest)).trace.endedAt
      lines[LineCounter.highest]? ∧
    (lines.length ≤ LineCounter.highest →
      s.run source = (Drive.through s.machine lines).trace ∧
      (∃ before rest, lines = before ++ rest ∧
        (Drive.through s.machine before).trace.failure = none ∧
        (s.run source).states.length =
          1 + before.countP (fun line => line.toList.any (!Text.isBlank ·)) ∧
        (rest = [] ∧ (s.run source).failure = none ∨
          ∃ line rest' e m, rest = line :: rest' ∧
            (Machine.step line).run (Drive.through s.machine before).machine = .error e m ∧
            (s.run source).failure =
              some ⟨before.length + 1, Text.trim line, e.atLine (before.length + 1)⟩)) ∧
      ((s.run source).failure = none ↔ ∀ before line rest e m, lines = before ++ line :: rest →
        (Machine.step line).run (Drive.through s.machine before).machine ≠ .error e m)) := by
  intro lines
  have hnumbered : s.run source = _ := Drive.trace_through s.machine source
  refine ⟨hnumbered, fun hfew => ?_⟩
  have hrun : s.run source = (Drive.through s.machine lines).trace := by
    rw [hnumbered, List.take_of_length_le hfew, List.getElem?_eq_none hfew, Trace.endedAt_none]
  obtain ⟨before, rest, hsplit, hbefore, hlength, hend⟩ :=
    Drive.foldl_next_cases (rfl : (Drive.start s.machine).trace.failure = none) lines
  have hnumber : (Drive.start s.machine).count + before.length + 1 = before.length + 1 := by
    rw [show (Drive.start s.machine).count = 0 from rfl, Nat.zero_add]
  rw [hnumber] at hend
  rw [hrun]
  refine ⟨rfl, ⟨before, rest, hsplit, hbefore, hlength, hend⟩, fun hnone => ?_, fun hnever => ?_⟩
  · intro before line rest e m hsplit hstep
    have hfailure := Drive.failure_ne_none_of_step hstep rest
    rw [← hsplit] at hfailure
    exact hfailure hnone
  · rcases hend with ⟨-, hnone⟩ | ⟨line, rest', e, m, rfl, hstep, -⟩
    · exact hnone
    · exact absurd hstep (hnever before line rest' e m hsplit)

/-- A blank line, a line that is passed over and a load above the stack in the fourth line. -/
theorem Session.run_of_five_lines :
    let source := "mov x0, #1\n\nfoo x0\nldrb w0, [sp, #99] \nmov x1, #2"
    let lines := (Text.lines source.toList).map String.ofList
    lines.length ≤ LineCounter.highest ∧
    ∃ s, Session.start .standard = .ok s ∧ s.run source = (Drive.through s.machine lines).trace ∧
      (s.run source).states.map Snapshot.instruction = ["init", "mov x0, #1", "foo x0"] ∧
      (s.run source).notices = [⟨3, "foo"⟩] ∧
      (s.run source).failure = some ⟨4, "ldrb w0, [sp, #99]", .fault (.outOfBounds 219)⟩ := by
  intro source lines
  have hfew : lines.length ≤ LineCounter.highest := by decide +kernel
  have hrun : (Session.start .standard).map (fun s =>
      ((s.run source).states.map Snapshot.instruction, (s.run source).notices,
        (s.run source).failure)) = .ok (["init", "mov x0, #1", "foo x0"], [⟨3, "foo"⟩],
          some ⟨4, "ldrb w0, [sp, #99]", .fault (.outOfBounds 219)⟩) := by
    decide +kernel
  obtain ⟨s, hs, hrun⟩ := map_eq_ok_iff.mp hrun
  obtain ⟨hstates, hrest⟩ := Prod.mk.inj hrun
  obtain ⟨hnotices, hfailure⟩ := Prod.mk.inj hrest
  exact ⟨hfew, s, hs, ((run_eq_drive s source).2 hfew).1, hstates, hnotices, hfailure⟩

namespace Drive

/-- Blank lines leave no trace. -/
theorem trace_foldl_next_replicate {d : Drive} (h : d.trace.failure = none) (n : Nat) :
    ((List.replicate n "").foldl next d).trace = d.trace := by
  induction n generalizing d with
  | zero => rfl
  | succ n ih =>
    have hblank : d.next "" = d.passed := next_eq h ""
    rw [List.replicate_succ, List.foldl_cons, hblank]
    exact ih h

end Drive

/-- More line feeds than there are numbers: no line fails, and still the run does. -/
theorem Session.run_feeds (s : Session) {n : Nat} (hn : LineCounter.highest < n) :
    let source := String.ofList (List.replicate n '\n')
    let lines := (Text.lines source.toList).map String.ofList
    lines = List.replicate n "" ∧
    (Drive.through s.machine lines).trace.failure = none ∧
    (∀ before line rest e m, lines = before ++ line :: rest →
      (Machine.step line).run (Drive.through s.machine before).machine ≠ .error e m) ∧
    (s.run source).failure = some (.unnumbered "") := by
  intro source lines
  have hlines : lines = List.replicate n "" := by
    show (Text.lines source.toList).map String.ofList = _
    rw [String.toList_ofList, Text.lines_replicate_feed, List.map_replicate]
  have hdrive : ∀ k, (Drive.through s.machine (List.replicate k "")).trace =
      (Drive.start s.machine).trace := Drive.trace_foldl_next_replicate rfl
  have hnone : (Drive.through s.machine lines).trace.failure = none := by
    rw [hlines, hdrive]
    rfl
  refine ⟨hlines, hnone, ?_, ?_⟩
  · intro before line rest e m hsplit hstep
    have hfailure := Drive.failure_ne_none_of_step hstep rest
    rw [← hsplit] at hfailure
    exact hfailure hnone
  · have hrun : s.run source =
        (Drive.through s.machine (lines.take LineCounter.highest)).trace.endedAt
          lines[LineCounter.highest]? := Drive.trace_through s.machine source
    rw [hrun, hlines, List.take_replicate, hdrive, List.getElem?_replicate, if_pos hn]
    rfl

/-- Four gibibytes of line feeds. A drive through them ends without a failure. -/
theorem Session.run_of_one_line_too_many :
    ∃ s source, Session.start .standard = .ok s ∧
      source = String.ofList (List.replicate 4294967296 '\n') ∧
      let lines := (Text.lines source.toList).map String.ofList
      (Drive.through s.machine lines).trace.failure = none ∧
      (∀ before line rest e m, lines = before ++ line :: rest →
        (Machine.step line).run (Drive.through s.machine before).machine ≠ .error e m) ∧
      (s.run source).failure = some ⟨4294967295, "", .decode ⟨none, .lineNumberOverflow⟩⟩ ∧
      s.run source ≠ (Drive.through s.machine lines).trace := by
  obtain ⟨s, hs⟩ : ∃ s, Session.start .standard = .ok s := ⟨_, rfl⟩
  have hmany : LineCounter.highest < 4294967296 := by decide
  have hend : Failure.unnumbered "" =
      ⟨4294967295, "", .decode ⟨none, .lineNumberOverflow⟩⟩ := by decide
  obtain ⟨-, hnone, hnever, hfailure⟩ := run_feeds s hmany
  rw [hend] at hfailure
  refine ⟨s, _, hs, rfl, hnone, hnever, hfailure, fun hsame => ?_⟩
  rw [hsame, hnone] at hfailure
  exact Option.some_ne_none _ hfailure.symm

end StackSteps
