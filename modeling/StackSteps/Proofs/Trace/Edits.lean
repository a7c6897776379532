import StackSteps.Proofs.Trace.Passages

/-!
# Editing a listing

A run reads a listing from the top and never goes back. What it records of the first lines it
records whatever stands behind them (`Trace.follow_append`), and of a line it sees only what is
between the blanks at its ends (`Trace.follow_map_trim`). The line that ended a run is the one at
the position of its failure (`Trace.text_of_run`). Listings that begin alike therefore have traces
that begin alike, and they have the same trace if the run ends in the part where they are alike
(`Session.run_of_same_start`).
-/
namespace StackSteps

/-- The first lines of a listing, without the blanks at their ends. -/
def Text.firstLines (k : Nat) (source : String) : List String :=
  (((Text.lines source.toList).map String.ofList).map Text.trim).take k

/-- The number of the line that ended a run. A line without a number of its own is reported with
that of the line before it. -/
def Failure.position (f : Failure) : Nat :=
  if f.error = .decode ⟨none, .lineNumberOverflow⟩ then f.line + 1 else f.line

theorem Failure.line_le_position (f : Failure) : f.line ≤ f.position := by
  unfold position
  split
  · exact Nat.le_succ _
  · exact Nat.le_refl _

namespace Trace

/-- A line ends the run, or it is blank and passed over, or it adds a step. What the lines behind it
say plays no part in this. -/
theorem follow_cons_cases (m : Machine) (counter : LineCounter) (line : String) :
    (∃ f : Failure, f.position = counter.count + 1 ∧ f.text = Text.trim line ∧
      ∀ rest, follow m counter (line :: rest) = stopped f) ∨
    ∃ next : LineCounter, next.count = counter.count + 1 ∧
      ((Text.isShown line = false ∧
        ∀ rest, follow m counter (line :: rest) = follow m next rest) ∨
      (Text.isShown line = true ∧ ∃ step m', ∀ rest,
        follow m counter (line :: rest) = cons next.count step (follow m' next rest))) := by
  cases hnext : counter.next? with
  | none =>
    have hposition : (Failure.unnumbered line).position = LineCounter.highest + 1 := if_pos rfl
    rw [← LineCounter.next?_eq_none hnext] at hposition
    exact .inl ⟨.unnumbered line, hposition, rfl, fun _ => follow_cons_of_none hnext ..⟩
  | some next =>
    obtain ⟨-, hcount⟩ := LineCounter.next?_eq_some hnext
    have hblank : Statement.decode line = .ok .empty ↔ Text.isShown line = false := by
      rw [Statement.decode_eq_ok_empty_iff]
      simp [Text.isShown]
    rw [← hcount]
    simp only [follow_cons_of_some hnext]
    cases hdecode : Statement.decode line with
    | error e => exact .inl ⟨_, by simp [Failure.position], rfl, fun _ => rfl⟩
    | ok statement =>
      rw [hdecode, Except.ok.injEq] at hblank
      by_cases hempty : statement = .empty
      · subst hempty
        exact .inr ⟨next, rfl, .inl ⟨hblank.mp rfl, fun _ => rfl⟩⟩
      · have hshown : Text.isShown line = true := by
          simpa [hempty] using hblank
        cases happlied : m.applied statement with
        | error f =>
          exact .inl ⟨⟨next.count, Text.trim line, .fault f⟩, by simp [Failure.position], rfl,
            fun _ => by simp [happlied]⟩
        | ok m' =>
          let step : Machine.Step := ⟨m'.snapshot (Text.trim line), .ofStatement statement⟩
          exact .inr ⟨next, rfl, .inr ⟨hshown, step, m'.fade, fun _ => by simp [happlied, step]⟩⟩

/-- The line at the position of a failure is the one that the failure shows. -/
theorem text_at_position (m : Machine) (counter : LineCounter) (lines : List String) {f : Failure}
    (h : (follow m counter lines).failure = some f) :
    ∃ i, f.position = counter.count + 1 + i ∧ lines[i]?.map Text.trim = some f.text := by
  induction lines generalizing m counter with
  | nil => exact absurd h.symm (Option.some_ne_none f)
  | cons line lines ih =>
    rcases follow_cons_cases m counter line with ⟨g, hposition, htext, hstop⟩ |
      ⟨next, hcount, ⟨-, hpass⟩ | ⟨-, step, m', hstep⟩⟩
    · rw [hstop] at h
      obtain rfl : g = f := Option.some.inj h
      exact ⟨0, hposition, congrArg some htext.symm⟩
    · rw [hpass] at h
      obtain ⟨i, hi, htext⟩ := ih m next h
      exact ⟨i + 1, by omega, htext⟩
    · rw [hstep] at h
      obtain ⟨i, hi, htext⟩ := ih m' next h
      exact ⟨i + 1, by omega, htext⟩

theorem extend_cons (line : Nat) (step : Machine.Step) (t rest : Trace) :
    (cons line step t).extend rest = cons line step (t.extend rest) := by
  obtain ⟨state, outcome⟩ := step
  cases outcome <;> rfl

/-- The first lines end the run by themselves, or the run goes on behind them from a machine that
they decide. -/
theorem follow_append (m : Machine) (counter : LineCounter) (before : List String) :
    (∃ f, (follow m counter before).failure = some f ∧
      f.position ≤ counter.count + before.length ∧
      ∀ rest, follow m counter (before ++ rest) = follow m counter before) ∨
    ((follow m counter before).states.length = before.countP Text.isShown ∧
      ∃ (m' : Machine) (next : LineCounter), next.count = counter.count + before.length ∧
        ∀ rest, follow m counter (before ++ rest) =
          (follow m counter before).extend (follow m' next rest)) := by
  induction before generalizing m counter with
  | nil => exact .inr ⟨rfl, m, counter, rfl, fun _ => rfl⟩
  | cons line before ih =>
    have hlength : counter.count + (before.length + 1) = counter.count + 1 + before.length := by
      omega
    simp only [List.cons_append, List.length_cons, hlength]
    rcases follow_cons_cases m counter line with ⟨f, hposition, -, hstop⟩ |
      ⟨next, hcount, ⟨hshown, hpass⟩ | ⟨hshown, step, m', hstep⟩⟩
    · refine .inl ⟨f, by rw [hstop]; rfl, ?_, fun rest => by rw [hstop, hstop]⟩
      rw [hposition]
      exact Nat.le_add_right _ _
    · rw [List.countP_cons_of_neg (by rw [hshown]; decide), ← hcount]
      simp only [hpass]
      exact ih m next
    · rw [List.countP_cons_of_pos hshown, ← hcount]
      simp only [hstep, extend_cons]
      rcases ih m' next with ⟨f, hfailure, hposition, hsame⟩ | ⟨hstates, m'', last, hlast, hgoes⟩
      · exact .inl ⟨f, hfailure, hposition, fun rest => by rw [hsame]⟩
      · exact .inr ⟨congrArg (· + 1) hstates, m'', last, hlast, fun rest => by rw [hgoes]⟩

/-- What a trace records concerns lines behind the one of a number. -/
structure Behind (number : Nat) (t : Trace) : Prop where
  notices : ∀ n ∈ t.notices, number < n.line
  failure : ∀ f, t.failure = some f → number < f.position

theorem behind_done (number : Nat) : done.Behind number :=
  ⟨fun _ h => absurd h List.not_mem_nil, fun _ h => absurd h.symm (Option.some_ne_none _)⟩

theorem Behind.mono {number number' : Nat} {t : Trace} (h : t.Behind number)
    (hle : number' ≤ number) : t.Behind number' :=
  ⟨fun n hn => hle.trans_lt (h.notices n hn), fun f hf => hle.trans_lt (h.failure f hf)⟩

theorem Behind.cons {number line : Nat} {rest : Trace} (h : rest.Behind number)
    (hline : number < line) (step : Machine.Step) : (cons line step rest).Behind number := by
  refine ⟨fun n hn => ?_, h.failure⟩
  obtain ⟨state, outcome⟩ := step
  cases outcome with
  | executed => exact h.notices n hn
  | empty => exact h.notices n hn
  | unsupported mnemonic =>
    rcases List.mem_cons.mp hn with rfl | hn
    · exact hline
    · exact h.notices n hn

theorem behind_follow (m : Machine) (counter : LineCounter) (lines : List String) :
    (follow m counter lines).Behind counter.count := by
  induction lines generalizing m counter with
  | nil => exact behind_done _
  | cons line lines ih =>
    rcases follow_cons_cases m counter line with ⟨f, hposition, -, hstop⟩ |
      ⟨next, hcount, ⟨-, hpass⟩ | ⟨-, step, m', hstep⟩⟩
    · rw [hstop]
      refine ⟨fun _ hn => absurd hn List.not_mem_nil, fun g hg => ?_⟩
      cases hg
      omega
    · rw [hpass]
      exact (ih m next).mono (by omega)
    · rw [hstep]
      exact ((ih m' next).mono (by omega)).cons (by omega) step

/-- Behind the first lines, if there are as many, the numbers are higher. -/
theorem behind_follow_drop (m : Machine) {counter : LineCounter} (lines : List String) {k : Nat}
    (hcount : counter.count = (lines.take k).length) :
    (follow m counter (lines.drop k)).Behind k := by
  by_cases hk : k ≤ lines.length
  · rw [List.length_take_of_le hk] at hcount
    rw [← hcount]
    exact behind_follow m counter _
  · rw [List.drop_of_length_le (by omega)]
    exact behind_done k

/-- Blanks at the ends of lines do not count. -/
theorem follow_map_trim (m : Machine) (counter : LineCounter) (lines : List String) :
    follow m counter (lines.map Text.trim) = follow m counter lines := by
  induction lines generalizing m counter with
  | nil => rfl
  | cons line lines ih =>
    cases hnext : counter.next? with
    | none =>
      rw [List.map_cons, follow_cons_of_none hnext, follow_cons_of_none hnext, Failure.unnumbered,
        Text.trim_trim]
      rfl
    | some next =>
      simp only [List.map_cons, follow_cons_of_some hnext, Statement.decode_trim, Text.trim_trim,
        ih]

/-- The course of a run of lines behind the snapshot of the machine at the start. -/
def startedAt (m : Machine) (t : Trace) : Trace :=
  { t with states := m.snapshot "init" :: t.states }

/-- The first lines of a listing end its run, or what is recorded of them is continued with what is
recorded of later lines. -/
theorem run_firstLines (m : Machine) (k : Nat) (first : List String) :
    let t := follow m {} first
    (∃ f, t.failure = some f ∧ f.position ≤ first.length ∧
      ∀ source, Text.firstLines k source = first → run m source = t.startedAt m) ∨
    (t.states.length = first.countP Text.isShown ∧
      ∀ source, Text.firstLines k source = first →
        ∃ rest, rest.Behind k ∧ run m source = (t.extend rest).startedAt m) := by
  intro t
  have hrun : ∀ source, Text.firstLines k source = first → ∃ lines : List String,
      first = lines.take k ∧ run m source = (follow m {} (first ++ lines.drop k)).startedAt m := by
    rintro source rfl
    refine ⟨((Text.lines source.toList).map String.ofList).map Text.trim, rfl, ?_⟩
    rw [Text.firstLines, List.take_append_drop, follow_map_trim]
    rfl
  rcases follow_append m {} first with ⟨f, hfailure, hposition, hsame⟩ |
    ⟨hlength, m', counter, hcount, hgoes⟩
  · refine .inl ⟨f, hfailure, by simpa using hposition, fun source hsource => ?_⟩
    obtain ⟨lines, -, hlines⟩ := hrun source hsource
    rw [hlines, hsame]
  · refine .inr ⟨hlength, fun source hsource => ?_⟩
    obtain ⟨lines, rfl, hlines⟩ := hrun source hsource
    rw [Nat.zero_add] at hcount
    refine ⟨_, behind_follow_drop m' lines hcount, ?_⟩
    rw [hlines, hgoes]

theorem text_of_run (m : Machine) (source : String) (f : Failure)
    (h : (run m source).failure = some f) : ∃ i, f.position = i + 1 ∧
      ((Text.lines source.toList).map String.ofList)[i]?.map Text.trim = some f.text := by
  obtain ⟨i, hi, htext⟩ := text_at_position m {} _ h
  exact ⟨i, by simpa [Nat.add_comm] using hi, htext⟩

theorem take_states_startedAt_extend {m : Machine} {t : Trace} {n : Nat} (h : t.states.length = n)
    (rest : Trace) :
    1 + n ≤ ((t.extend rest).startedAt m).states.length ∧
      ((t.extend rest).startedAt m).states.take (1 + n) = (t.startedAt m).states := by
  subst h
  have hstates : ((t.extend rest).startedAt m).states = (t.startedAt m).states ++ rest.states := rfl
  have hlength : (t.startedAt m).states.length = 1 + t.states.length := Nat.add_comm ..
  rw [hstates, ← hlength, List.take_left, List.length_append]
  exact ⟨Nat.le_add_right _ _, rfl⟩

/-- Behind a number there is no notice up to it. -/
theorem Behind.filter_notices {k : Nat} {rest : Trace} (h : rest.Behind k) (m : Machine)
    (t : Trace) : ((t.extend rest).startedAt m).notices.filter (·.line ≤ k) =
      t.notices.filter (·.line ≤ k) := by
  have hnone : rest.notices.filter (·.line ≤ k) = [] := by
    rw [List.filter_eq_nil_iff]
    intro n hn
    simpa using h.notices n hn
  have hnotices : ((t.extend rest).startedAt m).notices = t.notices ++ rest.notices := rfl
  rw [hnotices, List.filter_append, hnone, List.append_nil]

end Trace

/-- Two listings whose first `k` lines are the same but for blanks at their ends. If the run of one
fails at none of these lines, then neither does that of the other, and both have the same states up
to the last of these lines and the same notices of them. If it fails at one of them, both runs have
the same trace. The line that a run fails at is the one at the position of its failure. -/
theorem Session.run_of_same_start (s : Session) {source source' : String} {k : Nat}
    (h : Text.firstLines k source = Text.firstLines k source') :
    let n := (Text.firstLines k source).countP Text.isShown
    let t := s.run source
    let t' := s.run source'
    ((∀ f, t.failure = some f → k < f.position) →
      (∀ f, t'.failure = some f → k < f.position) ∧
      1 + n ≤ t.states.length ∧ 1 + n ≤ t'.states.length ∧
      t.states.take (1 + n) = t'.states.take (1 + n) ∧
      t.notices.filter (·.line ≤ k) = t'.notices.filter (·.line ≤ k)) ∧
    (∀ f, t.failure = some f → f.position ≤ k → t = t') ∧
    (∀ f, t.failure = some f → ∃ i, f.position = i + 1 ∧
      ((Text.lines source.toList).map String.ofList)[i]?.map Text.trim = some f.text) := by
  intro n t t'
  have htext := Trace.text_of_run s.machine source
  rcases Trace.run_firstLines s.machine k (Text.firstLines k source) with
    ⟨f, hfailure, hposition, hrun⟩ | ⟨hlength, hrun⟩
  · have ht : t = _ := hrun source rfl
    have ht' : t' = _ := hrun source' h.symm
    have hk : f.position ≤ k := hposition.trans (List.length_take_le _ _)
    refine ⟨fun hnone => ?_, fun _ _ _ => ht.trans ht'.symm, htext⟩
    have hlt : k < f.position := hnone f (by rw [ht]; exact hfailure)
    omega
  · obtain ⟨rest, hrest, ht⟩ : ∃ rest, _ ∧ t = _ := hrun source rfl
    obtain ⟨rest', hrest', ht'⟩ : ∃ rest', _ ∧ t' = _ := hrun source' h.symm
    refine and_assoc.mp ⟨?_, htext⟩
    rw [ht, ht']
    obtain ⟨hle, hstates⟩ := Trace.take_states_startedAt_extend (m := s.machine) hlength rest
    obtain ⟨hle', hstates'⟩ := Trace.take_states_startedAt_extend (m := s.machine) hlength rest'
    refine ⟨fun _ => ⟨hrest'.failure, hle, hle', hstates.trans hstates'.symm, ?_⟩,
      fun f hf hk => ?_⟩
    · rw [hrest.filter_notices, hrest'.filter_notices]
    · have hlt : k < f.position := hrest.failure f hf
      omega

/-- A load above the stack in the fourth line leaves what was recorded of the three lines before it,
and another fourth line does not show there either. -/
theorem Session.run_of_same_three_lines :
    let source := "mov x0, sp\n\nfoo\nldrb w1, [x0, #8]"
    let source' := "\tmov x0, sp \n \nfoo\r\nstrb w0, [sp]\nnop"
    Text.firstLines 3 source = Text.firstLines 3 source' ∧
    ∃ s, Session.start .standard = .ok s ∧
      (s.run source).failure.map Failure.line = some 4 ∧ (s.run source').failure = none ∧
      (s.run source).states.take 3 = (s.run source').states.take 3 := by
  intro source source'
  have hsame : Text.firstLines 3 source = Text.firstLines 3 source' := by
    decide +kernel
  have hrun : (Session.start .standard).map (fun s =>
      ((s.run source).failure.map Failure.line, (s.run source').failure)) =
        .ok (some 4, none) := by
    decide +kernel
  obtain ⟨s, hs, hrun⟩ := map_eq_ok_iff.mp hrun
  obtain ⟨hfour, hnone⟩ := Prod.mk.inj hrun
  have hlater : ∀ f, (s.run source).failure = some f → 3 < f.position := by
    intro f hf
    have hline : f.line = 4 := by simpa [hf] using hfour
    exact Nat.lt_of_lt_of_le (by omega) f.line_le_position
  have htwo : (Text.firstLines 3 source).countP Text.isShown = 2 := by
    decide +kernel
  obtain ⟨-, -, -, hstates, -⟩ := (run_of_same_start s hsame).1 hlater
  rw [htwo] at hstates
  exact ⟨hsame, s, hs, hfour, hnone, hstates⟩

end StackSteps
