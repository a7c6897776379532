import StackSteps.Proofs.Trace.Driving

/-!
# Spacing does not count

A run shows the text of a line and otherwise sees nothing of it but its words. Listings whose lines
have the same words one by one therefore have traces that differ in the texts shown, if at all
(`Session.run_of_same_words`).
-/
namespace StackSteps

/-- Line by line the same words, with any blanks between and around them. -/
def Text.SameWords (source source' : String) : Prop :=
  (lines source.toList).map words = (lines source'.toList).map words

def Snapshot.withoutText (s : Snapshot) : Snapshot :=
  { s with instruction := "" }

def Failure.withoutText (f : Failure) : Failure :=
  { f with text := "" }

namespace Trace

/-- A trace without the texts of the lines that it shows or stops at. -/
def withoutTexts (t : Trace) : Trace where
  states := t.states.map Snapshot.withoutText
  notices := t.notices
  failure := t.failure.map Failure.withoutText

theorem run_eq_cons (m : Machine) (source : String) :
    run m source = cons 0 ⟨m.snapshot "init", .executed⟩
      (follow m {} ((Text.lines source.toList).map String.ofList)) := rfl

theorem withoutTexts_cons (line : Nat) (step : Machine.Step) (rest : Trace) :
    (cons line step rest).withoutTexts =
      cons line { step with state := step.state.withoutText } rest.withoutTexts := by
  obtain ⟨state, outcome⟩ := step
  cases outcome <;> rfl

/-- But for the texts shown, lines count only as the lists of their words. -/
theorem withoutTexts_follow_congr {lines lines' : List String}
    (h : List.Forall₂ (fun l l' => Text.words l.toList = Text.words l'.toList) lines lines')
    (m : Machine) (counter : LineCounter) :
    (follow m counter lines).withoutTexts = (follow m counter lines').withoutTexts := by
  induction h generalizing m counter with
  | nil => rfl
  | @cons line line' lines lines' hwords _ ih =>
    cases hnext : counter.next? with
    | none =>
      rw [follow_cons_of_none hnext, follow_cons_of_none hnext]
      rfl
    | some next =>
      rw [follow_cons_of_some hnext, follow_cons_of_some hnext, Statement.decode_congr hwords]
      cases Statement.decode line' with
      | error e => rfl
      | ok statement =>
        by_cases hempty : statement = .empty
        · subst hempty
          exact ih m _
        · cases happlied : m.applied statement with
          | error f =>
            simp only [happlied]
            rfl
          | ok m' =>
            simp only [happlied, withoutTexts_cons, ih m'.fade]
            rfl

end Trace

/-- Two listings with the same words on each line have the same trace up to the texts of the lines:
the states agree in all but their instruction texts, the notices are the same, and both runs stop at
the same line for the same reason or not at all. -/
theorem Session.run_of_same_words (s : Session) {source source' : String}
    (h : Text.SameWords source source') :
    (s.run source).withoutTexts = (s.run source').withoutTexts := by
  have hlines : List.Forall₂ (fun l l' => Text.words l.toList = Text.words l'.toList)
      ((Text.lines source.toList).map String.ofList)
      ((Text.lines source'.toList).map String.ofList) := by
    have hsame : List.Forall₂ Eq ((Text.lines source.toList).map Text.words)
        ((Text.lines source'.toList).map Text.words) := by
      rw [List.forall₂_eq_eq_eq]
      exact h
    simp only [List.forall₂_map_left_iff, List.forall₂_map_right_iff] at hsame
    simpa only [List.forall₂_map_left_iff, List.forall₂_map_right_iff, String.toList_ofList]
      using hsame
  have hfollow := Trace.withoutTexts_follow_congr hlines s.machine {}
  rw [run, run, Trace.run_eq_cons, Trace.run_eq_cons, Trace.withoutTexts_cons,
    Trace.withoutTexts_cons, hfollow]

/-- Tabs, a carriage return and spaces of other widths are told by the texts alone, here of the
states and of the last line, which is refused for its second operand. -/
theorem Session.run_of_wide_spaces :
    let source := "mov x0, sp\nfoo bar\n\nadd x0, y1, x2"
    let source' := "\tmov x0,\u2003sp\r\nfoo\u3000bar \n \n add\tx0,  y1, x2\r"
    Text.SameWords source source' ∧
    ∃ s, Session.start .standard = .ok s ∧
      (s.run source).withoutTexts = (s.run source').withoutTexts ∧
      (s.run source).failure = some ⟨4, "add x0, y1, x2",
        .decode ⟨some 4, .unknownRegister ⟨"y1"⟩⟩⟩ ∧
      (s.run source').failure = some ⟨4, "add\tx0,  y1, x2",
        .decode ⟨some 4, .unknownRegister ⟨"y1"⟩⟩⟩ := by
  intro source source'
  have hsame : Text.SameWords source source' := by
    unfold Text.SameWords
    decide +kernel
  have hrun : (Session.start .standard).map (fun s => ((s.run source).failure,
      (s.run source').failure)) = .ok (some ⟨4, "add x0, y1, x2",
        .decode ⟨some 4, .unknownRegister ⟨"y1"⟩⟩⟩, some ⟨4, "add\tx0,  y1, x2",
        .decode ⟨some 4, .unknownRegister ⟨"y1"⟩⟩⟩) := by
    decide +kernel
  obtain ⟨s, hs, hrun⟩ := map_eq_ok_iff.mp hrun
  obtain ⟨hfailure, hfailure'⟩ := Prod.mk.inj hrun
  exact ⟨hsame, s, hs, run_of_same_words s hsame, hfailure, hfailure'⟩

end StackSteps
