import StackSteps.Proofs.Labels.Changes

/-!
# The store of labels by its history

A call changes the list of a slot or of a register in one of few ways (`Call.changeOn`), whatever
the lists hold, and so each list is the one that the changes make of the empty list
(`on_afterCalls`). What the store holds, in which order it holds it and which lists it shows follow
from the calls alone (`store_of_history`).
-/
namespace StackSteps.Labels

/-- What carries labels. -/
inductive Carrier where
  | slot (i : Nat)
  | register (r : Register)
deriving DecidableEq

/-- Whether a store for so many slots has a list for the carrier. -/
def Carrier.Within (size : Nat) : Carrier → Prop
  | slot i => i < size
  | register _ => True

/-- The labels of a carrier. -/
def on (ls : Labels) : Carrier → List Label
  | .slot i => ls.slot i
  | .register r => ls.register r

inductive Call where
  | addSlot (i : Nat) (text : String) (count : Nat)
  | replaceSlot (i : Nat) (label : Label)
  | addRegister (r : Register) (text : String) (count : Nat)
  | fade

def afterCall (ls : Labels) : Call → Labels
  | .addSlot i text count => ls.addSlot i text count
  | .replaceSlot i label => ls.replaceSlot i label
  | .addRegister r text count => ls.addRegister r text count
  | .fade => ls.fade

def afterCalls (ls : Labels) (calls : List Call) : Labels :=
  calls.foldl afterCall ls

/-- What a call does to the list of a carrier. -/
def Call.changeOn (c : Carrier) : Call → Label.Change
  | addSlot i text count => if c = .slot i then .refresh ⟨text, count⟩ else .keep
  | replaceSlot i label => if c = .slot i then .replace label else .keep
  | addRegister r text count => if c = .register r then .refresh ⟨text, count⟩ else .keep
  | fade => .fade

/-- What calls have done to the list of a carrier. -/
def historyOf (c : Carrier) (calls : List Call) : List Label.Change :=
  calls.map (·.changeOn c)

section afterCalls

variable {ls : Labels} {c : Carrier}

theorem afterCalls_concat (ls : Labels) (calls : List Call) (call : Call) :
    ls.afterCalls (calls ++ [call]) = (ls.afterCalls calls).afterCall call := by
  simp [afterCalls]

@[simp] theorem length_slots_afterCall (ls : Labels) (call : Call) :
    (ls.afterCall call).slots.length = ls.slots.length := by
  cases call <;> simp [afterCall]

theorem length_slots_afterCalls (size : Nat) (calls : List Call) :
    ((start size).afterCalls calls).slots.length = size := by
  induction calls using List.reverseRecOn with
  | nil => exact List.length_replicate
  | append_singleton calls call ih => rw [afterCalls_concat, length_slots_afterCall, ih]

theorem on_addSlot (hc : c.Within ls.slots.length) (i : Nat) (text : String) (count : Nat) :
    (ls.addSlot i text count).on c =
      if c = .slot i then Label.refresh text count (ls.on c) else ls.on c := by
  cases c with
  | slot k =>
    by_cases hi : i < ls.slots.length
    · simp [on, slot_addSlot ls hi, eq_comm]
    · have hne : k ≠ i := fun h => hi (h ▸ hc)
      rw [addSlot_of_le ls (Nat.not_lt.mp hi), if_neg (by simpa using hne)]
  | register r => rfl

theorem on_replaceSlot (hc : c.Within ls.slots.length) (i : Nat) (label : Label) :
    (ls.replaceSlot i label).on c = if c = .slot i then [label] else ls.on c := by
  cases c with
  | slot k =>
    by_cases hi : i < ls.slots.length
    · simp [on, slot_replaceSlot ls hi, eq_comm]
    · have hne : k ≠ i := fun h => hi (h ▸ hc)
      rw [replaceSlot_of_le ls (Nat.not_lt.mp hi), if_neg (by simpa using hne)]
  | register r => rfl

theorem on_addRegister (r : Register) (text : String) (count : Nat) :
    (ls.addRegister r text count).on c =
      if c = .register r then Label.refresh text count (ls.on c) else ls.on c := by
  cases c with
  | slot k => rfl
  | register s => simp [on, eq_comm]

theorem on_fade : ls.fade.on c = Label.fade (ls.on c) := by
  cases c with
  | slot k => exact ls.slot_fade k
  | register r => exact ls.register_fade r

/-- A call changes each list that there is by itself alone. -/
theorem on_afterCall (hc : c.Within ls.slots.length) (call : Call) :
    (ls.afterCall call).on c = (call.changeOn c).apply (ls.on c) := by
  cases call with
  | addSlot i text count =>
    rw [afterCall, on_addSlot hc, Call.changeOn]
    split <;> rfl
  | replaceSlot i label =>
    rw [afterCall, on_replaceSlot hc, Call.changeOn]
    split <;> rfl
  | addRegister r text count =>
    rw [afterCall, on_addRegister, Call.changeOn]
    split <;> rfl
  | fade => exact on_fade

theorem on_afterCalls {size : Nat} (hc : c.Within size) (calls : List Call) :
    ((start size).afterCalls calls).on c = Label.listAfter (historyOf c calls) := by
  induction calls using List.reverseRecOn with
  | nil =>
    cases c with
    | slot i => exact slot_start size i
    | register r => exact register_start size r
  | append_singleton calls call ih =>
    have hwithin : c.Within ((start size).afterCalls calls).slots.length := by
      rwa [length_slots_afterCalls]
    rw [afterCalls_concat, on_afterCall hwithin, ih, historyOf, historyOf, List.map_append,
      List.map_singleton, Label.listAfter_concat]

end afterCalls

section entries

/-- The registers that carry labels, in display order, each with its labels. -/
def registerList (ls : Labels) : List (Register × List Label) :=
  ls.registerEntries.toList.filterMap fun (r, labels) => labels.map (r, ·)

theorem pairwise_registerList (ls : Labels) :
    ls.registerList.Pairwise fun a b => a.1.index < b.1.index := by
  have hall : Register.all.Pairwise fun r s => r.index < s.index := by
    rw [Register.all, List.pairwise_map]
    simpa using List.pairwise_lt_finRange 33
  rw [registerList, List.pairwise_filterMap, Table.toList, List.pairwise_map]
  refine hall.imp fun hlt a ha b hb => ?_
  obtain ⟨labels, -, rfl⟩ := Option.map_eq_some_iff.mp ha
  obtain ⟨others, -, rfl⟩ := Option.map_eq_some_iff.mp hb
  exact hlt

theorem mem_registerList_iff {ls : Labels} {r : Register} {labels : List Label} :
    (r, labels) ∈ ls.registerList ↔ ls.register r = labels ∧ labels ≠ [] := by
  rw [← get_registerEntries_eq_some_iff, registerList, List.mem_filterMap]
  constructor
  · rintro ⟨⟨s, value⟩, hmem, hvalue⟩
    obtain ⟨labels', hlabels, heq⟩ := Option.map_eq_some_iff.mp hvalue
    obtain ⟨t, -, hcell⟩ := List.mem_map.mp hmem
    cases hcell
    cases heq
    exact hlabels
  · intro h
    refine ⟨(r, some labels), List.mem_map.mpr ⟨r, Register.mem_all r, ?_⟩, rfl⟩
    rw [h]

end entries

/-- After any calls, the list of a slot below the end and of a register holds no text twice. It
holds a text with a count if and only if the last call that set the text there has left it as much
after the fades since and no replacement came after it. The texts stand in the order in which they
have come to stay. Calls on slots past the end change nothing, and the entries are the lists that
are not empty, in ascending order. -/
theorem store_of_history (size : Nat) (calls : List Call) :
    let ls := (start size).afterCalls calls
    (∀ c : Carrier, c.Within size →
      ((ls.on c).map (·.text)).Nodup ∧
      (∀ text count, ⟨text, count⟩ ∈ ls.on c ↔ Label.Lasts (historyOf c calls) text count) ∧
      ((ls.on c).map (·.text)).Pairwise (Label.CameBefore (historyOf c calls))) ∧
    (∀ i, size ≤ i → ∀ text count label,
      ls.addSlot i text count = ls ∧ ls.replaceSlot i label = ls) ∧
    (ls.slotEntries.entries.Pairwise fun a b => a.1 < b.1) ∧
    (∀ i labels, (i, labels) ∈ ls.slotEntries.entries ↔
      i < size ∧ ls.slot i = labels ∧ labels ≠ []) ∧
    (ls.registerList.Pairwise fun a b => a.1.index < b.1.index) ∧
    (∀ r labels, (r, labels) ∈ ls.registerList ↔ ls.register r = labels ∧ labels ≠ []) := by
  intro ls
  have hlength : ls.slots.length = size := length_slots_afterCalls size calls
  refine ⟨fun c hc => ?_, fun i hi text count label => ?_, ls.slotEntries.ascending,
    fun i labels => ?_, ls.pairwise_registerList, fun r labels => mem_registerList_iff⟩
  · rw [on_afterCalls hc]
    exact ⟨Label.distinct_listAfter _, fun _ _ => Label.mem_listAfter_iff,
      Label.texts_listAfter_pairwise _⟩
  · rw [← hlength] at hi
    exact ⟨ls.addSlot_of_le hi text count, ls.replaceSlot_of_le hi label⟩
  · rw [Sparse.mem_entries_iff, get?_slotEntries_eq_some_iff]
    constructor
    · rintro ⟨rfl, hne⟩
      exact ⟨hlength ▸ ls.lt_length_of_slot_ne_nil hne, rfl, hne⟩
    · exact And.right

/-- A text that has faded and is set again comes after one that has been renewed meanwhile. -/
theorem faded_text_comes_last :
    let c := Carrier.slot 0
    let calls : List Call :=
      [.addSlot 0 "a" 1, .addSlot 0 "b" 3, .fade, .addSlot 0 "a" 2, .addSlot 0 "b" 5]
    c.Within 2 ∧ ((start 2).afterCalls calls).on c = [⟨"b", 5⟩, ⟨"a", 2⟩] ∧
      Label.Lasts (historyOf c calls) "a" 2 ∧ ¬ Label.Lasts (historyOf c calls) "b" 3 ∧
      Label.CameBefore (historyOf c calls) "b" "a" := by
  intro c calls
  have hwithin : c.Within 2 := Nat.zero_lt_two
  have hlist : ((start 2).afterCalls calls).on c = [⟨"b", 5⟩, ⟨"a", 2⟩] := by decide
  obtain ⟨-, hlasts, horder⟩ := (store_of_history 2 calls).1 c hwithin
  rw [hlist] at hlasts horder
  refine ⟨hwithin, hlist, (hlasts "a" 2).mp (by simp), fun h => ?_, by simpa using horder⟩
  simpa using (hlasts "b" 3).mpr h

end StackSteps.Labels
