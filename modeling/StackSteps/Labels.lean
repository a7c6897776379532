import StackSteps.Data.Sparse
import StackSteps.Register.Table

/-!
# Labels on slots and registers

A label is a text that stays visible for a number of steps. Every slot and every register carries a
list of labels, in which no text occurs twice: setting a text that is there already renews its count
in place. Main statements: `Label.count?_refresh` and `Label.count?_fade` (what the two operations
do to the count of a text), `Label.texts_refresh` and `Label.texts_fade` (what they do to the
texts), `Label.Distinct.refresh` and `Label.Distinct.fade` (no text comes to occur twice) and one
equation for each operation of the store.
-/

namespace StackSteps

/-- A text, and for how many more steps it is shown. -/
structure Label where
  text : String
  count : Nat
deriving DecidableEq

namespace Label

/-- The list in which a text has a count: the count is renewed in place if the text is there
already, and else the label comes last. -/
def refresh (text : String) (count : Nat) : List Label → List Label
  | [] => [⟨text, count⟩]
  | label :: rest =>
    if label.text = text then ⟨text, count⟩ :: rest else label :: refresh text count rest

/-- The labels a step later: those shown for the last time are gone. -/
def fade (labels : List Label) : List Label :=
  (labels.filter (1 < ·.count)).map fun label => { label with count := label.count - 1 }

def count? (text : String) (labels : List Label) : Option Nat :=
  (labels.find? (·.text = text)).map (·.count)

@[simp] theorem count?_refresh (text other : String) (count : Nat) (labels : List Label) :
    count? other (refresh text count labels) =
      if text = other then some count else count? other labels := by
  induction labels with
  | nil => by_cases h : text = other <;> simp [refresh, count?, h]
  | cons label rest ih =>
    simp only [count?] at ih ⊢
    rw [refresh]
    split
    · rename_i hl
      by_cases h : text = other
      · simp [h]
      · have : label.text ≠ other := hl ▸ h
        simp [h, this]
    · rename_i hl
      by_cases h : label.text = other
      · have : text ≠ other := fun e => hl (h.trans e.symm)
        simp [h, this]
      · simp [h, ih]

def Distinct (labels : List Label) : Prop :=
  (labels.map (·.text)).Nodup

/-- A text that is there keeps its place, and another one comes last. -/
theorem texts_refresh (text : String) (count : Nat) (labels : List Label) :
    (refresh text count labels).map (·.text) =
      if text ∈ labels.map (·.text) then labels.map (·.text)
      else labels.map (·.text) ++ [text] := by
  induction labels with
  | nil => rfl
  | cons label rest ih =>
    rw [refresh]
    by_cases h : label.text = text
    · simp [h]
    · rw [if_neg h, List.map_cons, ih]
      by_cases hrest : text ∈ rest.map (·.text)
      · rw [if_pos hrest, List.map_cons, if_pos (List.mem_cons_of_mem _ hrest)]
      · have hnot : text ∉ (label :: rest).map (·.text) := by
          rw [List.map_cons, List.mem_cons, not_or]
          exact ⟨Ne.symm h, hrest⟩
        rw [if_neg hrest, if_neg hnot, List.map_cons, List.cons_append]

theorem Distinct.refresh {labels : List Label} (h : Distinct labels) (text : String) (count : Nat) :
    Distinct (refresh text count labels) := by
  rw [Distinct, texts_refresh]
  split
  · exact h
  · rename_i hnot
    refine List.nodup_append.mpr ⟨h, List.pairwise_singleton _ _, fun t ht u hu heq => ?_⟩
    exact hnot (List.mem_singleton.mp hu ▸ heq ▸ ht)

theorem texts_fade (labels : List Label) :
    ((fade labels).map (·.text)).Sublist (labels.map (·.text)) := by
  rw [fade, List.map_map]
  exact List.filter_sublist.map _

theorem Distinct.fade {labels : List Label} (h : Distinct labels) : Distinct (fade labels) :=
  h.sublist (texts_fade labels)

theorem count?_eq_none {text : String} {labels : List Label} (h : text ∉ labels.map (·.text)) :
    count? text labels = none := by
  simp only [count?, Option.map_eq_none_iff, List.find?_eq_none, decide_eq_true_eq]
  exact fun label hm he => h (he ▸ List.mem_map_of_mem hm)

/-- A step takes one from a count, and a count that was one or none is gone. -/
theorem count?_fade {labels : List Label} (h : Distinct labels) (text : String) :
    count? text (fade labels) = ((count? text labels).filter (1 < ·)).map (· - 1) := by
  induction labels with
  | nil => rfl
  | cons label rest ih =>
    obtain ⟨hl, hr⟩ := List.nodup_cons.mp h
    by_cases hc : 1 < label.count
    · have hf : fade (label :: rest) = { label with count := label.count - 1 } :: fade rest := by
        simp [fade, hc]
      by_cases ht : label.text = text
      · simp [hf, count?, ht, hc, Option.filter]
      · have := ih hr
        simp only [count?] at this
        simp [hf, count?, ht, this]
    · have hf : fade (label :: rest) = fade rest := by
        simp [fade, hc]
      by_cases ht : label.text = text
      · subst ht
        rw [hf, count?_eq_none fun hm => hl ((texts_fade rest).subset hm)]
        simp [count?, hc, Option.filter]
      · have := ih hr
        simp only [count?] at this
        simp [hf, count?, ht, this]

end Label

/-- The labels of a number of slots and of all registers. -/
structure Labels where
  slots : List (List Label)
  registers : Table (List Label)
deriving DecidableEq

namespace Labels

def start (size : Nat) : Labels :=
  ⟨List.replicate size [], Table.replicate []⟩

/-- Sets a text on a slot. A slot that is not there is ignored. -/
def addSlot (ls : Labels) (i : Nat) (text : String) (count : Nat) : Labels :=
  { ls with slots := ls.slots.modify i (Label.refresh text count) }

/-- Leaves one label on a slot. A slot that is not there is ignored. -/
def replaceSlot (ls : Labels) (i : Nat) (label : Label) : Labels :=
  { ls with slots := ls.slots.set i [label] }

def addRegister (ls : Labels) (r : Register) (text : String) (count : Nat) : Labels :=
  { ls with registers := ls.registers.set r (Label.refresh text count (ls.registers.get r)) }

def slot (ls : Labels) (i : Nat) : List Label :=
  ls.slots[i]?.getD []

def register (ls : Labels) (r : Register) : List Label :=
  ls.registers.get r

def fade (ls : Labels) : Labels :=
  ⟨ls.slots.map Label.fade, ls.registers.map Label.fade⟩

/-- The slots that carry labels. -/
def slotEntries (ls : Labels) : Sparse (List Label) :=
  Sparse.filled ls.slots

/-- The registers that carry labels. -/
def registerEntries (ls : Labels) : Table (Option (List Label)) :=
  ls.registers.map fun labels => if labels = [] then none else some labels

@[simp] theorem register_addRegister (ls : Labels) (r s : Register) (text : String) (count : Nat) :
    (ls.addRegister r text count).register s =
      if r = s then Label.refresh text count (ls.register s) else ls.register s := by
  by_cases h : r = s <;> simp [addRegister, register, h]

@[simp] theorem slot_addRegister (ls : Labels) (r : Register) (text : String) (count i : Nat) :
    (ls.addRegister r text count).slot i = ls.slot i := rfl

@[simp] theorem register_addSlot (ls : Labels) (i : Nat) (text : String) (count : Nat)
    (r : Register) : (ls.addSlot i text count).register r = ls.register r := rfl

@[simp] theorem register_replaceSlot (ls : Labels) (i : Nat) (label : Label) (r : Register) :
    (ls.replaceSlot i label).register r = ls.register r := rfl

theorem slot_addSlot (ls : Labels) {i : Nat} (hi : i < ls.slots.length) (j : Nat) (text : String)
    (count : Nat) :
    (ls.addSlot i text count).slot j =
      if i = j then Label.refresh text count (ls.slot j) else ls.slot j := by
  simp only [addSlot, slot, List.getElem?_modify]
  by_cases h : i = j
  · subst h; simp [hi]
  · simp [h]

theorem slot_replaceSlot (ls : Labels) {i : Nat} (hi : i < ls.slots.length) (j : Nat)
    (label : Label) :
    (ls.replaceSlot i label).slot j = if i = j then [label] else ls.slot j := by
  simp only [replaceSlot, slot, List.getElem?_set]
  by_cases h : i = j
  · subst h; simp [hi]
  · simp [h]

@[simp] theorem register_fade (ls : Labels) (r : Register) :
    ls.fade.register r = Label.fade (ls.register r) := by
  simp [fade, register]

@[simp] theorem slot_fade (ls : Labels) (i : Nat) : ls.fade.slot i = Label.fade (ls.slot i) := by
  simp only [fade, slot, List.getElem?_map]
  cases ls.slots[i]? <;> simp [Label.fade]

end Labels

end StackSteps
