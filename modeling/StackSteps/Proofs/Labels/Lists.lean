import Mathlib
import StackSteps.Labels

/-!
# Lists of labels

In a list without repeated texts, a text has the count that it is found with (`mem_iff_count?_eq`),
and fading takes one off it (`count?_fade_eq_some_iff`). The operations of the store keep the number
of slots, and past the end they do nothing. Its entries are the lists that are not empty
(`get?_slotEntries_eq_some_iff`, `get_registerEntries_eq_some_iff`).
-/
namespace StackSteps

namespace Label

theorem mem_refresh {text : String} {count : Nat} {labels : List Label} {label : Label}
    (h : label ∈ refresh text count labels) : label = ⟨text, count⟩ ∨ label ∈ labels := by
  induction labels with
  | nil => exact .inl (List.mem_singleton.mp h)
  | cons first rest ih =>
    rw [refresh] at h
    split at h
    · rcases List.mem_cons.mp h with heq | h
      · exact .inl heq
      · exact .inr (List.mem_cons_of_mem _ h)
    · rcases List.mem_cons.mp h with rfl | h
      · exact .inr List.mem_cons_self
      · exact (ih h).imp_right (List.mem_cons_of_mem _)

theorem mem_fade {labels : List Label} {label : Label} (h : label ∈ fade labels) :
    ∃ before ∈ labels, label.count ≤ before.count := by
  obtain ⟨before, hbefore, rfl⟩ := List.mem_map.mp h
  exact ⟨before, List.mem_of_mem_filter hbefore, Nat.sub_le _ _⟩

theorem mem_iff_count?_eq {labels : List Label} (h : Distinct labels) {text : String}
    {count : Nat} : ⟨text, count⟩ ∈ labels ↔ count? text labels = some count := by
  induction labels with
  | nil => simp [count?]
  | cons label rest ih =>
    obtain ⟨hnot, hrest⟩ := List.nodup_cons.mp h
    have ih := ih hrest
    obtain ⟨other, n⟩ := label
    simp only [count?] at ih ⊢
    by_cases ht : other = text
    · subst ht
      have hmem : ⟨other, count⟩ ∉ rest := fun hm => hnot (List.mem_map.mpr ⟨_, hm, rfl⟩)
      simp [hmem, eq_comm]
    · simp [ht, Ne.symm ht, ih]

/-- Fading takes one off each count. -/
theorem count?_fade_eq_some_iff {labels : List Label} (h : Distinct labels) {text : String}
    {count : Nat} :
    count? text (fade labels) = some count ↔
      count? text labels = some (count + 1) ∧ 0 < count := by
  rw [count?_fade h]
  cases count? text labels with
  | none => simp
  | some n =>
    simp only [Option.filter, Option.map_eq_some_iff]
    split <;> simp_all <;> omega

end Label

namespace Labels

variable (ls : Labels)

@[simp] theorem length_slots_addSlot (i : Nat) (text : String) (count : Nat) :
    (ls.addSlot i text count).slots.length = ls.slots.length := by
  simp [addSlot]

@[simp] theorem length_slots_replaceSlot (i : Nat) (label : Label) :
    (ls.replaceSlot i label).slots.length = ls.slots.length := by
  simp [replaceSlot]

@[simp] theorem length_slots_addRegister (r : Register) (text : String) (count : Nat) :
    (ls.addRegister r text count).slots.length = ls.slots.length := rfl

@[simp] theorem length_slots_fade : ls.fade.slots.length = ls.slots.length := by
  simp [fade]

theorem slot_of_le {k : Nat} (h : ls.slots.length ≤ k) : ls.slot k = [] := by
  rw [slot, List.getElem?_eq_none h]
  rfl

theorem lt_length_of_slot_ne_nil {k : Nat} (h : ls.slot k ≠ []) : k < ls.slots.length := by
  by_contra hk
  exact h (ls.slot_of_le (Nat.not_lt.mp hk))

/-- A slot past the end has no list to set a text in. -/
theorem addSlot_of_le {i : Nat} (h : ls.slots.length ≤ i) (text : String) (count : Nat) :
    ls.addSlot i text count = ls := by
  simp [addSlot, List.modify_eq_self h]

/-- A slot past the end has no list to replace. -/
theorem replaceSlot_of_le {i : Nat} (h : ls.slots.length ≤ i) (label : Label) :
    ls.replaceSlot i label = ls := by
  simp [replaceSlot, List.set_eq_of_length_le h]

section keeps

variable {ls : Labels} {P : List Label → Prop} {k : Nat}

theorem slot_addSlot_keeps {text : String} {count : Nat}
    (hrefresh : ∀ labels, P labels → P (Label.refresh text count labels)) (h : P (ls.slot k))
    (i : Nat) : P ((ls.addSlot i text count).slot k) := by
  by_cases hi : i < ls.slots.length
  · rw [slot_addSlot ls hi]
    split
    · exact hrefresh _ h
    · exact h
  · rwa [addSlot_of_le ls (Nat.not_lt.mp hi)]

theorem slot_replaceSlot_keeps {label : Label} (hnew : P [label]) (h : P (ls.slot k)) (i : Nat) :
    P ((ls.replaceSlot i label).slot k) := by
  by_cases hi : i < ls.slots.length
  · rw [slot_replaceSlot ls hi]
    split
    · exact hnew
    · exact h
  · rwa [replaceSlot_of_le ls (Nat.not_lt.mp hi)]

end keeps

@[simp] theorem slot_start (size k : Nat) : (start size).slot k = [] := by
  simp only [start, slot, List.getElem?_replicate]
  split <;> rfl

@[simp] theorem register_start (size : Nat) (r : Register) : (start size).register r = [] := by
  simp [start, register]

theorem get?_slotEntries_eq_some_iff {ls : Labels} {k : Nat} {labels : List Label} :
    ls.slotEntries.get? k = some labels ↔ ls.slot k = labels ∧ labels ≠ [] := by
  rw [slotEntries, Sparse.get?_filled, Option.filter_eq_some_iff, decide_eq_true_iff, slot]
  cases ls.slots[k]? with
  | none => simp [eq_comm]
  | some own => simp

theorem get_registerEntries_eq_some_iff {ls : Labels} {r : Register} {labels : List Label} :
    ls.registerEntries.get r = some labels ↔ ls.register r = labels ∧ labels ≠ [] := by
  simp only [registerEntries, Table.get_map, register]
  split
  · rename_i hnil
    simp [hnil, eq_comm]
  · rename_i hne
    simp only [Option.some.injEq]
    exact ⟨fun h => ⟨h, h ▸ hne⟩, And.left⟩

end Labels

end StackSteps
