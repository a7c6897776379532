import StackSteps.Proofs.Labels.Lists
import StackSteps.Proofs.Machine.Calls

/-!
# What an instruction labels

An instruction sets at most one text on one register (`Instruction.registerLabel?`), to be shown
for the machine's lifetime of labels, and on each slot at most one text
(`Instruction.slotLabel?`), to be shown once. The labels after it are those (`register_performed`,
`slot_performed`), and the lists stay sound: there is one for each slot, and no text occurs twice
(`kept_soundLabels`).
-/
namespace StackSteps

namespace Instruction

/-- The text that an instruction sets on a register. -/
def registerLabel? : Instruction → Option (Register × String)
  | add dst .. => some (dst.register, "add " ++ dst.name)
  | sub dst .. => some (dst.register, "sub " ++ dst.name)
  | mov dst src => some (dst.register, "mov " ++ src.text)
  | ldrb dst address => some (dst.register, "ldrb " ++ address.place)
  | strb .. | stp .. => none

/-- The text that an instruction sets on a slot. A copy of a pointer names the slot that the pointer
points to, if there is one, and the others name the slots that they read or write. -/
def slotLabel? (slots : Nat) (read : View → Word) (target : Address → Int) (k : Nat) :
    Instruction → Option String
  | add .. | sub .. | mov _ (.immediate _) => none
  | mov dst (.register v) =>
    if v.register.isPointer ∧ k = (read v).toNat / 8 ∧ k < slots then some dst.name else none
  | strb src address =>
    if k = (target address).toNat / 8 then some (src.name ++ "[0:8]") else none
  | ldrb dst address =>
    if k = (target address).toNat / 8 then
      some ("ldrb " ++ dst.name ++ "[" ++ Text.decimal ((target address).toNat % 8) ++ "]")
    else none
  | stp first second address =>
    if k = (target address).toNat / 8 then some ("stp " ++ first.name)
    else if k = (target address).toNat / 8 + 1 then some ("stp " ++ second.name)
    else none

end Instruction

namespace Statement

/-- The text that a line sets on a register. -/
def registerLabel? : Statement → Option (Register × String)
  | empty | unsupported _ => none
  | instruction i => i.registerLabel?

/-- The text that a line sets on a slot. -/
def slotLabel? (slots : Nat) (read : View → Word) (target : Address → Int) (k : Nat) :
    Statement → Option String
  | empty | unsupported _ => none
  | instruction i => i.slotLabel? slots read target k

end Statement

namespace Machine

variable {m : Machine} {i : Instruction}

theorem labels_moved_register (m : Machine) (dst v : View) :
    (m.moved dst (.register v)).labels =
      if v.register.isPointer then
        (m.labels.addRegister dst.register ("mov " ++ v.name) m.lifetime).replaceSlot
          ((m.bank.read v).toNat / 8) ⟨dst.name, 1⟩
      else m.labels.addRegister dst.register ("mov " ++ v.name) m.lifetime := by
  unfold moved
  dsimp only
  split <;> rfl

theorem register_performed (m : Machine) (i : Instruction) (r : Register) :
    (m.performed i).labels.register r =
      match i.registerLabel? with
      | none => m.labels.register r
      | some (s, text) =>
        if s = r then Label.refresh text m.lifetime (m.labels.register r)
        else m.labels.register r := by
  cases i with
  | add dst lhs rhs => exact Labels.register_addRegister ..
  | sub dst lhs rhs => exact Labels.register_addRegister ..
  | mov dst src =>
    cases src with
    | immediate imm => exact Labels.register_addRegister ..
    | register v =>
      rw [performed, labels_moved_register]
      split <;> exact Labels.register_addRegister ..
  | strb src address => rfl
  | ldrb dst address => exact Labels.register_addRegister ..
  | stp first second address =>
    rw [performed, labels_pairStored]
    rfl

/-- A label that comes onto a list without labels is the only one. -/
theorem slot_addSlot_of_nil {ls : Labels} {n : Nat} (hn : n < ls.slots.length) {k : Nat}
    (hk : ls.slot k = []) (text : String) (count : Nat) :
    (ls.addSlot n text count).slot k = if k = n then [⟨text, count⟩] else [] := by
  rw [Labels.slot_addSlot ls hn, hk]
  simp only [eq_comm, Label.refresh]

/-- If no slot had labels before, the slots carry those of the instruction and no others. -/
theorem slot_performed (hlength : m.labels.slots.length = m.stack.size)
    (hnil : ∀ k, m.labels.slot k = []) (h : i.fault? m.stack.size m.target = none) (k : Nat) :
    (m.performed i).labels.slot k =
      ((i.slotLabel? m.stack.size m.bank.read m.target k).map (Label.mk · 1)).toList := by
  cases i with
  | add dst lhs rhs => exact hnil k
  | sub dst lhs rhs => exact hnil k
  | mov dst src =>
    cases src with
    | immediate imm => exact hnil k
    | register v =>
      rw [performed, labels_moved_register, Instruction.slotLabel?]
      by_cases hv : v.register.isPointer = true
      · rw [if_pos hv]
        by_cases hn : (m.bank.read v).toNat / 8 < m.stack.size
        · rw [Labels.slot_replaceSlot _ (by simpa [hlength] using hn), Labels.slot_addRegister,
            hnil]
          by_cases hk : k = (m.bank.read v).toNat / 8
          · simp [hv, hk, hn]
          · simp [hk, Ne.symm hk]
        · rw [Labels.replaceSlot_of_le _ (by simpa [hlength] using hn), Labels.slot_addRegister,
            hnil, if_neg (by omega)]
          rfl
      · rw [if_neg hv, Labels.slot_addRegister, hnil]
        simp [hv]
  | strb src address =>
    obtain ⟨hlow, hhigh⟩ := Instruction.fault?_strb_eq_none_iff.mp h
    have hn : (m.target address).toNat / 8 < m.labels.slots.length := by omega
    have hslot := slot_addSlot_of_nil hn (hnil k) (src.name ++ "[0:8]") 1
    rw [Instruction.slotLabel?]
    refine hslot.trans ?_
    split <;> rfl
  | ldrb dst address =>
    obtain ⟨hlow, hhigh⟩ := Instruction.fault?_ldrb_eq_none_iff.mp h
    have hn : (m.target address).toNat / 8 < m.labels.slots.length := by omega
    -- the label of the register goes first and leaves those of the slots alone
    have hkept : (m.labels.addRegister dst.register ("ldrb " ++ address.place)
        m.lifetime).slot k = [] := hnil k
    have hslot := slot_addSlot_of_nil hn hkept
      ("ldrb " ++ dst.name ++ "[" ++ Text.decimal ((m.target address).toNat % 8) ++ "]") 1
    rw [Instruction.slotLabel?]
    refine hslot.trans ?_
    split <;> rfl
  | stp first second address =>
    obtain ⟨hlow, hhigh⟩ := Instruction.fault?_stp_eq_none_iff.mp h
    have hn : (m.target address).toNat / 8 + 1 < m.labels.slots.length := by omega
    have hfirst := slot_addSlot_of_nil (Nat.lt_of_succ_lt hn) (hnil k) ("stp " ++ first.name) 1
    rw [performed, labels_pairStored, Place.slot_ofAddress_add_eight hlow, Place.slot_ofAddress,
      Labels.slot_addSlot _ (by simpa using hn), hfirst, Instruction.slotLabel?]
    -- the two slots differ, so the second label comes onto a list without labels too
    by_cases hk : k = (m.target address).toNat / 8
    · rw [if_neg (by omega), if_pos hk, if_pos hk]
      rfl
    · rw [if_neg hk, if_neg hk]
      by_cases hk' : k = (m.target address).toNat / 8 + 1
      · rw [if_pos hk'.symm, if_pos hk']
        rfl
      · rw [if_neg (Ne.symm hk'), if_neg hk']
        rfl

theorem count_of_mem_register_performed {r : Register} {label : Label}
    (h : label ∈ (m.performed i).labels.register r) :
    label.count = m.lifetime ∨ label ∈ m.labels.register r := by
  rw [register_performed] at h
  split at h
  · exact .inr h
  · split at h
    · rcases Label.mem_refresh h with rfl | h
      · exact .inl rfl
      · exact .inr h
    · exact .inr h

/-- What holds of the labels of a slot, and of every label alone that is shown once, outlasts an
instruction if it outlasts the setting of a text to be shown once. -/
theorem slot_performed_keeps {P : List Label → Prop} (hnew : ∀ text, P [⟨text, 1⟩])
    (hrefresh : ∀ text labels, P labels → P (Label.refresh text 1 labels)) {k : Nat}
    (h : P (m.labels.slot k)) (i : Instruction) : P ((m.performed i).labels.slot k) := by
  cases i with
  | add dst lhs rhs | sub dst lhs rhs => exact h
  | mov dst src =>
    cases src with
    | immediate imm => exact h
    | register v =>
      rw [performed, labels_moved_register]
      split
      · exact Labels.slot_replaceSlot_keeps (hnew _) h _
      · exact h
  | strb src address => exact Labels.slot_addSlot_keeps (hrefresh _) h _
  | ldrb dst address =>
    have hkept : P ((m.labels.addRegister dst.register ("ldrb " ++ address.place)
        m.lifetime).slot k) := h
    exact Labels.slot_addSlot_keeps (hrefresh _) hkept _
  | stp first second address =>
    rw [performed, labels_pairStored]
    exact Labels.slot_addSlot_keeps (hrefresh _) (Labels.slot_addSlot_keeps (hrefresh _) h _) _

theorem count_of_mem_slot_performed {k : Nat} {label : Label}
    (h : label ∈ (m.performed i).labels.slot k) : label.count = 1 ∨ label ∈ m.labels.slot k := by
  let P (labels : List Label) : Prop :=
    ∀ label ∈ labels, label.count = 1 ∨ label ∈ m.labels.slot k
  have hnew : ∀ text, P [⟨text, 1⟩] := by
    intro text label hlabel
    exact .inl (List.mem_singleton.mp hlabel ▸ rfl)
  have hrefresh : ∀ text labels, P labels → P (Label.refresh text 1 labels) := by
    intro text labels hlabels label hlabel
    rcases Label.mem_refresh hlabel with rfl | hlabel
    · exact .inl rfl
    · exact hlabels label hlabel
  have hold : P (m.labels.slot k) := fun label => Or.inr
  exact slot_performed_keeps hnew hrefresh hold i label h

/-- There is a list of labels for each slot, and no text occurs twice in the list of a register. -/
structure SoundLabels (m : Machine) : Prop where
  length : m.labels.slots.length = m.stack.size
  distinct : ∀ r, Label.Distinct (m.labels.register r)

theorem SoundLabels.performed (hm : m.SoundLabels) (i : Instruction) :
    (m.performed i).SoundLabels where
  length := by
    rw [size_performed, ← hm.length]
    cases i with
    | add dst lhs rhs => rfl
    | sub dst lhs rhs => rfl
    | mov dst src =>
      cases src with
      | immediate imm => rfl
      | register v =>
        rw [Machine.performed, labels_moved_register]
        split <;> simp
    | strb src address => exact Labels.length_slots_addSlot ..
    | ldrb dst address => exact Labels.length_slots_addSlot ..
    | stp first second address => simp [Machine.performed]
  distinct r := by
    rw [register_performed]
    split
    · exact hm.distinct r
    · split
      · exact (hm.distinct r).refresh _ _
      · exact hm.distinct r

theorem kept_soundLabels : Kept SoundLabels where
  seed _ _ h := ⟨h.length, h.distinct⟩
  withLifetime _ h := ⟨h.length, h.distinct⟩
  clearTouched h := ⟨h.length, h.distinct⟩
  fade {m} h := by
    refine ⟨(Labels.length_slots_fade m.labels).trans h.length, fun r => ?_⟩
    rw [Machine.fade, Labels.register_fade]
    exact (h.distinct r).fade
  performed _ h := h.performed _

theorem soundLabels_of_madeWith {slots : Nat} (h : MadeWith slots m) : m.SoundLabels where
  length := by
    rw [h.labels]
    exact List.length_replicate
  distinct r := by
    rw [h.labels, Labels.register_start]
    exact List.nodup_nil

theorem slotLabels_snapshot_eq_some_iff {text : String} {k : Nat} {labels : List Label} :
    (m.snapshot text).slotLabels.get? k = some labels ↔ m.labels.slot k = labels ∧ labels ≠ [] :=
  Labels.get?_slotEntries_eq_some_iff

theorem registerLabels_snapshot_eq_some_iff {text : String} {r : Register} {labels : List Label} :
    (m.snapshot text).registerLabels.get r = some labels ↔
      m.labels.register r = labels ∧ labels ≠ [] :=
  Labels.get_registerEntries_eq_some_iff

section applied

variable {m' : Machine} {statement : Statement}

theorem register_applied (h : m.applied statement = .ok m') (r : Register) :
    m'.labels.register r =
      match statement.registerLabel? with
      | none => m.labels.register r
      | some (s, text) =>
        if s = r then Label.refresh text m.lifetime (m.labels.register r)
        else m.labels.register r := by
  rcases applied_cases h with ⟨rfl, rfl⟩ | ⟨mnemonic, rfl, rfl⟩ | ⟨i, rfl, -, rfl⟩
  · rfl
  · rfl
  · exact register_performed m.clearTouched i r

theorem slot_applied (hlength : m.labels.slots.length = m.stack.size)
    (hnil : ∀ k, m.labels.slot k = []) (h : m.applied statement = .ok m') (k : Nat) :
    m'.labels.slot k =
      ((statement.slotLabel? m.stack.size m.bank.read m.target k).map (Label.mk · 1)).toList := by
  rcases applied_cases h with ⟨rfl, rfl⟩ | ⟨mnemonic, rfl, rfl⟩ | ⟨i, rfl, hnone, rfl⟩
  · exact hnil k
  · exact hnil k
  · exact slot_performed (m := m.clearTouched) hlength hnil hnone k

theorem lifetime_applied (h : m.applied statement = .ok m') : m'.lifetime = m.lifetime := by
  rcases applied_cases h with ⟨-, rfl⟩ | ⟨mnemonic, -, rfl⟩ | ⟨i, -, -, rfl⟩
  · rfl
  · rfl
  · exact lifetime_performed m.clearTouched i

end applied

end Machine

end StackSteps
