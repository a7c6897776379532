import StackSteps.Proofs.Machine.Labelling
import StackSteps.Proofs.Statement.RoundTrip

/-!
# Machines driven by lines

A line names no low half of a pointer, so a machine that is driven by lines alone marks none
either, and its marks and counts stay within the bits that a picture of the machine has for them
(`depictable_afterCalls`).
-/
namespace StackSteps

theorem View.Writable.isNamed {v : View} (h : v.Writable) : v.isNamed = true := by
  obtain ⟨r, width⟩ := v
  cases width with
  | x => rfl
  | w =>
    obtain ⟨number, hr⟩ := h rfl
    have hr : r = .general number := hr
    rw [hr]
    rfl

namespace Instruction

theorem writable_of_decode {i : Instruction} {line : String}
    (h : Statement.decode line = .ok (.instruction i)) : i.Writable := by
  have hspells := Statement.decode_eq_ok_iff.mp h
  generalize Text.words line.toList = ts at hspells
  cases hspells with
  | instruction _ hspelled => exact hspelled.writable

theorem Writable.written? {i : Instruction} (h : i.Writable) {v : View} (hv : i.written? = some v) :
    v.Writable := by
  cases i with
  | add dst lhs rhs | sub dst lhs rhs | mov dst src | ldrb dst address =>
    cases hv
    exact h.1
  | strb src address => contradiction
  | stp first second address =>
    have hbase : address.base = v := by
      simp only [Instruction.written?, Option.ite_none_right_eq_some, Option.some.injEq] at hv
      exact hv.2
    exact hbase ▸ h.2.2

end Instruction

namespace Machine

/-- Whether a call executes only what some line says. A lifetime of labels has thirty-two bits. -/
def Call.FromLines : Call → Prop
  | .execute i => ∃ line, Statement.decode line = .ok (.instruction i)
  | .apply statement _ => ∃ line, Statement.decode line = .ok statement
  | .withLifetime lifetime => lifetime < 4294967296
  | .step _ | .seed .. | .clearTouched | .fade => True

/-- What is marked has a name or a slot, and no label is shown for more steps than thirty-two bits
can tell. -/
structure Depictable (m : Machine) : Prop where
  views : ∀ v ∈ m.touchedViews, v.isNamed = true
  slots : ∀ i ∈ m.touchedSlots, i < m.stack.size
  lifetime : m.lifetime < 4294967296
  slotCounts : ∀ k, ∀ label ∈ m.labels.slot k, label.count < 4294967296
  registerCounts : ∀ r, ∀ label ∈ m.labels.register r, label.count < 4294967296

variable {m : Machine} {i : Instruction}

theorem isNamed_of_mem_touchedViews_performed (hi : i.Writable) {v : View}
    (h : v ∈ (m.performed i).touchedViews) : v.isNamed = true ∨ v ∈ m.touchedViews := by
  rcases mem_touchedViews_performed.mp h with ⟨u, hu, rfl | rfl⟩ | h
  · exact .inl (hi.written? hu).isNamed
  · exact .inl rfl
  · exact .inr h

namespace Depictable

theorem clearTouched (hm : m.Depictable) : m.clearTouched.Depictable where
  views v hv := absurd hv (OrderedSet.not_mem_empty v)
  slots i hi := absurd hi (OrderedSet.not_mem_empty i)
  lifetime := hm.lifetime
  slotCounts := hm.slotCounts
  registerCounts := hm.registerCounts

theorem fade (hm : m.Depictable) : m.fade.Depictable where
  views := hm.views
  slots := hm.slots
  lifetime := hm.lifetime
  slotCounts k label h := by
    rw [Machine.fade, Labels.slot_fade] at h
    obtain ⟨before, hbefore, hle⟩ := Label.mem_fade h
    exact Nat.lt_of_le_of_lt hle (hm.slotCounts k before hbefore)
  registerCounts r label h := by
    rw [Machine.fade, Labels.register_fade] at h
    obtain ⟨before, hbefore, hle⟩ := Label.mem_fade h
    exact Nat.lt_of_le_of_lt hle (hm.registerCounts r before hbefore)

theorem performed (hm : m.Depictable) (hi : i.Writable)
    (h : i.fault? m.stack.size m.target = none) : (m.performed i).Depictable where
  views v hv := by
    rcases isNamed_of_mem_touchedViews_performed hi hv with hv | hv
    · exact hv
    · exact hm.views v hv
  slots := lt_size_of_mem_touchedSlots_performed hm.slots h
  lifetime := by
    rw [lifetime_performed]
    exact hm.lifetime
  slotCounts k label hlabel := by
    rcases count_of_mem_slot_performed hlabel with hone | hlabel
    · omega
    · exact hm.slotCounts k label hlabel
  registerCounts r label hlabel := by
    rcases count_of_mem_register_performed hlabel with heq | hlabel
    · exact heq ▸ hm.lifetime
    · exact hm.registerCounts r label hlabel

theorem apply (hm : m.Depictable) {line : String} {statement : Statement}
    (h : Statement.decode line = .ok statement) (text : String) :
    (after (apply statement text) m).Depictable := by
  rcases after_apply m statement text with heq | ⟨i, rfl, hnone, heq⟩
  · rw [heq]
    exact hm.clearTouched
  · rw [heq]
    exact hm.clearTouched.performed (Instruction.writable_of_decode h) hnone

theorem afterCall (hm : m.Depictable) {c : Call} (hc : c.FromLines) :
    (m.afterCall c).Depictable := by
  cases c with
  | seed r v => exact ⟨hm.views, hm.slots, hm.lifetime, hm.slotCounts, hm.registerCounts⟩
  | withLifetime lifetime => exact ⟨hm.views, hm.slots, hc, hm.slotCounts, hm.registerCounts⟩
  | clearTouched => exact hm.clearTouched
  | fade => exact hm.fade
  | execute i =>
    obtain ⟨line, hline⟩ := hc
    rcases after_execute m i with heq | ⟨hnone, heq⟩
    · rwa [Machine.afterCall, heq]
    · rw [Machine.afterCall, heq]
      exact hm.performed (Instruction.writable_of_decode hline) hnone
  | apply statement text =>
    obtain ⟨line, hline⟩ := hc
    exact hm.apply hline text
  | step line =>
    rcases after_step m line with heq | ⟨statement, hline, heq⟩
    · rwa [Machine.afterCall, heq]
    · rw [Machine.afterCall, heq]
      exact hm.apply hline line

end Depictable

theorem depictable_of_madeWith {slots : Nat} (h : MadeWith slots m) : m.Depictable := by
  obtain ⟨stack, bank, -, rfl⟩ := h.eq
  exact {
    views := fun v hv => absurd hv (OrderedSet.not_mem_empty v)
    slots := fun i hi => absurd hi (OrderedSet.not_mem_empty i)
    lifetime := show Label.standardLifetime < 4294967296 by decide
    slotCounts := fun k label hlabel => by simp at hlabel
    registerCounts := fun r label hlabel => by simp at hlabel }

theorem depictable_afterCalls {slots : Nat} {m₀ : Machine} (h₀ : MadeWith slots m₀)
    {calls : List Call} (hcalls : ∀ c ∈ calls, c.FromLines) :
    (m₀.afterCalls calls).Depictable := by
  induction calls using List.reverseRecOn with
  | nil => exact depictable_of_madeWith h₀
  | append_singleton calls c ih =>
    rw [afterCalls_concat]
    have hc : c.FromLines := hcalls c (by simp)
    exact (ih fun c' hc' => hcalls c' (List.mem_append_left _ hc')).afterCall hc

end Machine

end StackSteps
