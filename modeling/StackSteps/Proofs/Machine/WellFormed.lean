import StackSteps.Proofs.Machine.Labelling

/-!
# Well-formed machines

What every picture of a reachable machine looks like: it has all slots and registers, lists of
labels that are not empty and have no text twice, and marks in display order, with the whole
register where a low half is marked (`Snapshot.WellFormed`). Part of this the types say. The rest is
an invariant of the machine (`Machine.WellFormed`), which every call keeps, also one that fails
(`Machine.kept_wellFormed`).
-/
namespace StackSteps

/-- Whether a view is shown before another: the views of a register before those of the next one,
and the whole register before its low half. -/
def View.Before (v u : View) : Prop :=
  v.register.index < u.register.index ∨ v.register = u.register ∧ v.width = .x ∧ u.width = .w

theorem View.before_of_rank_lt {v u : View} (h : v.rank < u.rank) : v.Before u := by
  obtain ⟨r, width⟩ := v
  obtain ⟨s, width'⟩ := u
  rcases Nat.lt_trichotomy r.index s.index with hlt | heq | hgt
  · exact .inl hlt
  · refine .inr ⟨Register.index_inj.mp (Fin.ext heq), ?_⟩
    cases width <;> cases width' <;> simp [rank, isAlias] at h ⊢ <;> omega
  · cases width <;> cases width' <;> simp [rank, isAlias] at h <;> omega

/-- What every picture of a machine with so many slots looks like. -/
structure Snapshot.WellFormed (slots : Nat) (s : Snapshot) : Prop where
  size : 1 ≤ slots ∧ slots ≤ 4096
  stack : s.stack.length = slots
  registers : ∀ r, ∃ v, s.registers.get r = some v
  slotLabels : ∀ k labels, s.slotLabels.get? k = some labels →
    k < slots ∧ labels ≠ [] ∧ (labels.map (·.text)).Nodup ∧ ∀ label ∈ labels, label.count = 1
  registerLabels : ∀ r labels, s.registerLabels.get r = some labels →
    labels ≠ [] ∧ (labels.map (·.text)).Nodup
  touchedSlots : s.touchedSlots.Pairwise (· < ·) ∧ ∀ k ∈ s.touchedSlots, k < slots
  touchedViews : s.touchedViews.Pairwise View.Before
  whole : ∀ r, View.low r ∈ s.touchedViews → View.whole r ∈ s.touchedViews

theorem Label.fade_eq_nil {labels : List Label} (h : ∀ label ∈ labels, label.count = 1) :
    fade labels = [] := by
  have hnone : labels.filter (1 < ·.count) = [] := by
    rw [List.filter_eq_nil_iff]
    intro label hlabel
    simp [h label hlabel]
  rw [fade, hnone, List.map_nil]

namespace Machine

/-- What the types of the parts of a machine leave open and every call keeps. Labels of slots are
those that are shown once. -/
structure WellFormed (m : Machine) : Prop extends SoundLabels m where
  slotDistinct : ∀ k, Label.Distinct (m.labels.slot k)
  slotCounts : ∀ k, ∀ label ∈ m.labels.slot k, label.count = 1
  touchedSlots : ∀ k ∈ m.touchedSlots, k < m.stack.size
  whole : ∀ v ∈ m.touchedViews, v.backing ∈ m.touchedViews

variable {m : Machine} {i : Instruction}

namespace WellFormed

theorem clearTouched (hm : m.WellFormed) : m.clearTouched.WellFormed where
  length := hm.length
  distinct := hm.distinct
  slotDistinct := hm.slotDistinct
  slotCounts := hm.slotCounts
  touchedSlots k hk := absurd hk (OrderedSet.not_mem_empty k)
  whole v hv := absurd hv (OrderedSet.not_mem_empty v)

/-- A step later no slot has labels. -/
theorem fade (hm : m.WellFormed) : m.fade.WellFormed where
  toSoundLabels := kept_soundLabels.fade hm.toSoundLabels
  slotDistinct k := by
    rw [Machine.fade, Labels.slot_fade]
    exact (hm.slotDistinct k).fade
  slotCounts k label hlabel := by
    rw [Machine.fade, Labels.slot_fade, Label.fade_eq_nil (hm.slotCounts k)] at hlabel
    contradiction
  touchedSlots := hm.touchedSlots
  whole := hm.whole

theorem performed (hm : m.WellFormed) (h : i.fault? m.stack.size m.target = none) :
    (m.performed i).WellFormed where
  toSoundLabels := hm.toSoundLabels.performed i
  slotDistinct k :=
    slot_performed_keeps (fun text => List.nodup_singleton text)
      (fun text labels hlabels => hlabels.refresh text 1) (hm.slotDistinct k) i
  slotCounts k label hlabel := by
    rcases count_of_mem_slot_performed hlabel with hone | hlabel
    · exact hone
    · exact hm.slotCounts k label hlabel
  touchedSlots := lt_size_of_mem_touchedSlots_performed hm.touchedSlots h
  whole v hv := by
    rcases mem_touchedViews_performed.mp hv with ⟨u, hu, rfl | rfl⟩ | hv
    · exact mem_touchedViews_performed.mpr (.inl ⟨v, hu, .inr rfl⟩)
    · exact mem_touchedViews_performed.mpr (.inl ⟨u, hu, .inr rfl⟩)
    · exact mem_touchedViews_performed.mpr (.inr (hm.whole v hv))

end WellFormed

theorem kept_wellFormed : Kept WellFormed where
  seed _ _ h := ⟨⟨h.length, h.distinct⟩, h.slotDistinct, h.slotCounts, h.touchedSlots, h.whole⟩
  withLifetime _ h :=
    ⟨⟨h.length, h.distinct⟩, h.slotDistinct, h.slotCounts, h.touchedSlots, h.whole⟩
  clearTouched := WellFormed.clearTouched
  fade := WellFormed.fade
  performed hi h := h.performed hi

theorem wellFormed_of_madeWith {slots : Nat} (h : MadeWith slots m) : m.WellFormed := by
  have hsound := soundLabels_of_madeWith h
  obtain ⟨stack, bank, -, rfl⟩ := h.eq
  exact {
    toSoundLabels := hsound
    slotDistinct := fun k => by simp [Label.Distinct]
    slotCounts := fun k label hlabel => by simp at hlabel
    touchedSlots := fun k hk => absurd hk (OrderedSet.not_mem_empty k)
    whole := fun v hv => absurd hv (OrderedSet.not_mem_empty v) }

theorem WellFormed.of_reachable (h : Reachable m) : m.WellFormed := by
  obtain ⟨slots, m₀, calls, h₀, rfl⟩ := reachable_iff.mp h
  exact kept_wellFormed.afterCalls (wellFormed_of_madeWith h₀) calls

theorem WellFormed.snapshot (hm : m.WellFormed) (text : String) :
    (m.snapshot text).WellFormed m.stack.size where
  size := ⟨m.stack.size_pos, m.stack.size_le⟩
  stack := rfl
  registers r := ⟨m.bank.get r, register_snapshot m text r⟩
  slotLabels k labels h := by
    obtain ⟨rfl, hne⟩ := slotLabels_snapshot_eq_some_iff.mp h
    exact ⟨hm.length ▸ m.labels.lt_length_of_slot_ne_nil hne, hne, hm.slotDistinct k,
      hm.slotCounts k⟩
  registerLabels r labels h := by
    obtain ⟨rfl, hne⟩ := registerLabels_snapshot_eq_some_iff.mp h
    exact ⟨hne, hm.distinct r⟩
  touchedSlots := ⟨m.touchedSlots.ascending, hm.touchedSlots⟩
  touchedViews := m.touchedViews.ascending.imp View.before_of_rank_lt
  whole r := hm.whole (.low r)

/-- After any calls on a new machine, also calls that fail, its picture has as many words as slots
were asked for, all registers, labels on slots of the stack that are shown once, no empty list of
labels and none with a text twice, and marks of slots of the stack and of views in display order,
where no low half stands without its register. -/
theorem wellFormed_snapshot_afterCalls {slots : Nat} {m₀ : Machine} (h₀ : MadeWith slots m₀)
    (calls : List Call) (text : String) :
    ((m₀.afterCalls calls).snapshot text).WellFormed slots := by
  have hm : (m₀.afterCalls calls).WellFormed :=
    kept_wellFormed.afterCalls (wellFormed_of_madeWith h₀) calls
  rw [← size_afterCalls h₀ calls]
  exact hm.snapshot text

/-- On two slots, a byte is stored and loaded after a step that set a label, and then there is no
room for a pair. The registers of the low halves are marked with them, and the slot has two
texts. -/
theorem wellFormed_after_failing_pair :
    let x0 : View := .whole (.general 0)
    let w0 : View := .low (.general 0)
    let w1 : View := .low (.general 1)
    let calls : List Call := [.withLifetime 3, .step "mov w1, #7", .fade,
      .execute (.mov x0 (.register (.whole .sp))), .execute (.strb w1 ⟨.whole .sp, -8, false⟩),
      .execute (.ldrb w0 ⟨.whole .sp, -8, false⟩),
      .execute (.stp (.whole .sp) (.whole .fp) ⟨.whole .sp, 0, true⟩)]
    ∃ m₀ s, MadeWith 2 m₀ ∧ (m₀.afterCalls calls).snapshot "stp" = s ∧ s.WellFormed 2 ∧
      s.touchedViews = [x0, w0, .whole (.general 1), w1] ∧
      s.slotLabels.get? 0 = some [⟨"w1[0:8]", 1⟩, ⟨"ldrb w0[0]", 1⟩] ∧
      s.registerLabels.get (.general 0) = some [⟨"mov sp", 3⟩, ⟨"ldrb [sp, #-8]", 3⟩] := by
  intro x0 w0 w1 calls
  have hpicture : (start 2).map (fun m =>
      let s := (m.afterCalls calls).snapshot "stp"
      (s.touchedViews, s.slotLabels.get? 0, s.registerLabels.get (.general 0))) =
        .ok ([x0, w0, .whole (.general 1), w1], some [⟨"w1[0:8]", 1⟩, ⟨"ldrb w0[0]", 1⟩],
          some [⟨"mov sp", 3⟩, ⟨"ldrb [sp, #-8]", 3⟩]) := by
    decide +kernel
  obtain ⟨m₀, hm₀, hpicture⟩ := map_eq_ok_iff.mp hpicture
  obtain ⟨hviews, hpicture⟩ := Prod.mk.inj hpicture
  obtain ⟨hslot, hregister⟩ := Prod.mk.inj hpicture
  exact ⟨m₀, _, .inl hm₀, rfl, wellFormed_snapshot_afterCalls (.inl hm₀) calls "stp", hviews,
    hslot, hregister⟩

end Machine

end StackSteps
