import StackSteps.Proofs.Json.ReadBack
import StackSteps.Proofs.Machine.FromLines

/-!
# Snapshots that are read back

A snapshot is read back from its JSON if and only if its numbers have the bits that the format has
for them and every view it marks has a name. These are the snapshots that reading ever gives, and
those of machines that are driven by lines (`ofJson?_toJson_iff`).
-/
namespace StackSteps

namespace Snapshot

/-- Positions of slots have sixty-four bits and counts of labels thirty-two. -/
structure Sized (s : Snapshot) : Prop where
  slotLabels : ∀ e ∈ s.slotLabels.entries,
    e.1 < 18446744073709551616 ∧ ∀ label ∈ e.2, label.count < 4294967296
  registerLabels : ∀ r labels, s.registerLabels.get r = some labels →
    ∀ label ∈ labels, label.count < 4294967296
  touchedSlots : ∀ i ∈ s.touchedSlots, i < 18446744073709551616

/-- No low half of a pointer is marked. -/
def MarksNamed (s : Snapshot) : Prop :=
  ∀ v ∈ s.touchedViews, v.isNamed = true

instance (s : Snapshot) : Decidable s.MarksNamed :=
  inferInstanceAs (Decidable (∀ v ∈ s.touchedViews, v.isNamed = true))

open Json

theorem ofParts?_eq_some_iff {instruction stack registers slotLabels registerLabels touchedSlots
    touchedViews : Json} {s : Snapshot} :
    ofParts? instruction stack registers slotLabels registerLabels touchedSlots touchedViews =
        some s ↔
      instruction.string? = some s.instruction ∧ list? word? stack = some s.stack ∧
      table? word? registers = some s.registers ∧
      sparse? (list? label?) slotLabels = some s.slotLabels ∧
      table? (list? label?) registerLabels = some s.registerLabels ∧
      list? (below? 18446744073709551616) touchedSlots = some s.touchedSlots ∧
      list? view? touchedViews = some s.touchedViews := by
  simp only [ofParts?, Option.bind_eq_bind, Option.bind_eq_some_iff]
  constructor
  · rintro ⟨_, h₁, _, h₂, _, h₃, _, h₄, _, h₅, _, h₆, _, h₇, heq⟩
    cases heq
    exact ⟨h₁, h₂, h₃, h₄, h₅, h₆, h₇⟩
  · rintro ⟨h₁, h₂, h₃, h₄, h₅, h₆, h₇⟩
    exact ⟨_, h₁, _, h₂, _, h₃, _, h₄, _, h₅, _, h₆, _, h₇, rfl⟩

/-- Reading goes by the parts, from an array or from the fields of an object. -/
theorem exists_parts_of_ofJson? {v : Json} {s : Snapshot} (h : ofJson? v = some s) :
    ∃ instruction stack registers slotLabels registerLabels touchedSlots touchedViews,
      ofParts? instruction stack registers slotLabels registerLabels touchedSlots touchedViews =
        some s := by
  unfold ofJson? at h
  split at h
  · exact ⟨_, _, _, _, _, _, _, h⟩
  · simp only [Option.bind_eq_bind, Option.bind_eq_some_iff] at h
    obtain ⟨_, -, _, -, _, -, _, -, _, -, _, -, _, -, h⟩ := h
    exact ⟨_, _, _, _, _, _, _, h⟩

theorem readsBack_json : ReadsBack toJson ofJson? fun s => s.Sized ∧ s.MarksNamed where
  read_write {s} h := by
    obtain ⟨hsized, hmarks⟩ := h
    show ofParts? (string s.instruction) (ofList ofWord s.stack) (ofTable ofWord s.registers)
      (ofSparse (ofList ofLabel) s.slotLabels) (ofTable (ofList ofLabel) s.registerLabels)
      (ofList (fun i : Nat => integer i) s.touchedSlots) (ofList ofView s.touchedViews) = some s
    rw [ofParts?_eq_some_iff]
    refine ⟨rfl, ?_, ?_, ?_, ?_, ?_, ?_⟩
    · exact (readsBack_list readsBack_word).read_write fun _ _ => trivial
    · exact (readsBack_table readsBack_word).read_write fun _ _ _ => trivial
    · exact (readsBack_sparse (readsBack_list readsBack_label)).read_write hsized.slotLabels
    · exact (readsBack_table (readsBack_list readsBack_label)).read_write hsized.registerLabels
    · exact (readsBack_list (readsBack_below _)).read_write hsized.touchedSlots
    · exact (readsBack_list readsBack_view).read_write hmarks
  of_read {v s} h := by
    obtain ⟨_, _, _, _, _, _, _, hparts⟩ := exists_parts_of_ofJson? h
    obtain ⟨-, -, -, hslots, hregisters, htouched, hviews⟩ := ofParts?_eq_some_iff.mp hparts
    refine ⟨⟨?_, ?_, ?_⟩, ?_⟩
    · exact (readsBack_sparse (readsBack_list readsBack_label)).of_read hslots
    · exact (readsBack_table (readsBack_list readsBack_label)).of_read hregisters
    · exact (readsBack_list (readsBack_below _)).of_read htouched
    · exact (readsBack_list readsBack_view).of_read hviews

end Snapshot

namespace Machine

variable {m : Machine}

theorem sized_snapshot (hm : m.Depictable) (hlength : m.labels.slots.length = m.stack.size)
    (text : String) : (m.snapshot text).Sized where
  slotLabels e he := by
    obtain ⟨hslot, hne⟩ := slotLabels_snapshot_eq_some_iff.mp (Sparse.mem_entries_iff.mp he)
    have hlt := m.labels.lt_length_of_slot_ne_nil (hslot ▸ hne)
    have hsize : m.stack.size ≤ 4096 := m.stack.size_le
    exact ⟨by omega, fun label hlabel => hm.slotCounts e.1 label (hslot ▸ hlabel)⟩
  registerLabels r labels hlabels label hlabel := by
    obtain ⟨hregister, -⟩ := registerLabels_snapshot_eq_some_iff.mp hlabels
    exact hm.registerCounts r label (hregister ▸ hlabel)
  touchedSlots i hi := by
    have hlt : i < m.stack.size := hm.slots i hi
    have hsize : m.stack.size ≤ 4096 := m.stack.size_le
    omega

theorem marksNamed_snapshot (hm : m.Depictable) (text : String) :
    (m.snapshot text).MarksNamed :=
  hm.views

end Machine

/-- Reading gives back what is written of a snapshot if and only if its numbers have the bits of the
format and it marks no low half of a pointer. Whatever reading gives is such a snapshot, and so is
every picture of a machine that is driven by lines. No two of them are written alike. -/
theorem Snapshot.ofJson?_toJson_iff :
    (∀ s : Snapshot, ofJson? s.toJson = some s ↔ s.Sized ∧ s.MarksNamed) ∧
    (∀ v s, ofJson? v = some s → ofJson? s.toJson = some s) ∧
    (∀ s t : Snapshot, ofJson? s.toJson = some s → ofJson? t.toJson = some t →
      s.toJson = t.toJson → s = t) ∧
    (∀ slots m₀ calls text, Machine.MadeWith slots m₀ →
      (∀ c ∈ calls, Machine.Call.FromLines c) →
      let s := (m₀.afterCalls calls).snapshot text
      ofJson? s.toJson = some s) := by
  refine ⟨fun s => readsBack_json.read_write_iff, fun v s => readsBack_json.read_write_of_read,
    ?_, ?_⟩
  · intro s t hs ht heq
    exact readsBack_json.write_injOn (readsBack_json.of_read hs) (readsBack_json.of_read ht) heq
  · intro slots m₀ calls text h₀ hcalls s
    have hm := Machine.depictable_afterCalls h₀ hcalls
    have hsound := Machine.kept_soundLabels.afterCalls (Machine.soundLabels_of_madeWith h₀) calls
    exact readsBack_json.read_write
      ⟨Machine.sized_snapshot hm hsound.length text, Machine.marksNamed_snapshot hm text⟩

/-- A snapshot with characters that are escaped, the greatest word, one register, a slot without
labels and marks in no order is read back. It is not if it marks a low half of `sp`. -/
theorem Snapshot.read_back_iff_marks_named :
    let s : Snapshot := {
      instruction := "\"\\\nπ"
      stack := [18446744073709551615, 0]
      registers := (Table.replicate none).set .sp (some 18446744073709551615)
      slotLabels := Sparse.ofList [(7, []), (3, [⟨"stp x29", 4294967295⟩])]
      registerLabels := Table.replicate none
      touchedSlots := [9, 2, 9]
      touchedViews := [.low (.general 3), .whole .sp] }
    ofJson? s.toJson = some s ∧
      ofJson? { s with touchedViews := [.low .sp] }.toJson ≠
        some { s with touchedViews := [.low .sp] } := by
  intro s
  have hsized : s.Sized := {
    slotLabels := by decide
    registerLabels := fun r labels h => by simp [s] at h
    touchedSlots := by decide }
  constructor
  · exact (ofJson?_toJson_iff.1 s).mpr ⟨hsized, by decide⟩
  · intro h
    obtain ⟨-, hmarks⟩ := (ofJson?_toJson_iff.1 _).mp h
    exact absurd (hmarks (.low .sp) List.mem_cons_self) (by decide)

end StackSteps
