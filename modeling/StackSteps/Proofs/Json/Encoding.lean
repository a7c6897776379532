import Mathlib.Data.List.Basic
import StackSteps.Json.Compact
import StackSteps.Trace

/-!
# Encoders that keep to JSON

What is relied on of an encoder (`Encoder.Lawful`): null, integers and strings have texts, and the
text of an array or of an object is put together from those of its parts, without blanks. How the
characters of a string are escaped is left open, only plain characters stand for themselves. Such an
encoder has a text for every trace, in which the texts of the snapshots stand (`Trace.exists_text`).
The compact text is that of a lawful encoder (`compact_lawful`).
-/
namespace StackSteps

namespace Json

/-- A character that needs no escape in any string: printable, in ASCII, no quote and no
backslash. -/
def isPlain (c : Char) : Bool :=
  0x20 ≤ c.toNat && c.toNat < 0x7F && c ≠ '"' && c ≠ '\\'

def arrayText (texts : List String) : String :=
  "[" ++ ",".intercalate texts ++ "]"

def objectText (texts : List String) : String :=
  "\x7b" ++ ",".intercalate texts ++ "\x7d"

/-- A field of an object, the name of which is written as a string. -/
def Encoder.field (encode : Encoder) (field : String × Json) : Option String := do
  return (← encode (string field.1)) ++ ":" ++ (← encode field.2)

/-- The laws of writing JSON without blanks. -/
structure Encoder.Lawful (encode : Encoder) : Prop where
  null : encode null = some "null"
  integer : ∀ n, encode (integer n) = some (Text.integer n)
  string : ∀ s, ∃ text, encode (string s) = some text
  plain : ∀ s : String, s.toList.all isPlain → encode (Json.string s) = some ("\"" ++ s ++ "\"")
  array : ∀ items, encode (array items) = (items.mapM encode).map arrayText
  object : ∀ fields, encode (object fields) = (fields.mapM encode.field).map objectText

variable {encode : Encoder}

namespace Encoder.Lawful

theorem ofList {α : Type} (h : encode.Lawful) (write : α → Json) (as : List α) :
    encode (ofList write as) = (as.mapM fun a => encode (write a)).map arrayText := by
  rw [Json.ofList, h.array, List.mapM_map]
  rfl

theorem exists_array (h : encode.Lawful) {items : List Json}
    (hitems : ∀ v ∈ items, ∃ text, encode v = some text) :
    ∃ text, encode (Json.array items) = some text := by
  obtain ⟨texts, htexts⟩ := exists_mapM_eq_some hitems
  exact ⟨arrayText texts, by rw [h.array, htexts]; rfl⟩

theorem exists_ofList {α : Type} (h : encode.Lawful) {write : α → Json}
    (hwrite : ∀ a, ∃ text, encode (write a) = some text) (as : List α) :
    ∃ text, encode (Json.ofList write as) = some text := by
  refine h.exists_array fun v hv => ?_
  obtain ⟨a, -, rfl⟩ := List.mem_map.mp hv
  exact hwrite a

theorem exists_object (h : encode.Lawful) {fields : List (String × Json)}
    (hfields : ∀ field ∈ fields, ∃ text, encode field.2 = some text) :
    ∃ text, encode (Json.object fields) = some text := by
  have hfield : ∀ field ∈ fields, ∃ text, encode.field field = some text := by
    intro field hmem
    obtain ⟨name, hname⟩ := h.string field.1
    obtain ⟨text, htext⟩ := hfields field hmem
    exact ⟨name ++ ":" ++ text, by simp [Encoder.field, hname, htext]⟩
  obtain ⟨texts, htexts⟩ := exists_mapM_eq_some hfield
  exact ⟨objectText texts, by rw [h.object, htexts]; rfl⟩

theorem field_eq (h : encode.Lawful) {name text : String} {v : Json}
    (hname : name.toList.all isPlain) (hv : encode v = some text) :
    encode.field (name, v) = some ("\"" ++ name ++ "\":" ++ text) := by
  have hquoted : "\":" = "\"" ++ ":" := by decide
  rw [Encoder.field, h.plain name hname, hv, hquoted, ← String.append_assoc]
  rfl

/-- An object of three fields with plain names. -/
theorem object_three (h : encode.Lawful) {a b c x y z : String} {u v w : Json}
    (ha : a.toList.all isPlain) (hb : b.toList.all isPlain) (hc : c.toList.all isPlain)
    (hu : encode u = some x) (hv : encode v = some y) (hw : encode w = some z) :
    encode (Json.object [(a, u), (b, v), (c, w)]) =
      some (objectText ["\"" ++ a ++ "\":" ++ x, "\"" ++ b ++ "\":" ++ y,
        "\"" ++ c ++ "\":" ++ z]) := by
  have hfields : [(a, u), (b, v), (c, w)].mapM encode.field =
      some ["\"" ++ a ++ "\":" ++ x, "\"" ++ b ++ "\":" ++ y, "\"" ++ c ++ "\":" ++ z] := by
    rw [mapM_eq_some_iff, List.map_cons, List.map_cons, List.map_cons, h.field_eq ha hu,
      h.field_eq hb hv, h.field_eq hc hw]
    rfl
  rw [h.object, hfields]
  rfl

theorem exists_ofTable {α : Type} (h : encode.Lawful) {write : α → Json}
    (hwrite : ∀ a, ∃ text, encode (write a) = some text) (t : Table (Option α)) :
    ∃ text, encode (ofTable write t) = some text := by
  refine h.exists_object fun field hfield => ?_
  obtain ⟨⟨r, value⟩, -, hvalue⟩ := List.mem_filterMap.mp hfield
  obtain ⟨a, -, rfl⟩ := Option.map_eq_some_iff.mp hvalue
  exact hwrite a

theorem exists_ofSparse {α : Type} (h : encode.Lawful) {write : α → Json}
    (hwrite : ∀ a, ∃ text, encode (write a) = some text) (s : Sparse α) :
    ∃ text, encode (ofSparse write s) = some text := by
  refine h.exists_object fun field hfield => ?_
  obtain ⟨⟨i, a⟩, -, rfl⟩ := List.mem_map.mp hfield
  exact hwrite a

theorem exists_label (h : encode.Lawful) (label : Label) :
    ∃ text, encode (ofLabel label) = some text := by
  refine h.exists_array fun v hv => ?_
  simp only [List.mem_cons, List.not_mem_nil, or_false] at hv
  rcases hv with rfl | rfl
  · exact h.string label.text
  · exact ⟨_, h.integer label.count⟩

theorem exists_snapshot (h : encode.Lawful) (s : Snapshot) : ∃ text, s.text encode = some text := by
  refine h.exists_object fun field hfield => ?_
  simp only [List.mem_cons, List.not_mem_nil, or_false] at hfield
  have hword : ∀ v : Word, ∃ text, encode (ofWord v) = some text := fun _ => h.string _
  have hlabels := h.exists_ofList h.exists_label
  rcases hfield with rfl | rfl | rfl | rfl | rfl | rfl | rfl
  · exact h.string s.instruction
  · exact h.exists_ofList hword s.stack
  · exact h.exists_ofTable hword s.registers
  · exact h.exists_ofSparse hlabels s.slotLabels
  · exact h.exists_ofTable hlabels s.registerLabels
  · exact h.exists_ofList (fun i : Nat => ⟨_, h.integer i⟩) s.touchedSlots
  · exact h.exists_ofList (fun _ => h.string _) s.touchedViews

end Encoder.Lawful

theorem escape_of_isPlain {c : Char} (h : isPlain c) : escape c = [c] := by
  have hprintable : ¬ c.toNat < 0x20 := by
    simp only [isPlain, Bool.and_eq_true, decide_eq_true_eq] at h
    omega
  unfold escape
  split
  case h_8 => exact if_neg hprintable
  all_goals exact absurd h (by decide)

theorem compact_lawful : Encoder.Lawful compact where
  null := rfl
  integer _ := rfl
  string s := ⟨quote s, rfl⟩
  plain s hs := by
    have hsame : s.toList.flatMap escape = s.toList := by
      rw [List.all_eq_true] at hs
      rw [List.flatMap_congr fun c hc => escape_of_isPlain (hs c hc)]
      exact List.flatMap_singleton' s.toList
    rw [compact, render, quote, hsame, String.ofList_toList]
  array items := by
    have hitems : items.mapM compact = some (items.map render) := by
      rw [mapM_eq_some_iff, List.map_map]
      rfl
    rw [hitems, compact, render, renderAll_eq]
    rfl
  object fields := by
    have hfields : fields.mapM (Encoder.field compact) = some (fields.map renderField) := by
      rw [mapM_eq_some_iff, List.map_map]
      refine List.map_congr_left fun field _ => ?_
      obtain ⟨name, v⟩ := field
      rfl
    rw [hfields, compact, render, renderFields_eq]
    rfl

end Json

namespace Trace

variable {encode : Json.Encoder}

/-- The failure of a run as an object, or null. -/
def failureJson (t : Trace) : Json :=
  match t.failure with
  | none => .null
  | some f => .object [
      ("line", .integer f.line), ("text", .string f.text), ("message", .string f.error.message)]

/-- The text of a failure shows its line, its text and the wording of its error. -/
theorem exists_failureText (h : encode.Lawful) (t : Trace) :
    t.failure = none ∧ encode t.failureJson = some "null" ∨
      ∃ f text message, t.failure = some f ∧ encode (.string f.text) = some text ∧
        encode (.string f.error.message) = some message ∧
        encode t.failureJson = some ("\x7b\"line\":" ++ Text.integer f.line ++ ",\"text\":" ++
          text ++ ",\"message\":" ++ message ++ "\x7d") := by
  cases hf : t.failure with
  | none => exact .inl ⟨rfl, by rw [failureJson, hf, h.null]⟩
  | some f =>
    obtain ⟨text, htext⟩ := h.string f.text
    obtain ⟨message, hmessage⟩ := h.string f.error.message
    refine .inr ⟨f, text, message, rfl, htext, hmessage, ?_⟩
    rw [failureJson, hf]
    refine (h.object_three (by decide) (by decide) (by decide) (h.integer _) htext
      hmessage).trans (congrArg some ?_)
    rw [← String.toList_inj]
    simp [Json.objectText]

/-- A lawful encoder has a text for every trace. It is put together from the texts of the snapshots,
of the wordings of the notices, and of the failure. -/
theorem exists_text (h : encode.Lawful) (t : Trace) :
    ∃ states notices failure,
      t.states.mapM (Snapshot.text encode) = some states ∧
      t.notices.mapM (fun n => encode (.string n.message)) = some notices ∧
      encode t.failureJson = some failure ∧
      t.text encode = some ("\x7b\"states\":[" ++ ",".intercalate states ++
        "],\"diagnostics\":[" ++ ",".intercalate notices ++ "],\"failure\":" ++ failure ++
        "\x7d") := by
  have hsnapshot : ∀ s ∈ t.states, ∃ text, Snapshot.text encode s = some text :=
    fun s _ => h.exists_snapshot s
  have hnotice : ∀ n ∈ t.notices, ∃ text, encode (.string n.message) = some text :=
    fun n _ => h.string n.message
  obtain ⟨states, hstates⟩ := exists_mapM_eq_some hsnapshot
  obtain ⟨notices, hnotices⟩ := exists_mapM_eq_some hnotice
  obtain ⟨failure, hfailure⟩ : ∃ text, encode t.failureJson = some text := by
    rcases t.exists_failureText h with ⟨-, htext⟩ | ⟨f, text, message, -, -, -, htext⟩
    · exact ⟨_, htext⟩
    · exact ⟨_, htext⟩
  refine ⟨states, notices, failure, hstates, hnotices, hfailure, ?_⟩
  have hstatesText : encode (.ofList Snapshot.toJson t.states) = some (Json.arrayText states) := by
    rw [h.ofList]
    exact congrArg (Option.map Json.arrayText) hstates
  have hnoticesText : encode (.ofList (fun n => .string n.message) t.notices) =
      some (Json.arrayText notices) := by
    rw [h.ofList, hnotices]
    rfl
  refine (h.object_three (by decide) (by decide) (by decide) hstatesText hnoticesText
    hfailure).trans (congrArg some ?_)
  rw [← String.toList_inj]
  simp [Json.objectText, Json.arrayText]

end Trace

end StackSteps
