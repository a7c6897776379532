import StackSteps.Proofs.Labels.Lists

/-!
# A list of labels by its changes

A list of labels that starts out empty is told by the changes that it has gone through: which labels
it holds (`mem_listAfter_iff`) and in which order, namely that in which the texts have come
(`texts_listAfter_pairwise`).
-/
namespace StackSteps.Label

/-- What may happen to a list of labels. -/
inductive Change where
  | fade
  | refresh (label : Label)
  | replace (label : Label)
  | keep
deriving DecidableEq

namespace Change

def apply (labels : List Label) : Change → List Label
  | fade => Label.fade labels
  | refresh label => Label.refresh label.text label.count labels
  | replace label => [label]
  | keep => labels

/-- The label that a change sets. -/
def label? : Change → Option Label
  | refresh label | replace label => some label
  | fade | keep => none

/-- Whether a change neither sets a text nor drops it with all others. -/
def Spares (text : String) (x : Change) : Prop :=
  (∀ n, x.label? ≠ some ⟨text, n⟩) ∧ ∀ label, x ≠ replace label

theorem spares_of_label?_eq_none {x : Change} (h : x.label? = none) (text : String) :
    x.Spares text := by
  constructor
  · intro n hn
    rw [h] at hn
    contradiction
  · rintro label rfl
    contradiction

theorem spares_refresh {text : String} {label : Label} (h : label.text ≠ text) :
    Spares text (refresh label) := by
  constructor
  · intro n hn
    cases hn
    exact h rfl
  · intro replaced hr
    contradiction

end Change

/-- The list after changes, starting from the empty one. -/
def listAfter (history : List Change) : List Label :=
  history.foldl Change.apply []

theorem listAfter_concat (history : List Change) (x : Change) :
    listAfter (history ++ [x]) = x.apply (listAfter history) := by
  simp [listAfter]

theorem distinct_listAfter (history : List Change) : Distinct (listAfter history) := by
  induction history using List.reverseRecOn with
  | nil => exact List.nodup_nil
  | append_singleton history x ih =>
    rw [listAfter_concat]
    cases x with
    | fade => exact ih.fade
    | refresh label => exact ih.refresh label.text label.count
    | replace label => exact List.nodup_singleton _
    | keep => exact ih

/-- The last change that set the text gave it the count `n`, the list has not been replaced since,
and it has faded `d` times since. -/
def LastSet (history : List Change) (text : String) (n d : Nat) : Prop :=
  ∃ earlier last later, history = earlier ++ last :: later ∧ last.label? = some ⟨text, n⟩ ∧
    (∀ x ∈ later, Change.Spares text x) ∧ d = later.count .fade

/-- A text that was set lasts until it has faded as often as its count says, which for a count of
zero is once. -/
def Lasts (history : List Change) (text : String) (count : Nat) : Prop :=
  ∃ n d, LastSet history text n d ∧ (d = 0 ∨ d < n) ∧ count = n - d

section lasts

variable {history : List Change} {x : Change} {text : String} {n d count : Nat}

theorem not_lastSet_nil : ¬ LastSet [] text n d := by
  rintro ⟨earlier, last, later, h, -⟩
  simp at h

theorem lastSet_concat_iff :
    LastSet (history ++ [x]) text n d ↔
      (x.label? = some ⟨text, n⟩ ∧ d = 0) ∨
        (x.Spares text ∧ ∃ k, LastSet history text n k ∧ d = k + [x].count .fade) := by
  constructor
  · rintro ⟨earlier, last, later, h, hlast, hlater, rfl⟩
    -- the new change either is the one that set the text or comes after it
    obtain rfl | ⟨middle, y, rfl⟩ := List.eq_nil_or_concat' later
    · obtain ⟨rfl, hx⟩ := List.append_inj' h rfl
      obtain rfl := List.singleton_inj.mp hx
      exact .inl ⟨hlast, rfl⟩
    · have h : history ++ [x] = (earlier ++ last :: middle) ++ [y] := by simpa using h
      obtain ⟨rfl, hx⟩ := List.append_inj' h rfl
      obtain rfl := List.singleton_inj.mp hx
      have hmiddle : ∀ z ∈ middle, Change.Spares text z := fun z hz =>
        hlater z (List.mem_append_left _ hz)
      refine .inr ⟨hlater x (by simp), _, ⟨earlier, last, middle, rfl, hlast, hmiddle, rfl⟩, ?_⟩
      exact List.count_append
  · rintro (⟨hx, rfl⟩ | ⟨hx, k, ⟨earlier, last, later, rfl, hlast, hlater, rfl⟩, rfl⟩)
    · exact ⟨history, x, [], rfl, hx, by simp, rfl⟩
    · refine ⟨earlier, last, later ++ [x], by simp, hlast, fun y hy => ?_, List.count_append.symm⟩
      obtain hy | hy := List.mem_append.mp hy
      · exact hlater y hy
      · exact List.mem_singleton.mp hy ▸ hx

/-- A change that sets the text gives it its count. -/
theorem lasts_concat_of_label (hx : x.label? = some ⟨text, n⟩) :
    Lasts (history ++ [x]) text count ↔ count = n := by
  constructor
  · rintro ⟨k, d, hlast, -, rfl⟩
    obtain ⟨hk, rfl⟩ | ⟨hspares, -⟩ := lastSet_concat_iff.mp hlast
    · rw [hx] at hk
      cases hk
      rfl
    · exact absurd hx (hspares.1 n)
  · rintro rfl
    exact ⟨count, 0, lastSet_concat_iff.mpr (.inl ⟨hx, rfl⟩), .inl rfl, rfl⟩

/-- A list that is replaced by another text holds the text no more. -/
theorem not_lasts_concat_replace {label : Label} (h : label.text ≠ text) :
    ¬ Lasts (history ++ [.replace label]) text count := by
  rintro ⟨n, d, hlast, -⟩
  obtain ⟨hn, -⟩ | ⟨hspares, -⟩ := lastSet_concat_iff.mp hlast
  · cases hn
    exact h rfl
  · exact hspares.2 label rfl

theorem lasts_concat_of_spares (hx : x.Spares text) (hfade : x ≠ .fade) :
    Lasts (history ++ [x]) text count ↔ Lasts history text count := by
  have hcount : [x].count .fade = 0 := by simpa [List.count_eq_zero] using hfade.symm
  have hlast : ∀ n d, LastSet (history ++ [x]) text n d ↔ LastSet history text n d := by
    intro n d
    simp [lastSet_concat_iff, hx, hx.1 n, hcount]
  simp only [Lasts, hlast]

/-- Fading takes one off a count, and a count that was one or none is gone. -/
theorem lasts_concat_fade :
    Lasts (history ++ [.fade]) text count ↔ Lasts history text (count + 1) ∧ 0 < count := by
  have hspares : Change.Spares text .fade := Change.spares_of_label?_eq_none rfl text
  constructor
  · rintro ⟨n, d, hlast, hd, rfl⟩
    obtain ⟨hn, -⟩ | ⟨-, k, hbefore, rfl⟩ := lastSet_concat_iff.mp hlast
    · contradiction
    · have hk : k + 1 < n := by simpa using hd
      have hcount : n - (k + 1) + 1 = n - k := by omega
      exact ⟨⟨n, k, hbefore, by omega, hcount⟩, Nat.sub_pos_of_lt hk⟩
  · rintro ⟨⟨n, k, hlast, hk, hcount⟩, hpos⟩
    refine ⟨n, k + 1, lastSet_concat_iff.mpr (.inr ⟨hspares, k, hlast, rfl⟩), ?_, ?_⟩ <;> omega

end lasts

/-- A list holds the labels that last. -/
theorem mem_listAfter_iff {history : List Change} {text : String} {count : Nat} :
    ⟨text, count⟩ ∈ listAfter history ↔ Lasts history text count := by
  rw [mem_iff_count?_eq (distinct_listAfter history)]
  induction history using List.reverseRecOn generalizing count with
  | nil =>
    have hnot : ¬ Lasts [] text count := fun ⟨n, d, hlast, _⟩ => not_lastSet_nil hlast
    simp [listAfter, count?, hnot]
  | append_singleton history x ih =>
    rw [listAfter_concat]
    cases x with
    | fade =>
      rw [Change.apply, count?_fade_eq_some_iff (distinct_listAfter history), ih, lasts_concat_fade]
    | refresh label =>
      rw [Change.apply, count?_refresh]
      by_cases h : label.text = text
      · subst h
        rw [if_pos rfl, lasts_concat_of_label (n := label.count) rfl, Option.some.injEq, eq_comm]
      · have hspares := Change.spares_refresh h
        rw [if_neg h, ih, lasts_concat_of_spares hspares (by simp)]
    | replace label =>
      by_cases h : label.text = text
      · subst h
        rw [lasts_concat_of_label (n := label.count) rfl]
        simp [Change.apply, count?, eq_comm]
      · have hnot : ¬ Lasts (history ++ [.replace label]) text count := not_lasts_concat_replace h
        simp [Change.apply, count?, h, hnot]
    | keep =>
      have hspares : Change.Spares text .keep := Change.spares_of_label?_eq_none rfl text
      rw [Change.apply, ih, lasts_concat_of_spares hspares (by simp)]

/-- Whether a list holds a text after changes. -/
def Present (history : List Change) (text : String) : Prop :=
  ∃ count, Lasts history text count

theorem present_iff {history : List Change} {text : String} :
    Present history text ↔ text ∈ (listAfter history).map (·.text) := by
  simp only [Present, ← mem_listAfter_iff, List.mem_map]
  constructor
  · rintro ⟨count, h⟩
    exact ⟨_, h, rfl⟩
  · rintro ⟨label, h, rfl⟩
    exact ⟨label.count, h⟩

/-- The change of the number, counted from zero, has brought the text, and it has stayed since. -/
structure PresentSince (history : List Change) (text : String) (b : Nat) : Prop where
  absent : ¬ Present (history.take b) text
  lt : b < history.length
  present : ∀ j, b < j → j ≤ history.length → Present (history.take j) text

/-- Whether one text has come before another one, both to stay. -/
def CameBefore (history : List Change) (t u : String) : Prop :=
  ∃ a b, PresentSince history t a ∧ PresentSince history u b ∧ a < b

section order

variable {history : List Change} {x : Change} {text t u : String} {b : Nat}

theorem PresentSince.concat (h : PresentSince history text b)
    (hnow : Present (history ++ [x]) text) : PresentSince (history ++ [x]) text b where
  absent := by
    rw [List.take_append_of_le_length h.lt.le]
    exact h.absent
  lt := by
    have hlt := h.lt
    rw [List.length_append]
    omega
  present j hj hlength := by
    by_cases hold : j ≤ history.length
    · rw [List.take_append_of_le_length hold]
      exact h.present j hj hold
    · have hall : (history ++ [x]).length ≤ j := by simp; omega
      rwa [List.take_of_length_le hall]

/-- A text that was not there has come with the last change. -/
theorem presentSince_concat (hbefore : ¬ Present history text)
    (hnow : Present (history ++ [x]) text) :
    PresentSince (history ++ [x]) text history.length where
  absent := by rwa [List.take_left]
  lt := by simp
  present j hj hlength := by
    have hall : (history ++ [x]).length ≤ j := by simp; omega
    rwa [List.take_of_length_le hall]

theorem exists_presentSince (h : Present history text) : ∃ b, PresentSince history text b := by
  induction history using List.reverseRecOn with
  | nil =>
    obtain ⟨count, n, d, hlast, -⟩ := h
    exact absurd hlast not_lastSet_nil
  | append_singleton history x ih =>
    by_cases hbefore : Present history text
    · obtain ⟨b, hb⟩ := ih hbefore
      exact ⟨b, hb.concat h⟩
    · exact ⟨history.length, presentSince_concat hbefore h⟩

theorem CameBefore.concat (h : CameBefore history t u) (ht : Present (history ++ [x]) t)
    (hu : Present (history ++ [x]) u) : CameBefore (history ++ [x]) t u := by
  obtain ⟨a, b, ha, hb, hab⟩ := h
  exact ⟨a, b, ha.concat ht, hb.concat hu, hab⟩

/-- Texts stand in the order in which they have come. -/
theorem texts_listAfter_pairwise (history : List Change) :
    ((listAfter history).map (·.text)).Pairwise (CameBefore history) := by
  induction history using List.reverseRecOn with
  | nil => exact List.Pairwise.nil
  | append_singleton history x ih =>
    -- texts that were there before and are still there have come as before
    have hstay : ∀ texts : List String, texts.Sublist ((listAfter history).map (·.text)) →
        (∀ t ∈ texts, Present (history ++ [x]) t) →
        texts.Pairwise (CameBefore (history ++ [x])) := by
      intro texts hsub hnow
      refine (ih.sublist hsub).imp_of_mem fun ht hu h => ?_
      exact h.concat (hnow _ ht) (hnow _ hu)
    have hnow : ∀ t ∈ (listAfter (history ++ [x])).map (·.text), Present (history ++ [x]) t :=
      fun t ht => present_iff.mpr ht
    rw [listAfter_concat] at hnow ⊢
    cases x with
    | fade => exact hstay _ (texts_fade _) hnow
    | refresh label =>
      rw [Change.apply, texts_refresh] at hnow ⊢
      split_ifs at hnow ⊢ with hthere
      · exact hstay _ (List.Sublist.refl _) hnow
      · have hold := hstay _ (List.Sublist.refl _) fun t ht => hnow t (List.mem_append_left _ ht)
        refine List.pairwise_append.mpr ⟨hold, List.pairwise_singleton _ _, fun t ht u hu => ?_⟩
        obtain rfl := List.mem_singleton.mp hu
        have hnew : ¬ Present history label.text := fun h => hthere (present_iff.mp h)
        obtain ⟨a, ha⟩ := exists_presentSince (present_iff.mpr ht)
        have hstays := ha.concat (hnow t (List.mem_append_left _ ht))
        have hcomes := presentSince_concat hnew (hnow label.text (by simp))
        exact ⟨a, history.length, hstays, hcomes, ha.lt⟩
    | replace label => exact List.pairwise_singleton _ _
    | keep => exact hstay _ (List.Sublist.refl _) hnow

end order

end StackSteps.Label
