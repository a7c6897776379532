/-!
# Computations that may fail

What a computation in steps gives, it gives by its steps (`bind_eq_ok_iff`, `map_eq_ok_iff`), and an
effect that starts with one ends there or goes on with its result (`run_ofExcept_bind`). A list is
computed item by item (`mapM_eq_some_iff`).
-/

namespace StackSteps

variable {ε α β : Type} {x : Except ε α} {b : β}

/-- A computation in two steps gives a result if and only if both steps do. -/
theorem bind_eq_ok_iff {f : α → Except ε β} :
    x >>= f = .ok b ↔ ∃ a, x = .ok a ∧ f a = .ok b := by
  cases x with
  | error e => simp [bind, Except.bind]
  | ok a => simp [bind, Except.bind]

theorem map_eq_ok_iff {f : α → β} : x.map f = .ok b ↔ ∃ a, x = .ok a ∧ f a = b := by
  cases x with
  | error e => simp [Except.map]
  | ok a => simp [Except.map]

theorem run_get_bind {σ : Type} (k : σ → EStateM ε σ β) (s : σ) :
    (get >>= k).run s = (k s).run s := rfl

theorem run_ofExcept_bind {σ : Type} (x : Except ε α) (k : α → EStateM ε σ β) (s : σ) :
    (MonadExcept.ofExcept x >>= k).run s =
      match x with
      | .ok a => (k a).run s
      | .error e => .error e s := by
  cases x <;> rfl

theorem mapM_eq_some_iff {f : α → Option β} {as : List α} {bs : List β} :
    as.mapM f = some bs ↔ as.map f = bs.map some := by
  induction as generalizing bs with
  | nil => cases bs <;> simp
  | cons a as ih =>
    rw [List.mapM_cons, List.map_cons]
    constructor
    · intro h
      simp only [Option.bind_eq_bind, Option.bind_eq_some_iff] at h
      obtain ⟨c, hc, cs, hcs, hbs⟩ := h
      cases hbs
      rw [hc, ih.mp hcs, List.map_cons]
    · intro h
      cases bs with
      | nil => contradiction
      | cons b bs =>
        obtain ⟨hb, hbs⟩ := List.cons.inj h
        rw [hb, ih.mpr hbs]
        rfl

theorem mapM_map_of_forall {f : α → β} {g : β → Option α} {as : List α}
    (h : ∀ a ∈ as, g (f a) = some a) : (as.map f).mapM g = some as := by
  rw [mapM_eq_some_iff, List.map_map]
  exact List.map_congr_left h

theorem exists_of_mem_mapM {f : α → Option β} {as : List α} {bs : List β}
    (h : as.mapM f = some bs) {b : β} (hb : b ∈ bs) : ∃ a ∈ as, f a = some b := by
  have hmem : some b ∈ as.map f := mapM_eq_some_iff.mp h ▸ List.mem_map_of_mem hb
  exact List.mem_map.mp hmem

theorem exists_mapM_eq_some {f : α → Option β} {as : List α} (h : ∀ a ∈ as, ∃ b, f a = some b) :
    ∃ bs, as.mapM f = some bs := by
  induction as with
  | nil => exact ⟨[], rfl⟩
  | cons a as ih =>
    obtain ⟨b, hb⟩ := h a List.mem_cons_self
    obtain ⟨bs, hbs⟩ := ih fun c hc => h c (List.mem_cons_of_mem a hc)
    exact ⟨b :: bs, by rw [List.mapM_cons, hb, hbs]; rfl⟩

end StackSteps
