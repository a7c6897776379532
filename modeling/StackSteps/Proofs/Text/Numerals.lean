import StackSteps.Text.Numeral
import Mathlib

/-!
# What a numeral denotes

A character is a digit of a value if it is the one written for the value, in either case, and a text
is a numeral of the number that its digits give by their places. The reader of numerals accepts
exactly the numerals, with the number that they denote (`natural?_eq_some_iff`).
-/
namespace StackSteps.Text

def IsDigit (base : Nat) (c : Char) (d : Nat) : Prop :=
  d < base ∧ (c = d.digitChar ∨ c = d.digitChar.toUpper)

/-- One or more digits, the last one counting ones and each other one the base times the next. -/
def Numeral (base : Nat) (cs : List Char) (n : Nat) : Prop :=
  cs ≠ [] ∧ ∃ ds, List.Forall₂ (IsDigit base) cs ds ∧ n = Nat.ofDigits base ds.reverse

theorem toNat_bounds {c lo hi : Char} (h : lo ≤ c ∧ c ≤ hi) :
    lo.toNat ≤ c.toNat ∧ c.toNat ≤ hi.toNat := by
  simp only [Char.le_def, UInt32.le_iff_toNat_le] at h
  exact h

theorem digitValue?_digitChar {d : Nat} (hd : d < 16) :
    digitValue? d.digitChar = some d ∧ digitValue? d.digitChar.toUpper = some d := by
  have hall : ∀ k : Fin 16, digitValue? k.val.digitChar = some k.val ∧
      digitValue? k.val.digitChar.toUpper = some k.val := by decide
  exact hall ⟨d, hd⟩

theorem isDigit_of_digitValue? {c : Char} {d : Nat} (h : digitValue? c = some d) :
    IsDigit 16 c d := by
  have hdecimal : ∀ k : Fin 10, Char.ofNat (48 + k) = k.val.digitChar := by decide
  have hlower : ∀ k : Fin 6, Char.ofNat (97 + k) = (10 + k.val).digitChar := by decide
  have hupper : ∀ k : Fin 6, Char.ofNat (65 + k) = (10 + k.val).digitChar.toUpper := by decide
  have hc : ∀ n, c.toNat = n → c = Char.ofNat n := by
    rintro n rfl
    exact (Char.ofNat_toNat c).symm
  unfold digitValue? at h
  split at h
  next hrange =>
    obtain ⟨hlo, hhi⟩ : 48 ≤ c.toNat ∧ c.toNat ≤ 57 := toNat_bounds hrange
    have hd : c.toNat - 48 = d := Option.some.inj h
    refine ⟨by omega, .inl ?_⟩
    rw [hc (48 + d) (by omega)]
    exact hdecimal ⟨d, by omega⟩
  next =>
    split at h
    next hrange =>
      obtain ⟨hlo, hhi⟩ : 97 ≤ c.toNat ∧ c.toNat ≤ 102 := toNat_bounds hrange
      have hd : c.toNat - 87 = d := Option.some.inj h
      refine ⟨by omega, .inl ?_⟩
      obtain ⟨k, rfl⟩ : ∃ k, d = 10 + k := ⟨d - 10, by omega⟩
      rw [hc (97 + k) (by omega)]
      exact hlower ⟨k, by omega⟩
    next =>
      split at h
      next hrange =>
        obtain ⟨hlo, hhi⟩ : 65 ≤ c.toNat ∧ c.toNat ≤ 70 := toNat_bounds hrange
        have hd : c.toNat - 55 = d := Option.some.inj h
        refine ⟨by omega, .inr ?_⟩
        obtain ⟨k, rfl⟩ : ∃ k, d = 10 + k := ⟨d - 10, by omega⟩
        rw [hc (65 + k) (by omega)]
        exact hupper ⟨k, by omega⟩
      next => contradiction

theorem digit?_eq_some_iff {base : Nat} (hb : base ≤ 16) {c : Char} {d : Nat} :
    digit? base c = some d ↔ IsDigit base c d := by
  simp only [digit?, Option.filter_eq_some_iff, decide_eq_true_eq]
  constructor
  · rintro ⟨hv, hd⟩
    exact ⟨hd, (isDigit_of_digitValue? hv).2⟩
  · rintro ⟨hd, rfl | rfl⟩
    · exact ⟨(digitValue?_digitChar (by omega)).1, hd⟩
    · exact ⟨(digitValue?_digitChar (by omega)).2, hd⟩

/-- Digits behind a number, read one by one. -/
theorem foldlM_appendDigit?_eq_some_iff {base : Nat} (hb : base ≤ 16) {cs : List Char}
    {high n : Nat} :
    cs.foldlM (appendDigit? base) high = some n ↔
      ∃ ds, List.Forall₂ (IsDigit base) cs ds ∧ n = ds.foldl (fun m d => d + base * m) high := by
  induction cs generalizing high with
  | nil =>
    simp only [List.foldlM_nil, Option.pure_def, Option.some.injEq, List.forall₂_nil_left_iff]
    constructor
    · rintro rfl
      exact ⟨[], rfl, rfl⟩
    · rintro ⟨ds, rfl, rfl⟩
      rfl
  | cons c cs ih =>
    simp only [List.foldlM_cons, appendDigit?, Option.bind_eq_bind, Option.bind_eq_some_iff,
      Option.map_eq_some_iff, digit?_eq_some_iff hb, List.forall₂_cons_left_iff]
    constructor
    · rintro ⟨m, ⟨d, hd, rfl⟩, hrest⟩
      obtain ⟨ds, hds, rfl⟩ := ih.mp hrest
      exact ⟨d :: ds, ⟨d, ds, hd, hds, rfl⟩, by rw [List.foldl_cons, Nat.add_comm d]⟩
    · rintro ⟨_, ⟨d, ds, hd, hds, rfl⟩, rfl⟩
      exact ⟨_, ⟨d, hd, rfl⟩, ih.mpr ⟨ds, hds, by rw [List.foldl_cons, Nat.add_comm d]⟩⟩

theorem natural?_eq_some_iff {base : Nat} (hb : base ≤ 16) {cs : List Char} {n : Nat} :
    natural? base cs = some n ↔ Numeral base cs n := by
  have hvalue : ∀ ds : List Nat,
      Nat.ofDigits base ds.reverse = ds.foldl (fun m d => d + base * m) 0 := by
    intro ds
    rw [Nat.ofDigits_eq_foldr, List.foldr_reverse]
    rfl
  unfold natural? Numeral
  simp only [hvalue, ← foldlM_appendDigit?_eq_some_iff hb]
  by_cases hne : cs = []
  · simp [hne]
  · simp [hne]

/-- What is written for a number is a numeral of it. -/
theorem numeral_toDigits {base : Nat} (hb : 1 < base) (hb' : base ≤ 16) (n : Nat) :
    Numeral base (Nat.toDigits base n) n := by
  rw [← natural?_eq_some_iff hb']
  exact natural?_toDigits hb hb' n

theorem IsDigit.isAlphanum {base : Nat} {c : Char} {d : Nat} (hb : base ≤ 16)
    (h : IsDigit base c d) : c.isAlphanum = true := by
  have hall : ∀ k : Fin 16, k.val.digitChar.isAlphanum = true ∧
      k.val.digitChar.toUpper.isAlphanum = true := by decide
  obtain ⟨hd, rfl | rfl⟩ := h
  · exact (hall ⟨d, by omega⟩).1
  · exact (hall ⟨d, by omega⟩).2

theorem Numeral.isAlphanum {base : Nat} {cs : List Char} {n : Nat} (hb : base ≤ 16)
    (h : Numeral base cs n) : ∀ c ∈ cs, c.isAlphanum = true := by
  obtain ⟨-, ds, hds, -⟩ := h
  intro c hc
  induction hds with
  | nil => simp at hc
  | cons hd _ ih =>
    rcases List.mem_cons.mp hc with rfl | hc
    · exact hd.isAlphanum hb
    · exact ih hc

theorem not_isDigit {base : Nat} {c : Char} {d : Nat} (hb : base ≤ 16)
    (hc : digitValue? c = none) : ¬ IsDigit base c d := by
  rw [← digit?_eq_some_iff hb, digit?, hc]
  simp

end StackSteps.Text
