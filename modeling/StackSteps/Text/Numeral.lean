/-!
# Numerals

Natural numbers in a base up to sixteen: digits above nine are letters, read in either case and
written in lower case. `natural?` reads any spelling, leading zeros included, and `canonical?`
only the one that `decimal` writes. Main statements: `digit?_digitChar` and `natural?_toDigits`
(what is written reads back), `natural?_append_digit` (a further digit) and
`canonical?_eq_some_iff` (a number has one canonical spelling).
-/

namespace StackSteps.Text

/-- The value of a digit up to `f`, in either case. -/
def digitValue? (c : Char) : Option Nat :=
  if '0' ≤ c ∧ c ≤ '9' then some (c.toNat - 48)
  else if 'a' ≤ c ∧ c ≤ 'f' then some (c.toNat - 87)
  else if 'A' ≤ c ∧ c ≤ 'F' then some (c.toNat - 55)
  else none

def digit? (base : Nat) (c : Char) : Option Nat :=
  (digitValue? c).filter (· < base)

theorem digit?_lt {base : Nat} {c : Char} {d : Nat} (h : digit? base c = some d) : d < base := by
  simpa using (Option.filter_eq_some_iff.mp h).2

/-- The number that `high` becomes when a digit is written behind it. -/
def appendDigit? (base high : Nat) (c : Char) : Option Nat :=
  (digit? base c).map (base * high + ·)

def natural? (base : Nat) (cs : List Char) : Option Nat :=
  if cs = [] then none else cs.foldlM (appendDigit? base) 0

/-- Reads a decimal numeral that has no needless leading zero. -/
def canonical? (cs : List Char) : Option Nat :=
  if cs.head? = some '0' ∧ cs.length ≠ 1 then none else natural? 10 cs

def decimal (n : Nat) : String :=
  String.ofList (Nat.toDigits 10 n)

def integer : Int → String
  | .ofNat n => decimal n
  | .negSucc n => "-" ++ decimal (n + 1)

def hexadecimal (n : Nat) : String :=
  String.ofList (Nat.toDigits 16 n)

@[simp] theorem toList_decimal (n : Nat) : (decimal n).toList = Nat.toDigits 10 n := by
  simp [decimal]

@[simp] theorem toList_hexadecimal (n : Nat) : (hexadecimal n).toList = Nat.toDigits 16 n := by
  simp [hexadecimal]

theorem digit?_digitChar {base d : Nat} (hd : d < base) (hb : base ≤ 16) :
    digit? base d.digitChar = some d := by
  have hv : ∀ k : Fin 16, digitValue? k.val.digitChar = some k.val := by decide
  simp [digit?, hv ⟨d, by omega⟩, hd]

theorem natural?_append_digit (base : Nat) {cs : List Char} (hcs : cs ≠ []) (c : Char) :
    natural? base (cs ++ [c]) = (natural? base cs).bind (appendDigit? base · c) := by
  simp [natural?, hcs, List.foldlM_append]

/-- A written number reads back. -/
theorem natural?_toDigits {base : Nat} (hb : 1 < base) (hb' : base ≤ 16) (n : Nat) :
    natural? base (Nat.toDigits base n) = some n := by
  induction n using Nat.strongRecOn with
  | ind n ih =>
    by_cases hn : n < base
    · simp [Nat.toDigits_of_lt_base hn, natural?, appendDigit?, digit?_digitChar hn hb']
    · have hd : n % base < base := Nat.mod_lt _ (by omega)
      rw [Nat.toDigits_of_base_le hb (by omega),
        natural?_append_digit base Nat.toDigits_ne_nil,
        ih (n / base) (Nat.div_lt_self (by omega) hb)]
      simp [appendDigit?, digit?_digitChar hd hb', Nat.div_add_mod]

/-- A number other than zero is not written with a leading zero. -/
theorem head?_toDigits_ne_zero {n : Nat} (hn : n ≠ 0) : (Nat.toDigits 10 n).head? ≠ some '0' := by
  induction n using Nat.strongRecOn with
  | ind n ih =>
    by_cases h : n < 10
    · simpa [Nat.toDigits_of_lt_base h] using hn
    · rw [Nat.toDigits_of_base_le (by decide) (by omega), List.head?_append]
      have hh := ih (n / 10) (by omega) (by omega)
      cases hd : (Nat.toDigits 10 (n / 10)).head? with
      | none => simp [Nat.toDigits_ne_nil] at hd
      | some c => simpa [hd] using hh

theorem canonical?_toDigits (n : Nat) : canonical? (Nat.toDigits 10 n) = some n := by
  by_cases hn : n = 0
  · subst hn; decide
  · simp [canonical?, head?_toDigits_ne_zero hn, natural?_toDigits]

/-- A decimal digit is the one written for its value. -/
theorem eq_digitChar_of_digit? {c : Char} {d : Nat} (h : digit? 10 c = some d) :
    c = d.digitChar := by
  have hd := digit?_lt h
  simp only [digit?, Option.filter_eq_some_iff, digitValue?] at h
  obtain ⟨hv, -⟩ := h
  have hcode : c.toNat = 48 + d := by
    split at hv
    · rename_i hc
      have := hc.1
      simp only [Char.le_def, UInt32.le_iff_toNat_le] at this
      have h48 : 48 ≤ c.toNat := this
      simp only [Option.some.injEq] at hv
      omega
    · split at hv
      · rename_i _ hc
        have := hc.1
        simp only [Char.le_def, UInt32.le_iff_toNat_le] at this
        have h97 : 97 ≤ c.toNat := this
        simp only [Option.some.injEq] at hv
        omega
      · split at hv
        · rename_i _ _ hc
          have := hc.1
          simp only [Char.le_def, UInt32.le_iff_toNat_le] at this
          have h65 : 65 ≤ c.toNat := this
          simp only [Option.some.injEq] at hv
          omega
        · simp at hv
  rw [← Char.toNat_inj, hcode, Nat.toNat_digitChar_of_lt_ten hd]

/-- Digits read behind a positive number are the rest of the spelling of the result. -/
theorem toDigits_append_of_foldlM {cs : List Char} {high n : Nat} (hpos : 0 < high)
    (h : cs.foldlM (appendDigit? 10) high = some n) :
    Nat.toDigits 10 high ++ cs = Nat.toDigits 10 n := by
  induction cs generalizing high with
  | nil => simp_all
  | cons c cs ih =>
    simp only [List.foldlM_cons, appendDigit?, Option.bind_eq_bind, Option.bind_eq_some_iff,
      Option.map_eq_some_iff] at h
    obtain ⟨m, ⟨d, hd, rfl⟩, h⟩ := h
    have hlt := digit?_lt hd
    rw [← ih (by omega) h, ← Nat.toDigits_append_toDigits (by decide) hpos hlt,
      Nat.toDigits_of_lt_base hlt, ← eq_digitChar_of_digit? hd]
    simp

/-- Reading accepts exactly the canonical spelling. -/
theorem canonical?_eq_some_iff {cs : List Char} {n : Nat} :
    canonical? cs = some n ↔ cs = Nat.toDigits 10 n := by
  constructor
  · intro h
    simp only [canonical?, natural?] at h
    split at h
    · simp at h
    · rename_i hz
      cases cs with
      | nil => simp at h
      | cons c cs =>
        simp only [reduceCtorEq, if_false, List.foldlM_cons, appendDigit?, Nat.mul_zero,
          Nat.zero_add, Option.bind_eq_bind, Option.bind_eq_some_iff, Option.map_eq_some_iff] at h
        obtain ⟨m, ⟨d, hd, rfl⟩, h⟩ := h
        have hc := eq_digitChar_of_digit? hd
        rcases Nat.eq_zero_or_pos d with rfl | hpos
        · cases cs with
          | nil =>
            simp only [List.foldlM_nil, Option.pure_def, Option.some.injEq] at h
            subst h
            simp [hc]
          | cons e cs => simp [hc] at hz
        · rw [← toDigits_append_of_foldlM hpos h, Nat.toDigits_of_lt_base (digit?_lt hd), hc]
          simp
  · rintro rfl
    exact canonical?_toDigits n

end StackSteps.Text
