import StackSteps.Word

/-!
# The text of a word

A word is written in decimal, or in hexadecimal with or without leading zeros. It is read from
digits from left to right, and the first fault met is reported. Main statements:
`digits_eq_ok_iff` and `ofDigits_eq_ok_iff` (what the digit-by-digit reader accepts) and
`read_decimal` (a written word reads back).
-/

namespace StackSteps.Word

/-- Why a text is no word. -/
inductive TextFault where
  | empty
  | strayCharacter
  | tooLarge
deriving DecidableEq

def TextFault.message : TextFault → String
  | empty => "cannot parse integer from empty string"
  | strayCharacter => "invalid digit found in string"
  | tooLarge => "number too large to fit in target type"

/-- Reads the digits behind a number, as long as the number is that of a word. -/
def digits (base : Nat) (high : Nat) : List Char → Except TextFault Nat
  | [] => .ok high
  | c :: cs =>
    match Text.appendDigit? base high c with
    | none => .error .strayCharacter
    | some n => if n < 18446744073709551616 then digits base n cs else .error .tooLarge

def ofDigits (base : Nat) (cs : List Char) : Except TextFault Word :=
  if cs = [] then .error .empty else (digits base 0 cs).map UInt64.ofNat

/-- Reads a decimal number, which may have a plus sign in front. -/
def read (text : String) : Except TextFault Word :=
  match text.toList with
  | ['+'] => .error .strayCharacter
  | '+' :: cs => ofDigits 10 cs
  | cs => ofDigits 10 cs

def decimal (v : Word) : String :=
  Text.decimal v.toNat

def hexadecimal (v : Word) : String :=
  Text.hexadecimal v.toNat

/-- The hexadecimal text with all sixteen digits. -/
def padded (v : Word) : String :=
  "0x" ++ String.ofList ((Nat.toDigits 16 v.toNat).leftpad 16 '0')

theorem le_of_foldlM {base high n : Nat} (hb : 1 < base) {cs : List Char}
    (h : cs.foldlM (Text.appendDigit? base) high = some n) : high ≤ n := by
  induction cs generalizing high with
  | nil => simp_all
  | cons c cs ih =>
    simp only [List.foldlM_cons, Text.appendDigit?, Option.bind_eq_bind,
      Option.bind_eq_some_iff, Option.map_eq_some_iff] at h
    obtain ⟨m, ⟨d, -, rfl⟩, h⟩ := h
    have hle := ih h
    have hmul : high ≤ base * high := Nat.le_mul_of_pos_left high (by omega)
    omega

/-- The digit-by-digit reader accepts the numerals whose number is that of a word. -/
theorem digits_eq_ok_iff {base high n : Nat} (hb : 1 < base) 
    (hhigh : high < 18446744073709551616) {cs : List Char} :
    digits base high cs = .ok n ↔
      cs.foldlM (Text.appendDigit? base) high = some n ∧ n < 18446744073709551616 := by
  induction cs generalizing high with
  | nil =>
    simp only [digits, Except.ok.injEq, List.foldlM_nil, Option.pure_def, Option.some.injEq]
    exact ⟨fun h => ⟨h, h ▸ hhigh⟩, And.left⟩
  | cons c cs ih =>
    rw [digits, List.foldlM_cons]
    cases hc : Text.appendDigit? base high c with
    | none => simp
    | some m =>
      simp only [Option.bind_eq_bind, Option.bind_some]
      split
      · rename_i hm
        exact ih hm
      · rename_i hm
        simp only [reduceCtorEq, false_iff, not_and, Nat.not_lt]
        exact fun h => Nat.le_trans (Nat.not_lt.mp hm) (le_of_foldlM hb h)

/-- Digits are read as a word if and only if they are a numeral of its number. -/
theorem ofDigits_eq_ok_iff {base : Nat} (hb : 1 < base) {cs : List Char} {v : Word} :
    ofDigits base cs = .ok v ↔ Text.natural? base cs = some v.toNat := by
  unfold ofDigits Text.natural?
  by_cases hcs : cs = []
  · simp [hcs]
  · rw [if_neg hcs, if_neg hcs]
    have hdigits : ∀ n, digits base 0 cs = .ok n ↔ _ := fun n => digits_eq_ok_iff hb (by decide)
    constructor
    · intro h
      cases hn : digits base 0 cs with
      | error fault => simp [hn, Except.map] at h
      | ok n =>
        obtain ⟨hread, hlt⟩ := (hdigits n).mp hn
        simp only [hn, Except.map, Except.ok.injEq] at h
        rw [hread, ← h, UInt64.toNat_ofNat_of_lt' hlt]
    · intro h
      simp [(hdigits v.toNat).mpr ⟨h, v.toNat_lt⟩, Except.map]

theorem ofDigits_toDigits {base : Nat} (hb : 1 < base) (hb' : base ≤ 16) (v : Word) :
    ofDigits base (Nat.toDigits base v.toNat) = .ok v :=
  (ofDigits_eq_ok_iff hb).mpr (Text.natural?_toDigits hb hb' v.toNat)

theorem read_decimal (v : Word) : read (decimal v) = .ok v := by
  have hplus : '+' ∉ Nat.toDigits 10 v.toNat := fun h => by
    simpa using Nat.isDigit_of_mem_toDigits (by decide) (by decide) h
  rw [read, decimal, Text.toList_decimal]
  split
  · rename_i h
    simp [h] at hplus
  · rename_i h
    simp [h] at hplus
  · exact ofDigits_toDigits (by decide) (by decide) v

end StackSteps.Word
