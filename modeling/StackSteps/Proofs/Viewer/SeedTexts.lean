import Mathlib
import StackSteps.Viewer

/-!
# Texts of starting values

The viewer reads the number of a starting value with a reader of its own, digit by digit and only as
long as it is that of a word. It reads the same numbers from the same texts as the decoder of lines
does from immediates without a sign (`seedValue?_eq_some_iff`), and so a starting value is taken if
and only if its text is an immediate without a sign (`readSeed_of_immediate`).
-/
namespace StackSteps

/-- The texts of words are the magnitudes of immediates. -/
theorem seedValue?_eq_some_iff {cs : List Char} {v : Word} :
    seedValue? cs = some v ↔ ∃ radix, Immediate.magnitude? cs = some (v.toNat, radix) := by
  have hread : ∀ base digits, 1 < base →
      ((Word.ofDigits base digits).toOption = some v ↔
        Text.natural? base digits = some v.toNat) := by
    intro base digits hb
    rw [← Word.ofDigits_eq_ok_iff hb]
    cases Word.ofDigits base digits <;> simp [Except.toOption]
  have hlt : v.toNat < 18446744073709551616 := v.toNat_lt
  unfold seedValue? Immediate.magnitude?
  split
  · rw [hread _ _ (by decide)]
    simp [Option.filter_eq_some_iff, hlt]
  · rw [hread _ _ (by decide)]
    simp [Option.filter_eq_some_iff, hlt]
  · rw [hread _ _ (by decide)]
    simp [Option.filter_eq_some_iff, hlt]

/-- Without a sign an immediate is a magnitude, and so below two to the sixty-fourth power. -/
theorem Immediate.ofChars?_eq_some_iff_of_unsigned {cs : List Char} (h : cs.head? ≠ some '-')
    {imm : Immediate} :
    Immediate.ofChars? cs = some imm ↔
      ∃ n radix, Immediate.magnitude? cs = some (n, radix) ∧ n < 2 ^ 64 ∧ imm = ⟨n, radix⟩ := by
  have hunsigned : Immediate.ofChars? cs =
      (Immediate.magnitude? cs).map fun magnitude => ⟨magnitude.1, magnitude.2⟩ := by
    unfold Immediate.ofChars?
    split
    · exact absurd rfl h
    · rfl
  rw [hunsigned, Option.map_eq_some_iff, Prod.exists]
  refine exists_congr fun n => exists_congr fun radix => and_congr_right fun hread => ?_
  have hlt : n < 2 ^ 64 := by
    simpa using (Option.filter_eq_some_iff.mp hread).2
  rw [and_iff_right hlt, eq_comm]

theorem seedValue?_eq_some_iff_of_unsigned {cs : List Char} (h : cs.head? ≠ some '-') {v : Word} :
    seedValue? cs = some v ↔ ∃ imm, Immediate.ofChars? cs = some imm ∧ imm.value = v.toNat := by
  simp only [seedValue?_eq_some_iff, Immediate.ofChars?_eq_some_iff_of_unsigned h]
  constructor
  · rintro ⟨radix, hread⟩
    exact ⟨⟨v.toNat, radix⟩, ⟨v.toNat, radix, hread, v.toNat_lt, rfl⟩, rfl⟩
  · rintro ⟨_, ⟨n, radix, hread, -, rfl⟩, hvalue⟩
    have hn : n = v.toNat := Int.ofNat.inj hvalue
    exact ⟨radix, hn ▸ hread⟩

/-- A minus sign is no digit. -/
theorem seedValue?_minus (cs : List Char) : seedValue? ('-' :: cs) = none := by
  have hdigit : Text.digit? 10 '-' = none := by
    decide
  have hminus : Text.natural? 10 ('-' :: cs) = none := by
    simp [Text.natural?, Text.appendDigit?, hdigit]
  rw [Option.eq_none_iff_forall_ne_some]
  intro v h
  obtain ⟨radix, h⟩ := seedValue?_eq_some_iff.mp h
  simp [Immediate.magnitude?, hminus] at h

section readSeed

variable {name : String} {r : Register} (value : String)

theorem readSeed_eq_ok_iff (h : Register.read name = .ok r) {v : Word} :
    readSeed name value = .ok (r, v) ↔ seedValue? value.toList = some v := by
  simp only [readSeed, h]
  cases seedValue? value.toList <;> simp

theorem readSeed_eq_invalidValue (h : Register.read name = .ok r)
    (hvalue : seedValue? value.toList = none) : readSeed name value = .error .invalidValue := by
  simp only [readSeed, h, hvalue]

theorem readSeed_eq_unknownRegister (h : ∀ r, Register.read name ≠ .ok r) :
    readSeed name value = .error .unknownRegister := by
  unfold readSeed
  split
  · rfl
  next r hr => exact absurd hr (h r)

end readSeed

/-- The name is looked at first. If it is that of a whole register, a text that does not start with
a minus sign is taken if and only if it is an immediate, with the value of that, which is the number
of a word; any other text is no value. If it is not, the text does not count. -/
theorem readSeed_of_immediate (name value : String) :
    (∀ r, Register.read name = .ok r →
      (value.toList.head? ≠ some '-' →
        (∀ u, readSeed name value = .ok (r, u) ↔
          ∃ imm, Immediate.ofChars? value.toList = some imm ∧ imm.value = u.toNat) ∧
        (∀ imm, Immediate.ofChars? value.toList = some imm →
          0 ≤ imm.value ∧ imm.value < 2 ^ 64) ∧
        (Immediate.ofChars? value.toList = none → readSeed name value = .error .invalidValue)) ∧
      (value.toList.head? = some '-' → readSeed name value = .error .invalidValue)) ∧
    ((∀ r, Register.read name ≠ .ok r) → readSeed name value = .error .unknownRegister) := by
  refine ⟨fun r hr => ⟨fun hhead => ⟨fun u => ?_, fun imm himm => ?_, fun hnone => ?_⟩,
    fun hhead => ?_⟩, readSeed_eq_unknownRegister value⟩
  · rw [readSeed_eq_ok_iff value hr, seedValue?_eq_some_iff_of_unsigned hhead]
  · obtain ⟨n, radix, -, hlt, rfl⟩ := (Immediate.ofChars?_eq_some_iff_of_unsigned hhead).mp himm
    constructor
    · exact Int.natCast_nonneg n
    · show (n : Int) < 2 ^ 64
      exact_mod_cast hlt
  · refine readSeed_eq_invalidValue value hr (Option.eq_none_iff_forall_ne_some.mpr fun v hv => ?_)
    obtain ⟨imm, himm, -⟩ := (seedValue?_eq_some_iff_of_unsigned hhead).mp hv
    simp [hnone] at himm
  · obtain ⟨cs, hcs⟩ := List.head?_eq_some_iff.mp hhead
    refine readSeed_eq_invalidValue value hr ?_
    rw [hcs, seedValue?_minus]

/-- Leading zeros and digits in both cases are read; a plus sign and one past the largest word are
not, and a minus sign is read in lines alone. The name of a low half is none of a register. -/
theorem readSeed_of_signs_and_zeros :
    Register.read "x7" = .ok (.general 7) ∧
    readSeed "x7" "0X00fF" = .ok (.general 7, 255) ∧
    readSeed "x7" "+5" = .error .invalidValue ∧
    readSeed "x7" "18446744073709551616" = .error .invalidValue ∧
    Immediate.ofChars? "-0".toList = some ⟨0, .decimal⟩ ∧
    readSeed "x7" "-0" = .error .invalidValue ∧
    readSeed "w7" "5" = .error .unknownRegister := by
  have hname : Register.read "x7" = .ok (.general 7) := by
    decide +kernel
  have himm : Immediate.ofChars? "0X00fF".toList = some ⟨255, .hexadecimal⟩ := by
    decide +kernel
  have hlow : ∀ r, Register.read "w7" ≠ .ok r := by
    have hunknown : Register.read "w7" = .error ⟨"w7"⟩ := by
      decide +kernel
    simp [hunknown]
  obtain ⟨hzeros, -, -⟩ :=
    ((readSeed_of_immediate "x7" "0X00fF").1 _ hname).1 (by decide +kernel)
  obtain ⟨-, -, hplus⟩ := ((readSeed_of_immediate "x7" "+5").1 _ hname).1 (by decide +kernel)
  obtain ⟨-, -, hlarge⟩ :=
    ((readSeed_of_immediate "x7" "18446744073709551616").1 _ hname).1 (by decide +kernel)
  obtain ⟨-, hminus⟩ := (readSeed_of_immediate "x7" "-0").1 _ hname
  refine ⟨hname, (hzeros 255).mpr ⟨_, himm, rfl⟩, hplus (by decide +kernel),
    hlarge (by decide +kernel), by decide +kernel, hminus (by decide +kernel), ?_⟩
  exact (readSeed_of_immediate "w7" "5").2 hlow

end StackSteps
