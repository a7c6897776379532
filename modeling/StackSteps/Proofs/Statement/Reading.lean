import StackSteps.Data.Except
import StackSteps.Proofs.Statement.Grammar

/-!
# What the readers of texts accept

Every reader of a text in `Statement/Operand` accepts exactly what the relation of the grammar for
it allows, with the value that the relation gives: a register name, a number, the text of a token
and the text of an address (`Address.ofChars_eq_ok_iff`).
-/
namespace StackSteps

theorem Register.general?_eq_some_iff {n : Nat} {r : Register} :
    Register.general? n = some r ↔ ∃ number : Fin 31, number.val = n ∧ r = .general number := by
  unfold Register.general?
  constructor
  · intro h
    split at h
    next hn => exact ⟨⟨n, hn⟩, rfl, (Option.some.inj h).symm⟩
    next => contradiction
  · rintro ⟨number, rfl, rfl⟩
    simp

theorem View.general?_eq_some_iff {cs : List Char} {r : Register} :
    View.general? cs = some r ↔
      ∃ number : Fin 31, cs = Nat.toDigits 10 number ∧ r = .general number := by
  simp only [View.general?, Option.bind_eq_some_iff, Text.canonical?_eq_some_iff,
    Register.general?_eq_some_iff]
  constructor
  · rintro ⟨n, rfl, number, rfl, rfl⟩
    exact ⟨number, rfl, rfl⟩
  · rintro ⟨number, rfl, rfl⟩
    exact ⟨number.val, rfl, number, rfl, rfl⟩

theorem View.ofChars?_eq_some_iff {cs : List Char} {v : View} :
    View.ofChars? cs = some v ↔ v.Spells cs := by
  constructor
  · intro h
    unfold View.ofChars? at h
    split at h
    · cases h
      exact .sp
    · cases h
      exact .fp
    · obtain ⟨r, hr, rfl⟩ := Option.map_eq_some_iff.mp h
      obtain ⟨number, rfl, rfl⟩ := View.general?_eq_some_iff.mp hr
      exact .whole number
    · obtain ⟨r, hr, rfl⟩ := Option.map_eq_some_iff.mp h
      obtain ⟨number, rfl, rfl⟩ := View.general?_eq_some_iff.mp hr
      exact .low number
    · contradiction
  · intro h
    cases h with
    | sp => rfl
    | fp => rfl
    | whole number => simp [View.ofChars?]
    | low number => simp [View.ofChars?]

theorem Immediate.magnitude?_eq_some_iff {cs : List Char} {n : Nat} {radix : Radix} :
    Immediate.magnitude? cs = some (n, radix) ↔ Immediate.Magnitude cs n radix := by
  constructor
  · intro h
    simp only [Immediate.magnitude?, Option.filter_eq_some_iff, decide_eq_true_eq] at h
    obtain ⟨h, hn⟩ := h
    split at h
    · obtain ⟨m, hm, he⟩ := Option.map_eq_some_iff.mp h
      cases he
      exact .hexadecimal (.inl rfl) ((Text.natural?_eq_some_iff (by decide)).mp hm) hn
    · obtain ⟨m, hm, he⟩ := Option.map_eq_some_iff.mp h
      cases he
      exact .hexadecimal (.inr rfl) ((Text.natural?_eq_some_iff (by decide)).mp hm) hn
    · obtain ⟨m, hm, he⟩ := Option.map_eq_some_iff.mp h
      cases he
      exact .decimal ((Text.natural?_eq_some_iff (by decide)).mp hm) hn
  · intro h
    cases h with
    | decimal h hn =>
      have hx : ∀ x rest, Text.digitValue? x = none → cs ≠ '0' :: x :: rest := by
        rintro x rest hx rfl
        obtain ⟨-, ds, hds, -⟩ := h
        cases hds with
        | cons _ hds =>
          cases hds with
          | cons hd _ => exact Text.not_isDigit (by decide) hx hd
      unfold Immediate.magnitude?
      split
      next rest => exact absurd rfl (hx 'x' rest (by decide))
      next rest => exact absurd rfl (hx 'X' rest (by decide))
      next => simpa [(Text.natural?_eq_some_iff (by decide)).mpr h] using hn
    | hexadecimal hx h hn =>
      have hread := (Text.natural?_eq_some_iff (by decide)).mpr h
      rcases hx with rfl | rfl
      · simpa [Immediate.magnitude?, hread] using hn
      · simpa [Immediate.magnitude?, hread] using hn

theorem Immediate.ofChars?_eq_some_iff {cs : List Char} {imm : Immediate} :
    Immediate.ofChars? cs = some imm ↔ imm.Spells cs := by
  constructor
  · intro h
    unfold Immediate.ofChars? at h
    split at h
    · obtain ⟨⟨n, radix⟩, hm, rfl⟩ := Option.map_eq_some_iff.mp h
      exact .minus (Immediate.magnitude?_eq_some_iff.mp hm)
    · obtain ⟨⟨n, radix⟩, hm, rfl⟩ := Option.map_eq_some_iff.mp h
      exact .plain (Immediate.magnitude?_eq_some_iff.mp hm)
  · intro h
    cases h with
    | plain h =>
      unfold Immediate.ofChars?
      split
      next rest =>
        have hminus := h.isAlphanum '-' List.mem_cons_self
        contradiction
      next => simp [Immediate.magnitude?_eq_some_iff.mpr h]
    | minus h => simp [Immediate.ofChars?, Immediate.magnitude?_eq_some_iff.mpr h]

theorem Token.view_eq_ok_iff {t : Token} {v : View} : t.view = .ok v ↔ v.Spells t := by
  rw [← View.ofChars?_eq_some_iff, Token.view]
  cases View.ofChars? t <;> simp

theorem Immediate.fits_iff {imm : Immediate} :
    imm.fits = true ↔ -2 ^ 63 ≤ imm.value ∧ imm.value < 2 ^ 64 := by
  simp [Immediate.fits]

theorem Token.operand_eq_ok_iff {t : Token} {o : Operand} : t.operand = .ok o ↔ o.Spells t := by
  constructor
  · intro h
    unfold Token.operand at h
    split at h
    · split at h
      next imm himm =>
        cases h
        obtain ⟨hread, hfits⟩ := Option.filter_eq_some_iff.mp himm
        obtain ⟨hlo, hhi⟩ := Immediate.fits_iff.mp hfits
        exact .immediate (Immediate.ofChars?_eq_some_iff.mp hread) hlo hhi
      next => contradiction
    · cases hview : t.view with
      | error cause => simp [hview, Except.map] at h
      | ok v =>
        simp only [hview, Except.map, Except.ok.injEq] at h
        subst h
        exact .register (Token.view_eq_ok_iff.mp hview)
  · intro h
    cases h with
    | register h =>
      unfold Token.operand
      split
      next literal =>
        have hsign := h.isAlphanum '#' List.mem_cons_self
        contradiction
      next => simp [Token.view_eq_ok_iff.mpr h, Except.map]
    | immediate h hlo hhi =>
      have hread := Immediate.ofChars?_eq_some_iff.mpr h
      have hfits := Immediate.fits_iff.mpr ⟨hlo, hhi⟩
      simp [Token.operand, hread, Option.filter_some, hfits]

theorem Address.offsetFits_iff {imm : Immediate} :
    Address.offsetFits imm = true ↔ ∃ offset : Int64, offset.toInt = imm.value := by
  simp only [Address.offsetFits, decide_eq_true_eq]
  constructor
  · rintro ⟨hlo, hhi⟩
    exact ⟨Int64.ofInt imm.value, Int64.toInt_ofInt_of_le hlo hhi⟩
  · rintro ⟨offset, h⟩
    have hlo := offset.le_toInt
    have hhi := offset.toInt_lt
    rw [← h]
    exact ⟨hlo, hhi⟩

/-- Behind the number sign, the reader of offsets looks for a number. -/
theorem Address.offsetOfChars_eq_ok_iff_of_literal {whole cs literal : List Char} {offset : Int64}
    (hcs : (if cs.head? = some '#' then cs.tail else cs) = literal) :
    Address.offsetOfChars whole cs = .ok offset ↔
      ∃ imm : Immediate, imm.Spells literal ∧ offset.toInt = imm.value := by
  unfold Address.offsetOfChars
  rw [hcs]
  cases literal with
  | nil =>
    simp only [reduceCtorEq, false_iff, not_exists, not_and]
    intro imm h
    have hread := Immediate.ofChars?_eq_some_iff.mpr h
    simp [Immediate.ofChars?, Immediate.magnitude?, Text.natural?] at hread
  | cons c literal =>
    simp only [← Immediate.ofChars?_eq_some_iff]
    cases Immediate.ofChars? (c :: literal) with
    | none => simp
    | some imm =>
      by_cases hfits : Address.offsetFits imm = true
      · obtain ⟨o, ho⟩ := Address.offsetFits_iff.mp hfits
        simp [Option.filter_some, hfits, ← ho, Int64.toInt_inj, eq_comm]
      · have hnot := mt Address.offsetFits_iff.mpr hfits
        simp [Option.filter_some, hfits]
        exact fun h => hnot ⟨offset, h⟩

theorem Address.offsetOfChars_eq_ok_iff {whole cs : List Char} {offset : Int64} :
    Address.offsetOfChars whole cs = .ok offset ↔ Address.OffsetSpells cs offset := by
  constructor
  · intro h
    by_cases hsign : cs.head? = some '#'
    · obtain ⟨imm, himm, hoffset⟩ :=
        (Address.offsetOfChars_eq_ok_iff_of_literal (if_pos hsign)).mp h
      obtain ⟨ds, rfl⟩ := List.head?_eq_some_iff.mp hsign
      exact .signed himm hoffset
    · obtain ⟨imm, himm, hoffset⟩ :=
        (Address.offsetOfChars_eq_ok_iff_of_literal (if_neg hsign)).mp h
      exact .plain himm hoffset
  · intro h
    cases h with
    | signed himm hoffset =>
      exact (Address.offsetOfChars_eq_ok_iff_of_literal (if_pos rfl)).mpr ⟨_, himm, hoffset⟩
    | plain himm hoffset =>
      have hsign : cs.head? ≠ some '#' := by
        intro hsign
        have hmem := himm.isAlphanum '#' (List.mem_of_mem_head? hsign)
        simp at hmem
      exact (Address.offsetOfChars_eq_ok_iff_of_literal (if_neg hsign)).mpr ⟨_, himm, hoffset⟩

theorem Address.unbracket?_eq_some_iff {cs inner : List Char} :
    Address.unbracket? cs = some inner ↔ cs = '[' :: inner ++ [']'] := by
  constructor
  · intro h
    unfold Address.unbracket? at h
    split at h
    next ds =>
      split at h
      next hlast =>
        obtain ⟨init, rfl⟩ := List.getLast?_eq_some_iff.mp hlast
        rw [List.dropLast_concat] at h
        cases h
        rfl
      next => contradiction
    next => contradiction
  · rintro rfl
    simp [Address.unbracket?]

/-- Once the brackets are found, the text between them decides. -/
theorem Address.ofChars_eq_ok_iff_of_inner {text inner : List Char} {a : Address}
    (hinner : Address.unbracket?
      (if text.getLast? = some '!' then text.dropLast else text) = some inner) :
    Address.ofChars text = .ok a ↔
      Address.Between inner a.base a.offset ∧ a.writeback = decide (text.getLast? = some '!') := by
  obtain ⟨v, offset, writeback⟩ := a
  unfold Address.ofChars
  simp only [decide_eq_true_eq, hinner]
  constructor
  · intro h
    have hjoin : [','].intercalate (inner.splitOn ',') = inner := List.intercalate_splitOn ','
    split at h
    next => contradiction
    next base hs =>
      obtain ⟨u, hu, h⟩ := bind_eq_ok_iff.mp h
      cases h
      rw [hs, List.intercalate_singleton] at hjoin
      rw [← hjoin]
      exact ⟨.base (Token.view_eq_ok_iff.mp hu), rfl⟩
    next base ds more hs =>
      obtain ⟨u, hu, h⟩ := bind_eq_ok_iff.mp h
      obtain ⟨o, ho, h⟩ := bind_eq_ok_iff.mp h
      by_cases hmore : more = []
      · simp only [hmore, ne_eq, not_true_eq_false, if_false] at h
        cases h
        rw [hs, hmore, List.intercalate_cons_cons, List.intercalate_singleton] at hjoin
        rw [← hjoin, List.append_assoc]
        exact ⟨.offset (Token.view_eq_ok_iff.mp hu) (Address.offsetOfChars_eq_ok_iff.mp ho), rfl⟩
      · simp only [hmore, ne_eq, not_false_eq_true, if_true] at h
        contradiction
  · rintro ⟨h, rfl⟩
    cases h with
    | base h =>
      have hcomma : ',' ∉ inner := h.not_mem (by decide)
      rw [List.splitOn_eq_singleton hcomma]
      simp [Token.view_eq_ok_iff.mpr h, bind, Except.bind, pure, Except.pure]
    | @offset cs ds _ _ h ho =>
      have hcomma : ',' ∉ cs := h.not_mem (by decide)
      have hcomma' : ',' ∉ ds := ho.not_mem (by decide)
      rw [List.splitOn_append_cons_self_of_not_mem hcomma, List.splitOn_eq_singleton hcomma']
      simp [Token.view_eq_ok_iff.mpr h, Address.offsetOfChars_eq_ok_iff.mpr ho, bind, Except.bind,
        pure, Except.pure]

theorem Address.ofChars_eq_ok_iff {text : List Char} {a : Address} :
    Address.ofChars text = .ok a ↔ a.Spells text := by
  constructor
  · intro h
    obtain ⟨v, offset, writeback⟩ := a
    cases hinner : Address.unbracket?
        (if text.getLast? = some '!' then text.dropLast else text) with
    | none =>
      simp only [Address.ofChars, decide_eq_true_eq, hinner] at h
      contradiction
    | some inner =>
      obtain ⟨hbetween, rfl⟩ := (Address.ofChars_eq_ok_iff_of_inner hinner).mp h
      have htext := Address.unbracket?_eq_some_iff.mp hinner
      by_cases hlast : text.getLast? = some '!'
      · obtain ⟨init, rfl⟩ := List.getLast?_eq_some_iff.mp hlast
        rw [if_pos hlast, List.dropLast_concat] at htext
        rw [htext, List.getLast?_concat]
        exact .writeback hbetween
      · rw [if_neg hlast] at htext
        rw [decide_eq_false hlast, htext]
        exact .plain hbetween
  · intro h
    cases h with
    | @plain cs _ _ h =>
      have hlast : ('[' :: cs ++ [']']).getLast? ≠ some '!' := by
        rw [List.getLast?_concat]
        decide
      have hinner := Address.unbracket?_eq_some_iff.mpr (rfl : '[' :: cs ++ [']'] = _)
      rw [Address.ofChars_eq_ok_iff_of_inner (by rw [if_neg hlast]; exact hinner)]
      exact ⟨h, (decide_eq_false hlast).symm⟩
    | @writeback cs _ _ h =>
      have hlast : ('[' :: cs ++ [']'] ++ ['!']).getLast? = some '!' := List.getLast?_concat
      have hinner := Address.unbracket?_eq_some_iff.mpr (rfl : '[' :: cs ++ [']'] = _)
      rw [Address.ofChars_eq_ok_iff_of_inner
        (by rw [if_pos hlast, List.dropLast_concat]; exact hinner)]
      exact ⟨h, (decide_eq_true hlast).symm⟩

end StackSteps
