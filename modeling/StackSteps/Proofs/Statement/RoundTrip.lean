import StackSteps.Proofs.Statement.Acceptance

/-!
# Printing and reading back

The instructions that a line can say are those whose views have names, whose immediates fit and
whose byte accesses are without writeback. Each is read back from its own text
(`Instruction.decode_text_iff`): the text falls into the mnemonic and the operand tokens, with the
commas at the ends of tokens, and the operand tokens spell the instruction. For the converse it is
enough that what a line spells can be written.
-/
namespace StackSteps

/-- The low half of a register can be named if the register is a general one. -/
def View.Writable (v : View) : Prop :=
  v.width = .w → ∃ number, v.register = .general number

def Operand.Writable : Operand → Prop
  | .register v => v.Writable
  | .immediate imm => -2 ^ 63 ≤ imm.value ∧ imm.value < 2 ^ 64

def Instruction.Writable : Instruction → Prop
  | .add dst lhs rhs | .sub dst lhs rhs => dst.Writable ∧ lhs.Writable ∧ rhs.Writable
  | .mov dst src => dst.Writable ∧ src.Writable
  | .strb register address | .ldrb register address =>
    register.Writable ∧ address.base.Writable ∧ address.writeback = false
  | .stp first second address => first.Writable ∧ second.Writable ∧ address.base.Writable

theorem View.Spells.writable {cs : List Char} {v : View} (h : v.Spells cs) : v.Writable := by
  intro hw
  cases h with
  | sp => contradiction
  | fp => contradiction
  | whole => contradiction
  | low number => exact ⟨number, rfl⟩

theorem View.spells_name {v : View} (h : v.Writable) : v.Spells v.name.toList := by
  rw [← View.ofChars?_eq_some_iff]
  apply View.ofChars?_name
  obtain ⟨r, width⟩ := v
  cases width with
  | x => rfl
  | w =>
    obtain ⟨number, hr⟩ := h rfl
    have hr : r = .general number := hr
    rw [hr]
    rfl

theorem Immediate.spells_integer {value : Int} (hlo : -2 ^ 64 < value) (hhi : value < 2 ^ 64) :
    Immediate.Spells (Text.integer value).toList ⟨value, .decimal⟩ := by
  have hmagnitude : ∀ n : Nat, n < 2 ^ 64 →
      Immediate.Magnitude (Nat.toDigits 10 n) n .decimal := by
    intro n hn
    exact .decimal (Text.numeral_toDigits (by decide) (by decide) n) hn
  cases value with
  | ofNat n =>
    have hn : n < 2 ^ 64 := Int.ofNat_lt.mp hhi
    rw [Text.integer, Text.toList_decimal]
    exact .plain (hmagnitude n hn)
  | negSucc n =>
    have hn : n + 1 < 2 ^ 64 := by omega
    have hminus := Immediate.Spells.minus (hmagnitude (n + 1) hn)
    rw [Text.integer, String.toList_append, Text.toList_decimal]
    exact hminus

/-- An immediate is read back from what is printed behind the number sign. -/
theorem Immediate.exists_spells_text {imm : Immediate} (hlo : -2 ^ 63 ≤ imm.value)
    (hhi : imm.value < 2 ^ 64) : ∃ cs, imm.text.toList = '#' :: cs ∧ imm.Spells cs := by
  have hmagnitude : ∀ n : Nat, n < 2 ^ 64 →
      Immediate.Magnitude ('0' :: 'x' :: Nat.toDigits 16 n) n .hexadecimal := by
    intro n hn
    exact .hexadecimal (.inl rfl) (Text.numeral_toDigits (by decide) (by decide) n) hn
  obtain ⟨value, radix⟩ := imm
  have hlo : -2 ^ 63 ≤ value := hlo
  cases radix with
  | decimal =>
    refine ⟨(Text.integer value).toList, ?_, Immediate.spells_integer (by omega) hhi⟩
    simp [Immediate.text]
  | hexadecimal =>
    cases value with
    | ofNat n =>
      have hn : n < 2 ^ 64 := Int.ofNat_lt.mp hhi
      refine ⟨_, ?_, .plain (hmagnitude n hn)⟩
      simp [Immediate.text]
    | negSucc n =>
      have hn : n + 1 < 2 ^ 64 := by omega
      refine ⟨_, ?_, .minus (hmagnitude (n + 1) hn)⟩
      simp [Immediate.text]

theorem Operand.spells_text {o : Operand} (h : o.Writable) : o.Spells o.text.toList := by
  cases o with
  | register v => exact .register (View.spells_name h)
  | immediate imm =>
    obtain ⟨hlo, hhi⟩ := h
    obtain ⟨cs, htext, hcs⟩ := Immediate.exists_spells_text hlo hhi
    rw [Operand.text, htext]
    exact .immediate hcs hlo hhi

theorem Operand.gives_text {o : Operand} (h : o.Writable) : Token.Gives o.text.toList o :=
  ⟨o.text.toList, .inl rfl, spells_text h⟩

theorem Operand.Spells.writable {cs : List Char} {o : Operand} (h : o.Spells cs) :
    o.Writable := by
  cases h with
  | register h => exact h.writable
  | immediate _ hlo hhi => exact ⟨hlo, hhi⟩

theorem Address.Spells.writable {cs : List Char} {a : Address} (h : a.Spells cs) :
    a.base.Writable := by
  have hbetween : ∀ {ds : List Char} {v : View} {offset : Int64},
      Address.Between ds v offset → v.Writable := by
    intro ds v offset hds
    cases hds with
    | base hv => exact hv.writable
    | offset hv _ => exact hv.writable
  cases h with
  | plain h => exact hbetween h
  | writeback h => exact hbetween h

theorem Token.Names.writable {t : Token} {v : View} (h : t.Names v) : v.Writable := by
  obtain ⟨text, -, htext⟩ := h
  exact htext.writable

theorem Token.Gives.writable {t : Token} {o : Operand} (h : t.Gives o) : o.Writable := by
  obtain ⟨text, -, htext⟩ := h
  exact htext.writable

theorem Address.SpelledBy.writable {a : Address} {us : List Token} (h : a.SpelledBy us) :
    a.base.Writable := by
  cases h with
  | one _ _ h => exact h.writable
  | two _ _ h => exact h.writable

/-- Whatever a line spells can be written. -/
theorem Instruction.SpelledBy.writable {i : Instruction} {ts : List Token}
    (h : i.SpelledBy ts) : i.Writable := by
  cases i with
  | add dst lhs rhs | sub dst lhs rhs =>
    obtain ⟨t, u, s, -, ht, hu, hs⟩ := h
    exact ⟨ht.writable, hu.writable, hs.writable⟩
  | mov dst src =>
    obtain ⟨t, s, -, ht, hs⟩ := h
    exact ⟨ht.writable, hs.writable⟩
  | strb register address | ldrb register address =>
    obtain ⟨t, us, -, ht, ha, hw⟩ := h
    exact ⟨ht.writable, ha.writable, hw⟩
  | stp first second address =>
    obtain ⟨t, u, us, -, ht, hu, ha⟩ := h
    exact ⟨ht.writable, hu.writable, ha.writable⟩

/-- The characters that instructions are written with. None is blank, and each is one byte. -/
def IsPlain (c : Char) : Prop :=
  c.isAlphanum = true ∨ c ∈ ['-', '#', ',', '[', ']', '!']

theorem IsPlain.toNat_bounds {c : Char} (h : IsPlain c) : 33 ≤ c.toNat ∧ c.toNat ≤ 126 := by
  rcases h with h | h
  · simp only [Char.isAlphanum, Char.isAlpha, Char.isUpper, Char.isLower, Char.isDigit,
      Bool.or_eq_true, Bool.and_eq_true, decide_eq_true_eq, ge_iff_le, UInt32.le_iff_toNat_le,
      Char.reduceVal, UInt32.reduceToNat, Char.toNat_val] at h
    omega
  · simp only [List.mem_cons, List.not_mem_nil, or_false] at h
    rcases h with rfl | rfl | rfl | rfl | rfl | rfl <;> decide

theorem IsPlain.isBlank_eq_false {c : Char} (h : IsPlain c) : Text.isBlank c = false := by
  obtain ⟨hlo, hhi⟩ := h.toNat_bounds
  simp [Text.isBlank, Text.blankRanges]
  omega

theorem IsPlain.utf8Size_eq_one {c : Char} (h : IsPlain c) : c.utf8Size = 1 := by
  have hhi : c.toNat ≤ 126 := h.toNat_bounds.2
  rw [Char.utf8Size_eq_one_iff, UInt32.le_iff_toNat_le]
  exact Nat.le_succ_of_le hhi

/-- The token is not empty and has none but these characters. -/
def Token.Plain (t : Token) : Prop :=
  t ≠ [] ∧ ∀ c ∈ t, IsPlain c

theorem Token.utf8ByteSize_of_isPlain {t : Token} (h : ∀ c ∈ t, IsPlain c) :
    (String.ofList t).utf8ByteSize = t.length := by
  induction t with
  | nil => rfl
  | cons c t ih =>
    have hc : c.utf8Size = 1 := (h c List.mem_cons_self).utf8Size_eq_one
    have ht := ih fun d hd => h d (List.mem_cons_of_mem c hd)
    rw [utf8ByteSize_ofList_cons, hc, ht, List.length_cons, Nat.add_comm]

theorem View.Spells.isPlain {cs : List Char} {v : View} (h : v.Spells cs) :
    ∀ c ∈ cs, IsPlain c :=
  fun c hc => .inl (h.isAlphanum c hc)

theorem Immediate.Spells.isPlain {cs : List Char} {imm : Immediate} (h : imm.Spells cs) :
    ∀ c ∈ cs, IsPlain c := by
  intro c hc
  rcases h.isAlphanum c hc with hc | rfl
  · exact .inl hc
  · exact .inr (by decide)

theorem Operand.Spells.plain {t : Token} {o : Operand} (h : o.Spells t) : t.Plain := by
  cases h with
  | register h =>
    refine ⟨?_, h.isPlain⟩
    cases h <;> simp
  | immediate h _ _ =>
    exact ⟨List.cons_ne_nil _ _, List.forall_mem_cons.mpr ⟨.inr (by decide), h.isPlain⟩⟩

namespace View

/-- The token in which a register is printed in front of further operands. -/
def commaToken (v : View) : Token :=
  v.name.toList ++ [',']

theorem names_commaToken {v : View} (h : v.Writable) : v.commaToken.Names v :=
  ⟨v.name.toList, .inr rfl, spells_name h⟩

theorem plain_commaToken {v : View} (h : v.Writable) : v.commaToken.Plain := by
  have hcomma : ∀ c ∈ [','], IsPlain c := by simp [IsPlain]
  refine ⟨by simp [commaToken], ?_⟩
  exact List.forall_mem_append.mpr ⟨(spells_name h).isPlain, hcomma⟩

theorem length_name_le (v : View) : v.name.toList.length ≤ 3 := by
  have hdigits : ∀ number : Fin 31, (Nat.toDigits 10 number).length ≤ 2 := by
    intro number
    have hlt : number.val < 10 ^ 2 := by omega
    exact (Nat.length_toDigits_le_iff (by decide) (by decide)).mpr hlt
  obtain ⟨r, width⟩ := v
  cases r with
  | general number =>
    have hlen := hdigits number
    cases width <;> simp [name, Register.name] <;> omega
  | sp => cases width <;> decide
  | fp => cases width <;> decide

end View

namespace Address

/-- The first of the two tokens in which an address is printed. -/
def baseToken (a : Address) : Token :=
  '[' :: a.base.commaToken

def offsetToken (a : Address) : Token :=
  '#' :: (Text.integer a.offset.toInt).toList ++ [']'] ++ if a.writeback then ['!'] else []

theorem spells_offset (offset : Int64) :
    Immediate.Spells (Text.integer offset.toInt).toList ⟨offset.toInt, .decimal⟩ := by
  have hlo := offset.le_toInt
  have hhi := offset.toInt_lt
  exact Immediate.spells_integer (by omega) (by omega)

theorem length_integer_le (offset : Int64) : (Text.integer offset.toInt).toList.length ≤ 20 := by
  have hdigits : ∀ n : Nat, n < 10 ^ 19 → (Nat.toDigits 10 n).length ≤ 19 := by
    intro n hn
    exact (Nat.length_toDigits_le_iff (by decide) (by decide)).mpr hn
  have hlo := offset.le_toInt
  have hhi := offset.toInt_lt
  generalize offset.toInt = value at hlo hhi
  cases value with
  | ofNat n =>
    have hn : n < 2 ^ 63 := Int.ofNat_lt.mp hhi
    have hlen := hdigits n (by omega)
    simp [Text.integer]
    omega
  | negSucc n =>
    have hlen := hdigits (n + 1) (by omega)
    simp [Text.integer]
    omega

theorem plain_baseToken {a : Address} (h : a.base.Writable) : a.baseToken.Plain :=
  ⟨List.cons_ne_nil _ _,
    List.forall_mem_cons.mpr ⟨.inr (by decide), (View.plain_commaToken h).2⟩⟩

theorem plain_offsetToken (a : Address) : a.offsetToken.Plain := by
  have hnumber : ∀ c ∈ '#' :: (Text.integer a.offset.toInt).toList, IsPlain c :=
    List.forall_mem_cons.mpr ⟨.inr (by decide), (spells_offset a.offset).isPlain⟩
  have hbracket : ∀ c ∈ [']'], IsPlain c := by simp [IsPlain]
  have hmark : ∀ c ∈ if a.writeback then ['!'] else [], IsPlain c := by
    split
    · simp [IsPlain]
    · simp
  refine ⟨List.cons_ne_nil _ _, ?_⟩
  unfold offsetToken
  exact List.forall_mem_append.mpr ⟨List.forall_mem_append.mpr ⟨hnumber, hbracket⟩, hmark⟩

theorem short_tokens {a : Address} (h : a.base.Writable) :
    Token.Short (a.baseToken ++ a.offsetToken) := by
  have hplain := List.forall_mem_append.mpr ⟨(plain_baseToken h).2, (plain_offsetToken a).2⟩
  have hname := View.length_name_le a.base
  have hoffset := length_integer_le a.offset
  have hmark : (if a.writeback then ['!'] else []).length ≤ 1 := by
    split
    · decide
    · decide
  rw [Token.Short, Token.utf8ByteSize_of_isPlain hplain]
  simp only [baseToken, View.commaToken, offsetToken, List.length_append, List.length_cons,
    List.length_nil]
  omega

theorem spells_tokens {a : Address} (h : a.base.Writable) :
    a.Spells (a.baseToken ++ a.offsetToken) := by
  obtain ⟨v, offset, writeback⟩ := a
  have hbetween := Between.offset (View.spells_name h) (.signed (spells_offset offset) rfl)
  cases writeback with
  | false =>
    have hspells := Spells.plain hbetween
    simpa [baseToken, offsetToken, View.commaToken] using hspells
  | true =>
    have hspells := Spells.writeback hbetween
    simpa [baseToken, offsetToken, View.commaToken] using hspells

theorem not_closed_baseToken (a : Address) : ¬ a.baseToken.Closed := by
  intro h
  have hlast : ('[' :: a.base.name.toList ++ [',']).getLast? = some ',' := List.getLast?_concat
  have hlast : a.baseToken.getLast? = some ',' := hlast
  rcases h with ⟨init, h⟩ | ⟨init, h⟩
  · rw [← h] at hlast
    simp at hlast
  · rw [← h] at hlast
    simp at hlast

theorem spelledBy_tokens {a : Address} (h : a.base.Writable) :
    a.SpelledBy [a.baseToken, a.offsetToken] :=
  .two (not_closed_baseToken a) (short_tokens h) (spells_tokens h)

end Address

namespace Instruction

/-- The tokens behind the mnemonic in the printed text. -/
def tokens : Instruction → List Token
  | add dst lhs rhs | sub dst lhs rhs => [dst.commaToken, lhs.commaToken, rhs.text.toList]
  | mov dst src => [dst.commaToken, src.text.toList]
  | strb register address | ldrb register address =>
    [register.commaToken, address.baseToken, address.offsetToken]
  | stp first second address =>
    [first.commaToken, second.commaToken, address.baseToken, address.offsetToken]

theorem toList_text (i : Instruction) :
    i.text.toList = [' '].intercalate (i.mnemonic.name.toList :: i.tokens) := by
  have haddress : ∀ a : Address, a.text.toList = a.baseToken ++ ' ' :: a.offsetToken := by
    intro a
    cases hw : a.writeback <;>
      simp [Address.text, Address.place, Address.baseToken, Address.offsetToken, View.commaToken,
        hw]
  cases i <;>
    simp [text, tokens, operandTexts, haddress, View.commaToken, List.intercalate_cons_cons]

theorem spelledBy_tokens {i : Instruction} (h : i.Writable) : i.SpelledBy i.tokens := by
  cases i with
  | add dst lhs rhs | sub dst lhs rhs =>
    obtain ⟨hdst, hlhs, hrhs⟩ := h
    exact ⟨_, _, _, rfl, View.names_commaToken hdst, View.names_commaToken hlhs,
      Operand.gives_text hrhs⟩
  | mov dst src =>
    obtain ⟨hdst, hsrc⟩ := h
    exact ⟨_, _, rfl, View.names_commaToken hdst, Operand.gives_text hsrc⟩
  | strb register address | ldrb register address =>
    obtain ⟨hregister, hbase, hw⟩ := h
    exact ⟨_, _, rfl, View.names_commaToken hregister, Address.spelledBy_tokens hbase, hw⟩
  | stp first second address =>
    obtain ⟨hfirst, hsecond, hbase⟩ := h
    exact ⟨_, _, _, rfl, View.names_commaToken hfirst, View.names_commaToken hsecond,
      Address.spelledBy_tokens hbase⟩

theorem plain_tokens {i : Instruction} (h : i.Writable) : ∀ t ∈ i.tokens, t.Plain := by
  cases i with
  | add dst lhs rhs | sub dst lhs rhs =>
    obtain ⟨hdst, hlhs, hrhs⟩ := h
    simp [tokens, View.plain_commaToken hdst, View.plain_commaToken hlhs,
      (Operand.spells_text hrhs).plain]
  | mov dst src =>
    obtain ⟨hdst, hsrc⟩ := h
    simp [tokens, View.plain_commaToken hdst, (Operand.spells_text hsrc).plain]
  | strb register address | ldrb register address =>
    obtain ⟨hregister, hbase, -⟩ := h
    simp [tokens, View.plain_commaToken hregister, Address.plain_baseToken hbase,
      Address.plain_offsetToken]
  | stp first second address =>
    obtain ⟨hfirst, hsecond, hbase⟩ := h
    simp [tokens, View.plain_commaToken hfirst, View.plain_commaToken hsecond,
      Address.plain_baseToken hbase, Address.plain_offsetToken]

theorem words_text {i : Instruction} (h : i.Writable) :
    Text.words i.text.toList = i.mnemonic.name.toList :: i.tokens := by
  have hname : ∀ m : Mnemonic, m.name.toList ≠ [] ∧
      ∀ c ∈ m.name.toList, c.isAlphanum = true := by
    intro m
    cases m <;> simp [Mnemonic.name]
  rw [toList_text]
  apply Text.words_intercalate
  intro t ht
  have hplain : Token.Plain t := by
    rcases List.mem_cons.mp ht with rfl | ht
    · obtain ⟨hne, hletters⟩ := hname i.mnemonic
      exact ⟨hne, fun c hc => .inl (hletters c hc)⟩
    · exact plain_tokens h t ht
  exact ⟨hplain.1, fun c hc => (hplain.2 c hc).isBlank_eq_false⟩

theorem decode_text {i : Instruction} (h : i.Writable) :
    Statement.decode i.text = .ok (.instruction i) := by
  have hspelled := spelledBy_tokens h
  have hlen : i.tokens.length ≤ 5 := Nat.le_succ_of_le hspelled.length_le
  rw [Statement.decode_eq_ok_iff, words_text h]
  exact .instruction hlen hspelled

/-- What a line can say is what can be written, and printing it and decoding it again gives it
back. -/
theorem decode_text_iff (i : Instruction) :
    (Statement.decode i.text = .ok (.instruction i) ↔ i.Writable) ∧
      ((∃ line, Statement.decode line = .ok (.instruction i)) ↔ i.Writable) := by
  have hwritable : ∀ line, Statement.decode line = .ok (.instruction i) → i.Writable := by
    intro line h
    have hspelled := Statement.decode_eq_ok_iff.mp h
    generalize Text.words line.toList = toks at hspelled
    cases hspelled with
    | instruction _ h => exact h.writable
  refine ⟨⟨hwritable i.text, decode_text⟩, ?_, ?_⟩
  · rintro ⟨line, h⟩
    exact hwritable line h
  · intro h
    exact ⟨i.text, decode_text h⟩

end Instruction

end StackSteps
