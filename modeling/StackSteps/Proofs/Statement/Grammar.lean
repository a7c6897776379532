import StackSteps.Proofs.Text.Numerals
import StackSteps.Statement.Operand

/-!
# The grammar of lines

What a text spells, said without a reader: a register name, a number with a sign and a radix, the
last operand of an arithmetic instruction, and an address in brackets. Above the texts stand the
tokens, which may have a comma behind a register or an immediate, and of which an address takes one
or two; above them the instructions and the statements. Each reader accepts exactly what its
relation here allows, with the value that the relation gives; the equivalences are named after the
readers.
-/
namespace StackSteps

/-- A general register has its number behind the letter, without leading zeros. -/
inductive View.Spells : List Char → View → Prop
  | sp : Spells ['s', 'p'] (.whole .sp)
  | fp : Spells ['f', 'p'] (.whole .fp)
  | whole (number : Fin 31) : Spells ('x' :: Nat.toDigits 10 number) (.whole (.general number))
  | low (number : Fin 31) : Spells ('w' :: Nat.toDigits 10 number) (.low (.general number))

inductive Immediate.Magnitude : List Char → Nat → Radix → Prop
  | decimal {cs : List Char} {n : Nat} (h : Text.Numeral 10 cs n) (hn : n < 2 ^ 64) :
      Magnitude cs n .decimal
  | hexadecimal {x : Char} {cs : List Char} {n : Nat} (hx : x = 'x' ∨ x = 'X')
      (h : Text.Numeral 16 cs n) (hn : n < 2 ^ 64) : Magnitude ('0' :: x :: cs) n .hexadecimal

inductive Immediate.Spells : List Char → Immediate → Prop
  | plain {cs : List Char} {n : Nat} {radix : Radix} (h : Magnitude cs n radix) :
      Spells cs ⟨n, radix⟩
  | minus {cs : List Char} {n : Nat} {radix : Radix} (h : Magnitude cs n radix) :
      Spells ('-' :: cs) ⟨-n, radix⟩

inductive Operand.Spells : List Char → Operand → Prop
  | register {cs : List Char} {v : View} (h : v.Spells cs) : Spells cs (.register v)
  | immediate {cs : List Char} {imm : Immediate} (h : imm.Spells cs) (hlo : -2 ^ 63 ≤ imm.value)
      (hhi : imm.value < 2 ^ 64) : Spells ('#' :: cs) (.immediate imm)

/-- The number sign in front of an offset may be left out. -/
inductive Address.OffsetSpells : List Char → Int64 → Prop
  | plain {cs : List Char} {imm : Immediate} {offset : Int64} (h : imm.Spells cs)
      (hoffset : offset.toInt = imm.value) : OffsetSpells cs offset
  | signed {cs : List Char} {imm : Immediate} {offset : Int64} (h : imm.Spells cs)
      (hoffset : offset.toInt = imm.value) : OffsetSpells ('#' :: cs) offset

/-- What stands between the brackets: a register, and an offset behind a comma or none. -/
inductive Address.Between : List Char → View → Int64 → Prop
  | base {cs : List Char} {v : View} (h : v.Spells cs) : Between cs v 0
  | offset {cs ds : List Char} {v : View} {offset : Int64} (h : v.Spells cs)
      (ho : OffsetSpells ds offset) : Between (cs ++ ',' :: ds) v offset

inductive Address.Spells : List Char → Address → Prop
  | plain {cs : List Char} {v : View} {offset : Int64} (h : Between cs v offset) :
      Spells ('[' :: cs ++ [']']) ⟨v, offset, false⟩
  | writeback {cs : List Char} {v : View} {offset : Int64} (h : Between cs v offset) :
      Spells ('[' :: cs ++ [']'] ++ ['!']) ⟨v, offset, true⟩

namespace Token

/-- The token is the text, with a comma behind it or not. -/
def Holds (t text : Token) : Prop :=
  t = text ∨ t = text ++ [',']

def Names (t : Token) (v : View) : Prop :=
  ∃ text, t.Holds text ∧ v.Spells text

def Gives (t : Token) (o : Operand) : Prop :=
  ∃ text, t.Holds text ∧ o.Spells text

def Closed (t : Token) : Prop :=
  [']'] <:+ t ∨ [']', '!'] <:+ t

/-- The token is short enough for a memory operand. -/
def Short (t : Token) : Prop :=
  (String.ofList t).utf8ByteSize ≤ 48

end Token

/-- A second token belongs to an address if and only if the first does not close it. -/
inductive Address.SpelledBy (a : Address) : List Token → Prop
  | one {t : Token} (hc : t.Closed) (hs : t.Short) (h : a.Spells t) : SpelledBy a [t]
  | two {t u : Token} (hc : ¬ t.Closed) (hs : Token.Short (t ++ u)) (h : a.Spells (t ++ u)) :
      SpelledBy a [t, u]

/-- The tokens behind the mnemonic. -/
def Instruction.SpelledBy : Instruction → List Token → Prop
  | .add dst lhs rhs, ts | .sub dst lhs rhs, ts =>
    ∃ t u s : Token, ts = [t, u, s] ∧ t.Names dst ∧ u.Names lhs ∧ s.Gives rhs
  | .mov dst src, ts => ∃ t s : Token, ts = [t, s] ∧ t.Names dst ∧ s.Gives src
  | .strb register address, ts | .ldrb register address, ts =>
    ∃ (t : Token) (us : List Token), ts = t :: us ∧ t.Names register ∧ address.SpelledBy us ∧
      address.writeback = false
  | .stp first second address, ts =>
    ∃ (t u : Token) (us : List Token), ts = t :: u :: us ∧ t.Names first ∧ u.Names second ∧
      address.SpelledBy us

/-- The tokens of a whole line. Whatever follows a word that is no mnemonic is allowed. -/
inductive Statement.SpelledBy : Statement → List Token → Prop
  | empty : SpelledBy .empty []
  | unsupported {first : Token} {rest : List Token}
      (h : String.ofList first ∉ ["add", "sub", "mov", "strb", "ldrb", "stp"]) :
      SpelledBy (.unsupported (String.ofList first)) (first :: rest)
  | instruction {i : Instruction} {operands : List Token} (hlen : operands.length ≤ 5)
      (h : i.SpelledBy operands) :
      SpelledBy (.instruction i) (i.mnemonic.name.toList :: operands)

/-- A number is made of letters and digits, behind the sign. -/
theorem Immediate.Magnitude.isAlphanum {cs : List Char} {n : Nat} {radix : Radix}
    (h : Immediate.Magnitude cs n radix) : ∀ c ∈ cs, c.isAlphanum = true := by
  cases h with
  | decimal h _ => exact h.isAlphanum (by decide)
  | @hexadecimal x ds n hx h _ =>
    have hx : x.isAlphanum = true := by
      rcases hx with rfl | rfl
      · decide
      · decide
    rw [List.forall_mem_cons, List.forall_mem_cons]
    exact ⟨by decide, hx, h.isAlphanum (by decide)⟩

theorem Immediate.Spells.isAlphanum {cs : List Char} {imm : Immediate} (h : imm.Spells cs) :
    ∀ c ∈ cs, c.isAlphanum = true ∨ c = '-' := by
  cases h with
  | plain h => exact fun c hc => .inl (h.isAlphanum c hc)
  | minus h => exact List.forall_mem_cons.mpr ⟨.inr rfl, fun c hc => .inl (h.isAlphanum c hc)⟩

theorem View.Spells.isAlphanum {cs : List Char} {v : View} (h : v.Spells cs) :
    ∀ c ∈ cs, c.isAlphanum = true := by
  have hdigits : ∀ number : Fin 31, ∀ c ∈ Nat.toDigits 10 number, c.isAlphanum = true := by
    intro number c hc
    have hdigit := Nat.isDigit_of_mem_toDigits (by decide) (by decide) hc
    simp [Char.isAlphanum, hdigit]
  cases h with
  | sp => simp
  | fp => simp
  | whole number => exact List.forall_mem_cons.mpr ⟨by decide, hdigits number⟩
  | low number => exact List.forall_mem_cons.mpr ⟨by decide, hdigits number⟩

theorem Address.OffsetSpells.isAlphanum {cs : List Char} {offset : Int64}
    (h : Address.OffsetSpells cs offset) :
    ∀ c ∈ cs, c.isAlphanum = true ∨ c = '-' ∨ c = '#' := by
  have hnumber : ∀ {ds : List Char} {imm : Immediate}, imm.Spells ds →
      ∀ c ∈ ds, c.isAlphanum = true ∨ c = '-' ∨ c = '#' := by
    intro ds imm himm c hc
    exact (himm.isAlphanum c hc).imp_right .inl
  cases h with
  | plain himm _ => exact hnumber himm
  | signed himm _ => exact List.forall_mem_cons.mpr ⟨.inr (.inr rfl), hnumber himm⟩

theorem View.Spells.not_mem {cs : List Char} {v : View} (h : v.Spells cs) {c : Char}
    (hc : c.isAlphanum = false) : c ∉ cs := by
  intro hmem
  rw [h.isAlphanum c hmem] at hc
  contradiction

theorem Address.OffsetSpells.not_mem {cs : List Char} {offset : Int64}
    (h : Address.OffsetSpells cs offset) {c : Char}
    (hc : ¬ (c.isAlphanum = true ∨ c = '-' ∨ c = '#')) : c ∉ cs :=
  fun hmem => hc (h.isAlphanum c hmem)

end StackSteps
