import StackSteps.Proofs.Statement.Reading
import StackSteps.Proofs.Text.Runs
import StackSteps.Statement.Decode

/-!
# Which lines are accepted, and what they say

The readers of operand tokens accept what the grammar allows in front of the tokens that they leave,
up to the operands of a whole instruction (`OperandReader.run_instruction_eq_ok_iff`). A line says
what its maximal runs spell, and nothing else is accepted (`Statement.decode_spelledBy`).
-/
namespace StackSteps

theorem utf8ByteSize_ofList_cons (c : Char) (cs : List Char) :
    (String.ofList (c :: cs)).utf8ByteSize = c.utf8Size + (String.ofList cs).utf8ByteSize := by
  have hcons : String.ofList (c :: cs) = String.singleton c ++ String.ofList cs := by
    rw [String.singleton_eq_ofList, ← String.ofList_append, List.singleton_append]
  rw [hcons, String.utf8ByteSize_append, String.utf8ByteSize_singleton]

theorem Token.byteLength_eq (t : Token) : t.byteLength = (String.ofList t).utf8ByteSize := by
  have hfold : ∀ (cs : List Char) (n : Nat),
      cs.foldl (fun n c => n + c.utf8Size) n = n + (String.ofList cs).utf8ByteSize := by
    intro cs
    induction cs with
    | nil => simp
    | cons c cs ih =>
      intro n
      rw [List.foldl_cons, ih, utf8ByteSize_ofList_cons, Nat.add_assoc]
  rw [Token.byteLength, hfold, Nat.zero_add]

theorem Token.short_append_iff {t u : Token} :
    Token.Short (t ++ u) ↔ t.byteLength + u.byteLength ≤ 48 := by
  rw [Token.Short, String.ofList_append, String.utf8ByteSize_append, ← Token.byteLength_eq,
    ← Token.byteLength_eq]

theorem Token.closes_iff {t : Token} : t.closes = true ↔ t.Closed := by
  simp [Token.closes, Token.Closed]

/-- A text that does not end in a comma is what a token holds if and only if it is left when the
comma is dropped. -/
theorem Token.dropComma_iff {t : Token} {P : Token → Prop}
    (hP : ∀ text, P text → text.getLast? ≠ some ',') :
    P t.dropComma ↔ ∃ text, t.Holds text ∧ P text := by
  unfold Token.dropComma
  constructor
  · intro h
    split at h
    next hlast =>
      obtain ⟨init, rfl⟩ := List.getLast?_eq_some_iff.mp hlast
      rw [List.dropLast_concat] at h
      exact ⟨init, .inr rfl, h⟩
    next => exact ⟨t, .inl rfl, h⟩
  · rintro ⟨text, rfl | rfl, h⟩
    · rwa [if_neg (hP t h)]
    · rwa [if_pos List.getLast?_concat, List.dropLast_concat]

theorem View.Spells.getLast?_ne {cs : List Char} {v : View} (h : v.Spells cs) :
    cs.getLast? ≠ some ',' :=
  fun hlast => h.not_mem (by decide) (List.mem_of_getLast? hlast)

theorem Operand.Spells.getLast?_ne {cs : List Char} {o : Operand} (h : o.Spells cs) :
    cs.getLast? ≠ some ',' := by
  intro hlast
  have hmem := List.mem_of_getLast? hlast
  cases h with
  | register h => exact h.not_mem (by decide) hmem
  | immediate h _ _ =>
    rcases List.mem_cons.mp hmem with heq | hmem
    · contradiction
    · have hmark := h.isAlphanum ',' hmem
      contradiction

theorem Token.view_dropComma_eq_ok_iff {t : Token} {v : View} :
    t.dropComma.view = .ok v ↔ t.Names v := by
  rw [Token.view_eq_ok_iff]
  exact Token.dropComma_iff fun _ => View.Spells.getLast?_ne

theorem Token.operand_dropComma_eq_ok_iff {t : Token} {o : Operand} :
    t.dropComma.operand = .ok o ↔ t.Gives o := by
  rw [Token.operand_eq_ok_iff]
  exact Token.dropComma_iff fun _ => Operand.Spells.getLast?_ne

namespace OperandReader

variable {m : Mnemonic} {ts rest : List Token}

theorem run_bind_eq_ok_iff {α β : Type} {x : OperandReader α} {f : α → OperandReader β} {b : β} :
    (x >>= f).run ts = .ok (b, rest) ↔
      ∃ a us, x.run ts = .ok (a, us) ∧ (f a).run us = .ok (b, rest) := by
  rw [StateT.run_bind, bind_eq_ok_iff, Prod.exists]

theorem run_token_eq_ok_iff {t : Token} : (token m).run ts = .ok (t, rest) ↔ ts = t :: rest := by
  cases ts with
  | nil => simp
  | cons u us => simp

theorem run_lift_eq_ok_iff {α : Type} {x : Except DecodeCause α} {a : α} :
    (liftM x : OperandReader α).run ts = .ok (a, rest) ↔ x = .ok a ∧ ts = rest := by
  have hlift : (liftM x : OperandReader α).run ts = x >>= fun a => pure (a, ts) := rfl
  rw [hlift, bind_eq_ok_iff]
  constructor
  · rintro ⟨b, hx, hb⟩
    cases hb
    exact ⟨hx, rfl⟩
  · rintro ⟨hx, rfl⟩
    exact ⟨a, hx, rfl⟩

/-- A check in front of a reader. -/
theorem run_check_eq_ok_iff {α : Type} {c : Prop} [Decidable c] {cause : DecodeCause}
    {k : OperandReader α} {a : α} :
    (do if c then throw cause
        k : OperandReader α).run ts = .ok (a, rest) ↔ ¬ c ∧ k.run ts = .ok (a, rest) := by
  by_cases h : c
  · rw [if_pos h]
    constructor
    · intro hthrow
      contradiction
    · rintro ⟨hnot, -⟩
      contradiction
  · simp [h]

/-- Whatever is made of one token, the tokens behind it are left. -/
theorem run_token_bind_eq_ok_iff {α : Type} {f : Token → Except DecodeCause α} {a : α} :
    (token m >>= fun t => liftM (f t)).run ts = .ok (a, rest) ↔
      ∃ t : Token, ts = t :: rest ∧ f t = .ok a := by
  simp only [run_bind_eq_ok_iff, run_token_eq_ok_iff, run_lift_eq_ok_iff]
  constructor
  · rintro ⟨t, us, rfl, ht, rfl⟩
    exact ⟨t, rfl, ht⟩
  · rintro ⟨t, rfl, ht⟩
    exact ⟨t, rest, rfl, ht, rfl⟩

theorem run_view_eq_ok_iff {v : View} :
    (view m).run ts = .ok (v, rest) ↔ ∃ t : Token, ts = t :: rest ∧ t.Names v := by
  simp only [← Token.view_dropComma_eq_ok_iff]
  exact run_token_bind_eq_ok_iff

theorem run_operand_eq_ok_iff {o : Operand} :
    (operand m).run ts = .ok (o, rest) ↔ ∃ t : Token, ts = t :: rest ∧ t.Gives o := by
  simp only [← Token.operand_dropComma_eq_ok_iff]
  exact run_token_bind_eq_ok_iff

theorem run_address_eq_ok_iff {a : Address} :
    (address m).run ts = .ok (a, rest) ↔ ∃ us, ts = us ++ rest ∧ a.SpelledBy us := by
  unfold address
  rw [run_bind_eq_ok_iff]
  simp only [run_token_eq_ok_iff, run_check_eq_ok_iff]
  constructor
  · rintro ⟨t, us, rfl, hlen, h⟩
    by_cases hc : t.closes = true
    · rw [if_pos hc, run_lift_eq_ok_iff, Address.ofChars_eq_ok_iff] at h
      obtain ⟨h, rfl⟩ := h
      have hshort : t.Short := by
        rw [Token.Short, ← Token.byteLength_eq]
        exact Nat.not_lt.mp hlen
      exact ⟨[t], rfl, .one (Token.closes_iff.mp hc) hshort h⟩
    · rw [if_neg hc, run_bind_eq_ok_iff] at h
      simp only [run_token_eq_ok_iff, run_check_eq_ok_iff, run_lift_eq_ok_iff,
        Address.ofChars_eq_ok_iff] at h
      obtain ⟨u, us, rfl, hlen, h, rfl⟩ := h
      have hshort := Token.short_append_iff.mpr (Nat.not_lt.mp hlen)
      exact ⟨[t, u], rfl, .two (mt Token.closes_iff.mpr hc) hshort h⟩
  · rintro ⟨us, rfl, h⟩
    cases h with
    | @one t hc hs h =>
      refine ⟨t, rest, rfl, ?_, ?_⟩
      · rw [Token.byteLength_eq]
        exact Nat.not_lt.mpr hs
      · rw [if_pos (Token.closes_iff.mpr hc), run_lift_eq_ok_iff, Address.ofChars_eq_ok_iff]
        exact ⟨h, rfl⟩
    | @two t u hc hs h =>
      have hlen := Token.short_append_iff.mp hs
      refine ⟨t, u :: rest, rfl, ?_, ?_⟩
      · exact Nat.not_lt.mpr (Nat.le_trans (Nat.le_add_right _ _) hlen)
      · rw [if_neg (mt Token.closes_iff.mp hc), run_bind_eq_ok_iff]
        simp only [run_token_eq_ok_iff, run_check_eq_ok_iff, run_lift_eq_ok_iff,
          Address.ofChars_eq_ok_iff]
        exact ⟨u, rest, rfl, Nat.not_lt.mpr hlen, h, rfl⟩

theorem run_plainAddress_eq_ok_iff {a : Address} :
    (plainAddress m).run ts = .ok (a, rest) ↔
      a.writeback = false ∧ ∃ us, ts = us ++ rest ∧ a.SpelledBy us := by
  unfold plainAddress
  rw [run_bind_eq_ok_iff]
  simp only [run_address_eq_ok_iff, run_check_eq_ok_iff, StateT.run_pure]
  constructor
  · rintro ⟨b, us, h, hw, hb⟩
    cases hb
    exact ⟨Bool.eq_false_iff.mpr hw, h⟩
  · rintro ⟨hw, h⟩
    exact ⟨a, rest, h, Bool.eq_false_iff.mp hw, rfl⟩

theorem run_arithmetic_eq_ok_iff {f : View → View → Operand → Instruction} {i : Instruction} :
    (do return f (← view m) (← view m) (← operand m) : OperandReader Instruction).run ts =
        .ok (i, rest) ↔
      ∃ (dst lhs : View) (rhs : Operand) (t u s : Token), i = f dst lhs rhs ∧
        ts = t :: u :: s :: rest ∧ t.Names dst ∧ u.Names lhs ∧ s.Gives rhs := by
  simp only [run_bind_eq_ok_iff, run_view_eq_ok_iff, run_operand_eq_ok_iff, StateT.run_pure]
  constructor
  · rintro ⟨dst, _, ⟨t, rfl, ht⟩, lhs, _, ⟨u, rfl, hu⟩, rhs, _, ⟨s, rfl, hs⟩, he⟩
    cases he
    exact ⟨dst, lhs, rhs, t, u, s, rfl, rfl, ht, hu, hs⟩
  · rintro ⟨dst, lhs, rhs, t, u, s, rfl, rfl, ht, hu, hs⟩
    exact ⟨dst, _, ⟨t, rfl, ht⟩, lhs, _, ⟨u, rfl, hu⟩, rhs, _, ⟨s, rfl, hs⟩, rfl⟩

theorem run_transfer_eq_ok_iff {f : View → Address → Instruction} {i : Instruction} :
    (do return f (← view m) (← plainAddress m) : OperandReader Instruction).run ts =
        .ok (i, rest) ↔
      ∃ (register : View) (address : Address) (t : Token) (us : List Token),
        i = f register address ∧ ts = t :: us ++ rest ∧ t.Names register ∧
          address.SpelledBy us ∧ address.writeback = false := by
  simp only [run_bind_eq_ok_iff, run_view_eq_ok_iff, run_plainAddress_eq_ok_iff, StateT.run_pure]
  constructor
  · rintro ⟨register, _, ⟨t, rfl, ht⟩, address, _, ⟨hw, us, rfl, ha⟩, he⟩
    cases he
    exact ⟨register, address, t, us, rfl, rfl, ht, ha, hw⟩
  · rintro ⟨register, address, t, us, rfl, rfl, ht, ha, hw⟩
    exact ⟨register, _, ⟨t, rfl, ht⟩, address, _, ⟨hw, us, rfl, ha⟩, rfl⟩

/-- The operands of a whole instruction. -/
theorem run_instruction_eq_ok_iff {i : Instruction} :
    (instruction m).run ts = .ok (i, rest) ↔
      i.mnemonic = m ∧ ∃ us, ts = us ++ rest ∧ i.SpelledBy us := by
  constructor
  · intro h
    cases m with
    | add | sub =>
      obtain ⟨dst, lhs, rhs, t, u, s, rfl, rfl, ht, hu, hs⟩ := run_arithmetic_eq_ok_iff.mp h
      exact ⟨rfl, [t, u, s], rfl, t, u, s, rfl, ht, hu, hs⟩
    | mov =>
      unfold instruction at h
      simp only [run_bind_eq_ok_iff, run_view_eq_ok_iff, run_operand_eq_ok_iff,
        StateT.run_pure] at h
      obtain ⟨dst, _, ⟨t, rfl, ht⟩, src, _, ⟨s, rfl, hs⟩, he⟩ := h
      cases he
      exact ⟨rfl, [t, s], rfl, t, s, rfl, ht, hs⟩
    | strb | ldrb =>
      obtain ⟨register, address, t, us, rfl, rfl, ht, ha, hw⟩ := run_transfer_eq_ok_iff.mp h
      exact ⟨rfl, t :: us, rfl, t, us, rfl, ht, ha, hw⟩
    | stp =>
      unfold instruction at h
      simp only [run_bind_eq_ok_iff, run_view_eq_ok_iff, run_address_eq_ok_iff,
        StateT.run_pure] at h
      obtain ⟨first, _, ⟨t, rfl, ht⟩, second, _, ⟨u, rfl, hu⟩, address, _, ⟨us, rfl, ha⟩, he⟩ := h
      cases he
      exact ⟨rfl, t :: u :: us, rfl, t, u, us, rfl, ht, hu, ha⟩
  · rintro ⟨rfl, us, rfl, h⟩
    cases i with
    | add dst lhs rhs | sub dst lhs rhs =>
      obtain ⟨t, u, s, rfl, ht, hu, hs⟩ := h
      exact run_arithmetic_eq_ok_iff.mpr ⟨dst, lhs, rhs, t, u, s, rfl, rfl, ht, hu, hs⟩
    | mov dst src =>
      obtain ⟨t, s, rfl, ht, hs⟩ := h
      show (instruction .mov).run _ = _
      unfold instruction
      simp only [run_bind_eq_ok_iff, run_view_eq_ok_iff, run_operand_eq_ok_iff, StateT.run_pure]
      exact ⟨dst, _, ⟨t, rfl, ht⟩, src, _, ⟨s, rfl, hs⟩, rfl⟩
    | strb register address | ldrb register address =>
      obtain ⟨t, us, rfl, ht, ha, hw⟩ := h
      exact run_transfer_eq_ok_iff.mpr ⟨register, address, t, us, rfl, rfl, ht, ha, hw⟩
    | stp first second address =>
      obtain ⟨t, u, us, rfl, ht, hu, ha⟩ := h
      show (instruction .stp).run _ = _
      unfold instruction
      simp only [run_bind_eq_ok_iff, run_view_eq_ok_iff, run_address_eq_ok_iff, StateT.run_pure]
      exact ⟨first, _, ⟨t, rfl, ht⟩, second, _, ⟨u, rfl, hu⟩, address, _, ⟨us, rfl, ha⟩, rfl⟩

end OperandReader

/-- No instruction has more than four operand tokens, so the bound on their number never decides
by itself. -/
theorem Instruction.SpelledBy.length_le {i : Instruction} {ts : List Token}
    (h : i.SpelledBy ts) : ts.length ≤ 4 := by
  have haddress : ∀ {a : Address} {us : List Token}, a.SpelledBy us → us.length ≤ 2 := by
    intro a us ha
    cases ha with
    | one => simp
    | two => simp
  cases i with
  | add dst lhs rhs | sub dst lhs rhs =>
    obtain ⟨t, u, s, rfl, -⟩ := h
    simp
  | mov dst src =>
    obtain ⟨t, s, rfl, -⟩ := h
    simp
  | strb register address | ldrb register address =>
    obtain ⟨t, us, rfl, -, ha, -⟩ := h
    have hlen := haddress ha
    rw [List.length_cons]
    omega
  | stp first second address =>
    obtain ⟨t, u, us, rfl, -, -, ha⟩ := h
    have hlen := haddress ha
    rw [List.length_cons, List.length_cons]
    omega

theorem Mnemonic.ofName?_eq_none_iff {name : String} :
    ofName? name = none ↔ name ∉ ["add", "sub", "mov", "strb", "ldrb", "stp"] := by
  have hnames : all.map Mnemonic.name = ["add", "sub", "mov", "strb", "ldrb", "stp"] := rfl
  rw [← hnames, ofName?, List.find?_eq_none]
  simp

namespace Statement

/-- Once the mnemonic is known, the operands decide. -/
theorem ofTokens_cons_eq_ok_iff {first : Token} {m : Mnemonic} {operands : List Token}
    {s : Statement} (hm : Mnemonic.ofName? (String.ofList first) = some m) :
    ofTokens (first :: operands) = .ok s ↔
      operands.length ≤ 5 ∧
        ∃ i : Instruction, s = .instruction i ∧ i.mnemonic = m ∧ i.SpelledBy operands := by
  have hread : ∀ i : Instruction, (OperandReader.instruction m).run operands = .ok (i, []) ↔
      i.mnemonic = m ∧ i.SpelledBy operands := by
    intro i
    rw [OperandReader.run_instruction_eq_ok_iff]
    simp
  simp only [ofTokens, hm]
  by_cases hlen : maxOperands < operands.length
  · have hnot : ¬ operands.length ≤ 5 := Nat.not_le.mpr hlen
    simp [hlen, hnot]
  · have hle : operands.length ≤ 5 := Nat.not_lt.mp hlen
    simp only [hlen, if_false, hle, true_and, ← hread]
    constructor
    · intro h
      split at h
      next => contradiction
      next i hrun =>
        cases h
        exact ⟨i, rfl, hrun⟩
      next => contradiction
    · rintro ⟨i, rfl, hrun⟩
      rw [hrun]

theorem ofTokens_eq_ok_iff {ts : List Token} {s : Statement} :
    ofTokens ts = .ok s ↔ s.SpelledBy ts := by
  cases ts with
  | nil =>
    constructor
    · intro h
      cases h
      exact .empty
    · intro h
      cases h
      rfl
  | cons first operands =>
    cases hm : Mnemonic.ofName? (String.ofList first) with
    | none =>
      rw [ofTokens_unsupported hm]
      constructor
      · intro h
        cases h
        exact .unsupported (Mnemonic.ofName?_eq_none_iff.mp hm)
      · intro h
        cases h with
        | unsupported => rfl
        | instruction hlen h =>
          rw [String.ofList_toList, Mnemonic.ofName?_eq_some_iff.mpr rfl] at hm
          contradiction
    | some m =>
      rw [ofTokens_cons_eq_ok_iff hm]
      constructor
      · rintro ⟨hlen, i, rfl, rfl, h⟩
        have hfirst : first = i.mnemonic.name.toList := by
          rw [Mnemonic.ofName?_eq_some_iff.mp hm, String.toList_ofList]
        rw [hfirst]
        exact .instruction hlen h
      · intro h
        cases h with
        | unsupported hnot =>
          rw [Mnemonic.ofName?_eq_none_iff.mpr hnot] at hm
          contradiction
        | @instruction i _ hlen h =>
          rw [String.ofList_toList, Mnemonic.ofName?_eq_some_iff.mpr rfl] at hm
          exact ⟨hlen, i, rfl, Option.some.inj hm, h⟩

theorem decode_eq_ok_iff {line : String} {s : Statement} :
    decode line = .ok s ↔ s.SpelledBy (Text.words line.toList) := by
  rw [← ofTokens_eq_ok_iff, decode]
  cases ofTokens (Text.words line.toList) <;> simp [Except.mapError]

theorem decode_eq_ok_empty_iff {line : String} :
    decode line = .ok .empty ↔ ∀ c ∈ line.toList, Text.isBlank c = true := by
  rw [decode_eq_ok_iff, ← Text.words_eq_nil_iff]
  generalize Text.words line.toList = toks
  constructor
  · intro h
    cases h
    rfl
  · intro h
    rw [h]
    exact .empty

/-- The maximal runs of a line decide what it says, and a line is accepted only if they spell
something. -/
theorem decode_spelledBy (line : String) :
    ∃ toks : List Token, (∀ ts, Text.Runs line.toList ts ↔ ts = toks) ∧
      ∀ s, decode line = .ok s ↔ s.SpelledBy toks :=
  ⟨Text.words line.toList, fun _ => Text.runs_iff, fun _ => decode_eq_ok_iff⟩

end Statement

end StackSteps
