import StackSteps.Proofs.Statement.Acceptance

/-!
# Lines that grow token by token

Operands are read from the left and no token is looked at twice. What a reader answers to some
tokens it answers to more of them too, unless it was short of one (`OperandReader.Incremental`, with
a lemma for each way in which readers are put together). A line that is refused is therefore refused
with the same cause when it grows, a line that is accepted is refused with the first token that is
added, and every line that such a line has grown from is short of an operand
(`Statement.decode_of_more_operands`).
-/
namespace StackSteps

/-- A result that no further token would change: it is no complaint about a missing one. -/
def Conclusive {α : Type} (x : Except DecodeCause α) : Prop :=
  ∀ m, x ≠ .error (.missingOperand m)

section Conclusive

variable {α β : Type}

theorem conclusive_ok (a : α) : Conclusive (.ok a) := by
  intro m h
  contradiction

theorem Conclusive.bind {x : Except DecodeCause α} {f : α → Except DecodeCause β}
    (hx : Conclusive x) (hf : ∀ a, Conclusive (f a)) : Conclusive (x >>= f) := by
  intro m h
  cases x with
  | error cause =>
    have hcause : cause = .missingOperand m := Except.error.inj h
    exact hx m (congrArg Except.error hcause)
  | ok a => exact hf a m h

theorem Token.conclusive_view (t : Token) : Conclusive t.view := by
  intro m
  unfold Token.view
  split <;> simp

theorem Token.conclusive_operand (t : Token) : Conclusive t.operand := by
  unfold Token.operand
  split
  · intro m
    split <;> simp
  · exact (conclusive_view _).bind fun _ => conclusive_ok _

theorem Address.conclusive_offsetOfChars (whole cs : List Char) :
    Conclusive (Address.offsetOfChars whole cs) := by
  intro m
  unfold Address.offsetOfChars
  split
  · simp
  · split <;> simp

theorem Address.conclusive_ofChars (text : List Char) : Conclusive (Address.ofChars text) := by
  have hinvalid : ∀ {γ : Type},
      Conclusive (throw (.invalidMemoryOperand (String.ofList text)) : Except DecodeCause γ) := by
    intro γ m h
    have hcause := Except.error.inj h
    contradiction
  unfold Address.ofChars
  dsimp only
  split
  · exact hinvalid
  · split
    · exact hinvalid
    · exact (Token.conclusive_view _).bind fun _ => conclusive_ok _
    · refine (Token.conclusive_view _).bind fun v => ?_
      refine (Address.conclusive_offsetOfChars _ _).bind fun offset => ?_
      split
      · exact hinvalid.bind fun _ => conclusive_ok _
      · exact conclusive_ok _

end Conclusive

namespace OperandReader

variable {α β : Type} {m : Mnemonic} {ts us : List Token}

/-- More tokens change nothing but what is left, unless the reader was short of an operand of the
mnemonic. -/
structure Incremental (m : Mnemonic) (x : OperandReader α) : Prop where
  ok : ∀ {ts a rest}, x.run ts = .ok (a, rest) → ∀ us, x.run (ts ++ us) = .ok (a, rest ++ us)
  error : ∀ {ts cause}, x.run ts = .error cause →
    cause = .missingOperand m ∨
      (∀ m', cause ≠ .missingOperand m') ∧ ∀ us, x.run (ts ++ us) = .error cause

theorem run_bind_of_ok {x : OperandReader α} {a : α} (h : x.run ts = .ok (a, us))
    (f : α → OperandReader β) : (x >>= f).run ts = (f a).run us := by
  rw [StateT.run_bind, h]
  rfl

theorem run_bind_of_error {x : OperandReader α} {cause : DecodeCause} (h : x.run ts = .error cause)
    (f : α → OperandReader β) : (x >>= f).run ts = .error cause := by
  rw [StateT.run_bind, h]
  rfl

namespace Incremental

theorem bind {x : OperandReader α} {f : α → OperandReader β} (hx : x.Incremental m)
    (hf : ∀ a, (f a).Incremental m) : (x >>= f).Incremental m where
  ok := by
    intro ts b rest h us
    obtain ⟨a, vs, ha, hb⟩ := run_bind_eq_ok_iff.mp h
    rw [run_bind_of_ok (hx.ok ha us), (hf a).ok hb us]
  error := by
    intro ts cause h
    cases hrun : x.run ts with
    | error cause' =>
      rw [run_bind_of_error hrun] at h
      obtain rfl : cause' = cause := Except.error.inj h
      refine (hx.error hrun).imp_right fun ⟨hnot, hsame⟩ => ⟨hnot, fun us => ?_⟩
      exact run_bind_of_error (hsame us) f
    | ok read =>
      obtain ⟨a, vs⟩ := read
      rw [run_bind_of_ok hrun] at h
      refine ((hf a).error h).imp_right fun ⟨hnot, hsame⟩ => ⟨hnot, fun us => ?_⟩
      rw [run_bind_of_ok (hx.ok hrun us), hsame us]

theorem token (m : Mnemonic) : (token m).Incremental m where
  ok := by
    intro ts t rest h us
    rw [run_token_eq_ok_iff.mp h, List.cons_append, run_token_cons]
  error := by
    intro ts cause h
    cases ts with
    | nil =>
      rw [run_token_nil] at h
      exact .inl (Except.error.inj h).symm
    | cons t ts => simp at h

theorem lift {x : Except DecodeCause α} (h : Conclusive x) :
    (liftM x : OperandReader α).Incremental m where
  ok := by
    intro ts a rest hrun us
    obtain ⟨hx, rfl⟩ := run_lift_eq_ok_iff.mp hrun
    exact run_lift_eq_ok_iff.mpr ⟨hx, rfl⟩
  error := by
    intro ts cause hrun
    cases x with
    | error cause' =>
      obtain rfl : cause' = cause := Except.error.inj hrun
      exact .inr ⟨fun m' hm' => h m' (congrArg Except.error hm'), fun _ => rfl⟩
    | ok a =>
      have hok : (.ok (a, ts) : Except DecodeCause (α × List Token)) = .error cause := hrun
      contradiction

theorem pure (a : α) : (pure a : OperandReader α).Incremental m :=
  lift (conclusive_ok a)

/-- A check in front of a reader. -/
theorem check {c : Prop} [Decidable c] {cause : DecodeCause} {x : OperandReader α}
    (hcause : ∀ m', cause ≠ .missingOperand m') (hx : x.Incremental m) :
    (do if c then throw cause
        x : OperandReader α).Incremental m := by
  by_cases hc : c
  · rw [if_pos hc]
    have hthrow : Conclusive (.error cause : Except DecodeCause PUnit) :=
      fun m' h => hcause m' (Except.error.inj h)
    exact (lift hthrow).bind fun _ => hx
  · simpa only [hc, if_false] using hx

theorem view (m : Mnemonic) : (view m).Incremental m :=
  (token m).bind fun t => lift t.dropComma.conclusive_view

theorem operand (m : Mnemonic) : (operand m).Incremental m :=
  (token m).bind fun t => lift t.dropComma.conclusive_operand

theorem address (m : Mnemonic) : (address m).Incremental m := by
  refine (token m).bind fun first => ?_
  refine check (fun _ => DecodeCause.noConfusion) ?_
  split
  · exact lift (Address.conclusive_ofChars first)
  · refine (token m).bind fun second => ?_
    refine check (fun _ => DecodeCause.noConfusion) ?_
    exact lift (Address.conclusive_ofChars (first ++ second))

theorem plainAddress (m : Mnemonic) : (plainAddress m).Incremental m :=
  (address m).bind fun a => check (fun _ => DecodeCause.noConfusion) (.pure a)

/-- The operands of a whole instruction. -/
theorem instruction (m : Mnemonic) : (instruction m).Incremental m := by
  cases m with
  | add | sub =>
    exact (view _).bind fun dst => (view _).bind fun lhs => (operand _).bind fun rhs => .pure _
  | mov => exact (view _).bind fun dst => (operand _).bind fun src => .pure _
  | strb | ldrb => exact (view _).bind fun register => (plainAddress _).bind fun place => .pure _
  | stp =>
    exact (view _).bind fun first => (view _).bind fun second =>
      (address _).bind fun place => .pure _

end Incremental

end OperandReader

namespace Statement

variable {first : Token} {m : Mnemonic} {ts us : List Token}

/-- The operands of a line that is not too long are read, and none may be left. -/
theorem ofTokens_cons (hm : Mnemonic.ofName? (String.ofList first) = some m)
    (hlen : ts.length ≤ maxOperands) :
    ofTokens (first :: ts) =
      match (OperandReader.instruction m).run ts with
      | .error cause => .error cause
      | .ok (i, []) => .ok (.instruction i)
      | .ok (_, extra :: _) => .error (.unexpectedOperand (String.ofList extra)) := by
  simp only [ofTokens, hm]
  exact if_neg (Nat.not_lt.mpr hlen)

/-- An accepted line that grows is refused with the first token that is added. -/
theorem ofTokens_append_of_ok (hm : Mnemonic.ofName? (String.ofList first) = some m) {u : Token}
    (hlen : (ts ++ u :: us).length ≤ maxOperands) {s : Statement}
    (h : ofTokens (first :: ts) = .ok s) :
    ofTokens (first :: (ts ++ u :: us)) = .error (.unexpectedOperand (String.ofList u)) := by
  have hlen' := (List.sublist_append_left ts (u :: us)).length_le.trans hlen
  rw [ofTokens_cons hm hlen'] at h
  rw [ofTokens_cons hm hlen]
  split at h
  next => contradiction
  next i hrun =>
    rw [(OperandReader.Incremental.instruction m).ok hrun]
    rfl
  next => contradiction

/-- A line that is refused is short of an operand of its mnemonic, or it stays refused with the same
cause when it grows. -/
theorem ofTokens_append_of_error (hm : Mnemonic.ofName? (String.ofList first) = some m)
    (hlen : (ts ++ us).length ≤ maxOperands) {cause : DecodeCause}
    (h : ofTokens (first :: ts) = .error cause) :
    cause = .missingOperand m ∨
      (∀ m', cause ≠ .missingOperand m') ∧ ofTokens (first :: (ts ++ us)) = .error cause := by
  have hlen' := (List.sublist_append_left ts us).length_le.trans hlen
  rw [ofTokens_cons hm hlen'] at h
  rw [ofTokens_cons hm hlen]
  split at h
  next cause' hrun =>
    obtain rfl : cause' = cause := Except.error.inj h
    refine ((OperandReader.Incremental.instruction m).error hrun).imp_right ?_
    rintro ⟨hnot, hsame⟩
    rw [hsame us]
    exact ⟨hnot, rfl⟩
  next => contradiction
  next i extra more hrun =>
    -- the token that was left over is still the first one left over
    obtain rfl := Except.error.inj h
    rw [(OperandReader.Incremental.instruction m).ok hrun us]
    exact .inr ⟨fun _ => DecodeCause.noConfusion, rfl⟩

/-- What an accepted line has grown from is short of an operand, and so is what a line that is short
of one has grown from. -/
theorem ofTokens_prefix (hm : Mnemonic.ofName? (String.ofList first) = some m) {u : Token}
    (hlen : (ts ++ u :: us).length ≤ maxOperands)
    (h : ∀ cause, ofTokens (first :: (ts ++ u :: us)) = .error cause →
      ∃ m', cause = .missingOperand m') :
    ofTokens (first :: ts) = .error (.missingOperand m) := by
  cases hts : ofTokens (first :: ts) with
  | ok s =>
    -- the whole line would be refused with its next token
    obtain ⟨m', hm'⟩ := h _ (ofTokens_append_of_ok hm hlen hts)
    contradiction
  | error cause =>
    rcases ofTokens_append_of_error hm hlen hts with rfl | ⟨hnot, hsame⟩
    · rfl
    · obtain ⟨m', hm'⟩ := h cause hsame
      exact absurd hm' (hnot m')

/-- A line of a mnemonic and operand tokens, with any blanks between and around them. -/
def Line (m : Mnemonic) (ts : List Token) (line : String) : Prop :=
  Text.Runs line.toList (m.name.toList :: ts)

theorem line_iff {line : String} :
    Line m ts line ↔ Text.words line.toList = m.name.toList :: ts := by
  rw [Line, Text.runs_iff, eq_comm]

theorem Line.decode {line : String} (h : Line m ts line) :
    decode line = (ofTokens (m.name.toList :: ts)).mapError (⟨none, ·⟩) := by
  rw [Statement.decode, line_iff.mp h]

theorem Line.decode_eq_ok_iff {line : String} (h : Line m ts line) {s : Statement} :
    Statement.decode line = .ok s ↔ ofTokens (m.name.toList :: ts) = .ok s := by
  rw [h.decode]
  cases ofTokens (m.name.toList :: ts) <;> simp [Except.mapError]

theorem Line.decode_eq_error_iff {line : String} (h : Line m ts line) {e : DecodeError} :
    Statement.decode line = .error e ↔
      ∃ cause, e = ⟨none, cause⟩ ∧ ofTokens (m.name.toList :: ts) = .error cause := by
  rw [h.decode]
  cases ofTokens (m.name.toList :: ts) <;> simp [Except.mapError, eq_comm]

/-- The first error wins. A line that is refused, but not for a missing operand, is refused with the
same error when it grows to at most five operands, and one that is accepted is refused with the
first token that is added. What a line begins with misses an operand if the line is accepted or
misses one itself. With more than five operands a line is refused whatever they are. -/
theorem decode_of_more_operands (m : Mnemonic) (ts : List Token) (line : String)
    (hline : Line m ts line) :
    (∀ us line', (ts ++ us).length ≤ 5 → Line m (ts ++ us) line' →
      (∀ e, decode line = .error e → (∀ m', e.cause ≠ .missingOperand m') →
        decode line' = .error e) ∧
      (∀ s u us', decode line = .ok s → us = u :: us' →
        decode line' = .error ⟨none, .unexpectedOperand (String.ofList u)⟩)) ∧
    (∀ ps qs line', ts.length ≤ 5 → ts = ps ++ qs → qs ≠ [] → Line m ps line' →
      (∀ e, decode line = .error e → ∃ m', e.cause = .missingOperand m') →
      decode line' = .error ⟨none, .missingOperand m⟩) ∧
    (5 < ts.length → decode line = .error ⟨none, .tooManyTokens⟩) := by
  have hm : Mnemonic.ofName? (String.ofList m.name.toList) = some m := by
    rw [String.ofList_toList]
    exact Mnemonic.ofName?_eq_some_iff.mpr rfl
  refine ⟨fun us line' hlen hline' => ⟨?_, ?_⟩, ?_, ?_⟩
  · intro e he hnot
    obtain ⟨cause, rfl, hcause⟩ := hline.decode_eq_error_iff.mp he
    rcases ofTokens_append_of_error hm hlen hcause with hmissing | ⟨-, hsame⟩
    · exact absurd hmissing (hnot m)
    · exact hline'.decode_eq_error_iff.mpr ⟨cause, rfl, hsame⟩
  · rintro s u us' hs rfl
    have hs' := hline.decode_eq_ok_iff.mp hs
    exact hline'.decode_eq_error_iff.mpr ⟨_, rfl, ofTokens_append_of_ok hm hlen hs'⟩
  · rintro ps qs line' hlen rfl hne hline' hmissing
    obtain ⟨q, qs, rfl⟩ := List.exists_cons_of_ne_nil hne
    refine hline'.decode_eq_error_iff.mpr ⟨_, rfl, ofTokens_prefix hm hlen fun cause hcause => ?_⟩
    exact hmissing ⟨none, cause⟩ (hline.decode_eq_error_iff.mpr ⟨cause, rfl, hcause⟩)
  · intro hlen
    exact hline.decode_eq_error_iff.mpr ⟨_, rfl, ofTokens_tooMany hm hlen⟩

/-- A load that is typed on: it misses an operand up to the bracket that closes the address. Behind
that bracket writeback is refused at once, and otherwise what follows is. -/
theorem decode_of_load_typed_on :
    decode "ldrb w0, [x1" = .error ⟨none, .missingOperand .ldrb⟩ ∧
    decode "ldrb w0," = .error ⟨none, .missingOperand .ldrb⟩ ∧
    decode "ldrb w0, [x1]!" = .error ⟨none, .unexpectedWriteback .ldrb⟩ ∧
    decode "ldrb w0, [x1]! x2" = .error ⟨none, .unexpectedWriteback .ldrb⟩ ∧
    decode "ldrb w0, [x1]" = .ok (.instruction (.ldrb (.low (.general 0)) ⟨.whole (.general 1), 0,
      false⟩)) ∧
    decode "ldrb w0, [x1] x2" = .error ⟨none, .unexpectedOperand "x2"⟩ ∧
    decode "ldrb w0, [x1]! x2 x3 x4 x5" = .error ⟨none, .tooManyTokens⟩ := by
  have hline : ∀ ts line, Text.words line.toList = "ldrb".toList :: ts → Line .ldrb ts line :=
    fun ts line h => line_iff.mpr h
  have hshort : decode "ldrb w0, [x1" = .error ⟨none, .missingOperand .ldrb⟩ := by
    decide +kernel
  have hwriteback : decode "ldrb w0, [x1]!" = .error ⟨none, .unexpectedWriteback .ldrb⟩ := by
    decide +kernel
  have haccepted : decode "ldrb w0, [x1]" = .ok (.instruction (.ldrb (.low (.general 0))
      ⟨.whole (.general 1), 0, false⟩)) := by
    decide +kernel
  refine ⟨hshort, ?_, hwriteback, ?_, haccepted, ?_, ?_⟩
  · obtain ⟨-, hprefix, -⟩ := decode_of_more_operands .ldrb [['w', '0', ','], ['[', 'x', '1']]
      "ldrb w0, [x1" (hline _ _ (by decide +kernel))
    refine hprefix [['w', '0', ',']] [['[', 'x', '1']] _ (by decide) rfl (by decide)
      (hline _ _ (by decide +kernel)) fun e he => ⟨.ldrb, ?_⟩
    rw [← Except.error.inj (hshort.symm.trans he)]
  · obtain ⟨hmore, -⟩ := decode_of_more_operands .ldrb
      [['w', '0', ','], ['[', 'x', '1', ']', '!']] "ldrb w0, [x1]!" (hline _ _ (by decide +kernel))
    have hgrown := hmore [['x', '2']] "ldrb w0, [x1]! x2" (by decide)
      (hline _ _ (by decide +kernel))
    exact hgrown.1 _ hwriteback fun _ => DecodeCause.noConfusion
  · obtain ⟨hmore, -⟩ := decode_of_more_operands .ldrb
      [['w', '0', ','], ['[', 'x', '1', ']']] "ldrb w0, [x1]" (hline _ _ (by decide +kernel))
    have hgrown := hmore [['x', '2']] "ldrb w0, [x1] x2" (by decide) (hline _ _ (by decide +kernel))
    exact hgrown.2 _ _ _ haccepted rfl
  · obtain ⟨-, -, hmany⟩ := decode_of_more_operands .ldrb
      [['w', '0', ','], ['[', 'x', '1', ']', '!'], ['x', '2'], ['x', '3'], ['x', '4'], ['x', '5']]
      "ldrb w0, [x1]! x2 x3 x4 x5" (hline _ _ (by decide +kernel))
    exact hmany (by decide)

end Statement

end StackSteps
