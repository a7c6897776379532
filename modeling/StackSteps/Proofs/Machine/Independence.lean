import StackSteps.Proofs.Machine.Labelling
import StackSteps.Proofs.Machine.LowViews
import StackSteps.Proofs.Machine.StoredBytes

/-!
# Independent instructions

Two instructions are independent if neither writes a register or a byte of the stack that the other
reads or writes. Each then finds what it reads as it was before the other one
(`Machine.result_performed`, `Machine.stored?_performed`), and so the two come through in one order
if and only if they do in the other, and leave the same machine but for the labels of slots
(`Machine.execute_in_either_order`). Bytes are told apart where slots are not: two bytes may go into
one slot.
-/
namespace StackSteps

namespace Instruction

/-- The addresses of the bytes that a pair fills: the slot of its address and the next one. -/
def pairBytes (a : Int) : Set Int :=
  {b | b / 8 = a / 8 ∨ b / 8 = a / 8 + 1}

/-- The addresses of the bytes that an instruction writes. -/
def writtenBytes (target : Address → Int) : Instruction → Set Int
  | add .. | sub .. | mov .. | ldrb .. => ∅
  | strb _ address => {target address}
  | stp _ _ address => pairBytes (target address)

/-- The addresses of the bytes that an instruction reads or writes. -/
def accessedBytes (target : Address → Int) : Instruction → Set Int
  | add .. | sub .. | mov .. => ∅
  | strb _ address | ldrb _ address => {target address}
  | stp _ _ address => pairBytes (target address)

/-- Whether an instruction writes no register and no byte that the other one reads or writes. A
write through a low view writes the register, and a pair reads its base also where it moves it. -/
structure Spares (target : Address → Int) (i j : Instruction) : Prop where
  registers : ∀ v, i.written? = some v → ∀ u ∈ j.views, v.register ≠ u.register
  bytes : Disjoint (i.writtenBytes target) (j.accessedBytes target)

/-- Whether neither instruction writes what the other one reads or writes. -/
def Independent (target : Address → Int) (i j : Instruction) : Prop :=
  i.Spares target j ∧ j.Spares target i

theorem writtenBytes_subset (target : Address → Int) (i : Instruction) :
    i.writtenBytes target ⊆ i.accessedBytes target := by
  cases i with
  | add dst lhs rhs | sub dst lhs rhs | mov dst src | ldrb dst address => exact Set.empty_subset _
  | strb src address | stp first second address => exact Set.Subset.rfl

theorem exists_written?_of_registerLabel? {i : Instruction} {r : Register} {text : String}
    (h : i.registerLabel? = some (r, text)) : ∃ v, i.written? = some v ∧ v.register = r := by
  cases i with
  | add dst lhs rhs | sub dst lhs rhs | mov dst src | ldrb dst address =>
    exact ⟨dst, rfl, congrArg Prod.fst (Option.some.inj h)⟩
  | strb src address | stp first second address => contradiction

end Instruction

/-- Writes to different registers may be exchanged. -/
theorem Bank.write_comm (b : Bank) {v u : View} (h : v.register ≠ u.register) (x y : Word) :
    (b.write v x).write u y = (b.write u y).write v x := by
  refine Bank.ext fun r => ?_
  simp only [get_write]
  by_cases hv : v.register = r
  · have hu : u.register ≠ r := fun hu => h (hv.trans hu.symm)
    rw [if_neg hu, if_pos hv, if_pos hv, if_neg hu]
  · rw [if_neg hv, if_neg hv]

namespace Machine

variable {m n n' : Machine} {i j : Instruction}

theorem mem_writtenBytes_of_stored? (hi : i.fault? m.stack.size m.target = none) {a : Nat}
    {b : UInt8} (h : m.stored? a i = some b) : (a : Int) ∈ i.writtenBytes m.target := by
  cases i with
  | add dst lhs rhs | sub dst lhs rhs | mov dst src | ldrb dst address => contradiction
  | strb src address =>
    rw [stored?, Option.ite_none_right_eq_some] at h
    exact h.1.symm
  | stp first second address =>
    have hlow := (Instruction.fault?_stp_eq_none_iff.mp hi).1
    show (a : Int) / 8 = m.target address / 8 ∨ (a : Int) / 8 = m.target address / 8 + 1
    rw [stored?] at h
    by_cases hfirst : a / 8 = (m.target address).toNat / 8
    · omega
    · rw [if_neg hfirst, Option.ite_none_right_eq_some] at h
      omega

section spares

variable (h : i.Spares m.target j) (hi : i.fault? m.stack.size m.target = none)
include h

/-- What the second instruction names looks as it did before the first one. -/
theorem read_performed : ∀ u ∈ j.views, (m.performed i).bank.read u = m.bank.read u := by
  intro u hu
  rw [bank_performed]
  cases hw : i.written? with
  | none => rfl
  | some v => exact Bank.read_write_of_ne m.bank (h.registers v hw u hu) _

theorem target_performed (address : Address) (haddress : address.base ∈ j.views) :
    (m.performed i).target address = m.target address :=
  target_congr (read_performed h _ haddress)

theorem fault?_performed :
    j.fault? (m.performed i).stack.size (m.performed i).target =
      j.fault? m.stack.size m.target :=
  fault?_congr (size_performed m i) (read_performed h)

theorem writtenSlots_performed :
    j.writtenSlots (m.performed i).target = j.writtenSlots m.target := by
  cases j with
  | add dst lhs rhs | sub dst lhs rhs | mov dst src | ldrb dst address => rfl
  | strb src address | stp first second address =>
    have htarget := target_performed h address (by simp [Instruction.views])
    simp only [Instruction.writtenSlots, htarget]

theorem stored?_performed (a : Nat) : (m.performed i).stored? a j = m.stored? a j := by
  cases j with
  | add dst lhs rhs | sub dst lhs rhs | mov dst src | ldrb dst address => rfl
  | strb src address =>
    have htarget := target_performed h address (by simp [Instruction.views])
    have hsrc := read_performed h src (by simp [Instruction.views])
    simp only [stored?, htarget, hsrc]
  | stp first second address =>
    have htarget := target_performed h address (by simp [Instruction.views])
    have hfirst := read_performed h first (by simp [Instruction.views])
    have hsecond := read_performed h second (by simp [Instruction.views])
    simp only [stored?, htarget, hfirst, hsecond]

include hi

/-- The first instruction stores no byte that the second one reads or writes. -/
theorem stored?_eq_none {a : Nat} (ha : (a : Int) ∈ j.accessedBytes m.target) :
    m.stored? a i = none := by
  by_contra hsome
  obtain ⟨b, hb⟩ := Option.ne_none_iff_exists'.mp hsome
  exact Set.disjoint_left.mp h.bytes (mem_writtenBytes_of_stored? hi hb) ha

theorem result_performed (hj : j.fault? m.stack.size m.target = none) :
    (m.performed i).result j = m.result j := by
  refine result_congr (read_performed h) fun dst address heq => ?_
  subst heq
  obtain ⟨hlow, -⟩ := Instruction.fault?_ldrb_eq_none_iff.mp hj
  have hbyte := byteAt_performed hi (m.target address).toNat
  have haccessed : ((m.target address).toNat : Int) ∈
      (Instruction.ldrb dst address).accessedBytes m.target := Int.toNat_of_nonneg hlow
  rw [stored?_eq_none h hi haccessed, Option.getD_none] at hbyte
  simpa only [Place.lane_ofAddress, Place.slot_ofAddress, Stack.byteAt] using hbyte

end spares

/-- Instructions one after the other come through if both do at the start. -/
theorem forM_pair_eq_ok_iff (h : i.Spares m.target j) :
    (forM [i, j] execute).run m = .ok () n ↔
      (i.fault? m.stack.size m.target = none ∧ j.fault? m.stack.size m.target = none) ∧
        n = (m.performed i).performed j := by
  have hnil : (forM [] execute).run ((m.performed i).performed j) = .ok () n ↔
      n = (m.performed i).performed j := by
    rw [List.forM_nil]
    show EStateM.Result.ok () _ = .ok () n ↔ _
    simp [eq_comm]
  rw [forM_cons_eq_ok_iff, forM_cons_eq_ok_iff, fault?_performed h, hnil, and_assoc]

section independent

variable (h : i.Independent m.target j)
include h

theorem register_performed_comm (r : Register) :
    ((m.performed i).performed j).labels.register r =
      ((m.performed j).performed i).labels.register r := by
  rw [register_performed, register_performed, register_performed (m.performed j),
    register_performed m j, lifetime_performed, lifetime_performed]
  cases hi : i.registerLabel? with
  | none => rfl
  | some label =>
    cases hj : j.registerLabel? with
    | none => rfl
    | some label' =>
      obtain ⟨s, text⟩ := label
      obtain ⟨s', text'⟩ := label'
      obtain ⟨v, hv, rfl⟩ := Instruction.exists_written?_of_registerLabel? hi
      obtain ⟨u, hu, rfl⟩ := Instruction.exists_written?_of_registerLabel? hj
      have hne := h.1.registers v hv u (Instruction.mem_views_of_written? hu)
      dsimp only
      by_cases hvr : v.register = r
      · have hur : u.register ≠ r := fun hur => hne (hvr.trans hur.symm)
        rw [if_neg hur, if_neg hur]
      · rw [if_neg hvr, if_neg hvr]

variable (hi : i.fault? m.stack.size m.target = none) (hj : j.fault? m.stack.size m.target = none)
include hi hj

theorem bank_performed_comm :
    ((m.performed i).performed j).bank = ((m.performed j).performed i).bank := by
  rw [bank_performed, result_performed h.1 hi hj, bank_performed, bank_performed (m.performed j),
    result_performed h.2 hj hi, bank_performed m j]
  cases hwi : i.written? with
  | none => rfl
  | some v =>
    cases hwj : j.written? with
    | none => rfl
    | some u =>
      have hne := h.1.registers v hwi u (Instruction.mem_views_of_written? hwj)
      exact Bank.write_comm m.bank hne _ _

theorem stack_performed_comm :
    ((m.performed i).performed j).stack = ((m.performed j).performed i).stack := by
  refine Stack.ext_byteAt (by simp) fun a => ?_
  have hi' := (fault?_performed h.2).trans hi
  have hj' := (fault?_performed h.1).trans hj
  rw [byteAt_performed hj', byteAt_performed hi, stored?_performed h.1, byteAt_performed hi',
    byteAt_performed hj, stored?_performed h.2]
  -- no byte is stored by both
  cases hb : m.stored? a i with
  | none => rfl
  | some b =>
    have haccessed := i.writtenBytes_subset m.target (mem_writtenBytes_of_stored? hi hb)
    rw [stored?_eq_none h.2 hj haccessed]
    rfl

theorem touchedSlots_performed_comm :
    ((m.performed i).performed j).touchedSlots = ((m.performed j).performed i).touchedSlots := by
  rw [performed_touchedSlots ((fault?_performed h.1).trans hj), performed_touchedSlots hi,
    writtenSlots_performed h.1, performed_touchedSlots ((fault?_performed h.2).trans hi),
    performed_touchedSlots hj, writtenSlots_performed h.2]
  refine OrderedSet.ext fun k => ?_
  simp only [OrderedSet.mem_foldl_insert]
  exact or_left_comm

end independent

theorem touchedViews_performed_comm (m : Machine) (i j : Instruction) :
    ((m.performed i).performed j).touchedViews = ((m.performed j).performed i).touchedViews := by
  refine OrderedSet.ext fun v => ?_
  simp only [mem_touchedViews_performed]
  exact or_left_comm

/-- Independent instructions both come through in one order if and only if they do in the other, and
the orders leave the same registers, the same stack, the same labels of registers and the same
marks. -/
theorem execute_in_either_order (h : i.Independent m.target j) :
    ((∃ n, (forM [i, j] execute).run m = .ok () n) ↔
      ∃ n, (forM [j, i] execute).run m = .ok () n) ∧
    ∀ n n', (forM [i, j] execute).run m = .ok () n → (forM [j, i] execute).run m = .ok () n' →
      n.bank = n'.bank ∧ n.stack = n'.stack ∧
      (∀ r, n.labels.register r = n'.labels.register r) ∧
      n.touchedSlots = n'.touchedSlots ∧ n.touchedViews = n'.touchedViews := by
  constructor
  · simp only [forM_pair_eq_ok_iff h.1, forM_pair_eq_ok_iff h.2, exists_and_left, exists_eq,
      and_true]
    exact and_comm
  · intro n n' hn hn'
    obtain ⟨⟨hi, hj⟩, rfl⟩ := (forM_pair_eq_ok_iff h.1).mp hn
    obtain ⟨-, rfl⟩ := (forM_pair_eq_ok_iff h.2).mp hn'
    exact ⟨bank_performed_comm h hi hj, stack_performed_comm h hi hj, register_performed_comm h,
      touchedSlots_performed_comm h hi hj, touchedViews_performed_comm m i j⟩

/-- Two bytes go into one slot, in either order. Only the labels of the slot tell the order. -/
theorem execute_in_either_order_in_one_slot :
    let i : Instruction := .strb (.low (.general 1)) ⟨.whole .sp, 1, false⟩
    let j : Instruction := .strb (.low (.general 2)) ⟨.whole .sp, 6, false⟩
    ∃ m n n', seeded 16 [(.general 1, 0xab), (.general 2, 0xcd)] = .ok m ∧
      i.Independent m.target j ∧
      (forM [i, j] execute).run m = .ok () n ∧ (forM [j, i] execute).run m = .ok () n' ∧
      n.bank = n'.bank ∧ n.stack = n'.stack ∧ n.touchedSlots = n'.touchedSlots ∧
      n.stack.slot 15 = 0x00cd00000000ab00 ∧ n.labels ≠ n'.labels := by
  intro i j
  have hrun : (seeded 16 [(.general 1, 0xab), (.general 2, 0xcd)]).map (fun m => decide
      (m.target ⟨.whole .sp, 1, false⟩ = 121 ∧ m.target ⟨.whole .sp, 6, false⟩ = 126 ∧
        i.fault? m.stack.size m.target = none ∧ j.fault? m.stack.size m.target = none ∧
        ((m.performed i).performed j).stack.slot 15 = 0x00cd00000000ab00 ∧
        ((m.performed i).performed j).labels ≠ ((m.performed j).performed i).labels)) =
      .ok true := by
    decide +kernel
  obtain ⟨m, hm, hrun⟩ := map_eq_ok_iff.mp hrun
  obtain ⟨hfirst, hsecond, hi, hj, hslot, hlabels⟩ := of_decide_eq_true hrun
  have hspares : i.Spares m.target j ∧ j.Spares m.target i := by
    refine ⟨⟨nofun, ?_⟩, ⟨nofun, ?_⟩⟩
    all_goals
      simp [i, j, Instruction.writtenBytes, Instruction.accessedBytes, hfirst, hsecond]
  have hn := (forM_pair_eq_ok_iff hspares.1).mpr ⟨⟨hi, hj⟩, rfl⟩
  have hn' := (forM_pair_eq_ok_iff hspares.2).mpr ⟨⟨hj, hi⟩, rfl⟩
  obtain ⟨hbank, hstack, -, hslots, -⟩ := (execute_in_either_order hspares).2 _ _ hn hn'
  exact ⟨m, _, _, hm, hspares, hn, hn', hbank, hstack, hslots, hslot, hlabels⟩

end Machine

end StackSteps
