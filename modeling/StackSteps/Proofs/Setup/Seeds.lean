import StackSteps.Proofs.Machine.Calls

/-!
# Starting values

A machine takes the last starting value of each register (`Setup.machine_eq`), but a further value
replaces the first one, and so it is lost on a register that has two (`Setup.machine_withSeed`). If
no register has, the list has room for every further value, which stands beside those of the other
registers (`Setup.withSeed_of_distinct`).
-/
namespace StackSteps

/-- The last value that a list gives to a register. -/
def lastFor (r : Register) (seeds : List (Register × Word)) : Option Word :=
  (seeds.filter (·.1 = r)).getLast?.map (·.2)

section lastFor

variable (r : Register)

theorem lastFor_append (seeds others : List (Register × Word)) :
    lastFor r (seeds ++ others) = (lastFor r others).or (lastFor r seeds) := by
  unfold lastFor
  rw [List.filter_append, List.getLast?_append]
  cases (others.filter (·.1 = r)).getLast? <;> rfl

theorem lastFor_singleton (s : Register) (v : Word) :
    lastFor r [(s, v)] = if s = r then some v else none := by
  by_cases h : s = r <;> simp [lastFor, h]

theorem lastFor_cons (s : Register) (v : Word) (seeds : List (Register × Word)) :
    lastFor r ((s, v) :: seeds) = (lastFor r seeds).or (if s = r then some v else none) := by
  rw [← lastFor_singleton, ← lastFor_append]
  rfl

/-- The last value that is read off some settings, when there is one more to look at. -/
theorem lastFor_filterMap_concat {α : Type} (f : α → Option (Register × Word)) (as : List α)
    (a : α) :
    lastFor r ((as ++ [a]).filterMap f) =
      ((f a).bind fun (s, v) => if s = r then some v else none).or
        (lastFor r (as.filterMap f)) := by
  rw [List.filterMap_append, lastFor_append]
  cases h : f a with
  | none => simp [h, lastFor]
  | some seed =>
    obtain ⟨s, v⟩ := seed
    simp [h, lastFor_singleton]

/-- A value that is set is what one more setting gives. -/
theorem ite_eq_bind_or (s : Register) (v : Word) (before : Option Word) :
    (if r = s then some v else before) =
      ((some (s, v)).bind fun (s, v) => if s = r then some v else none).or before := by
  by_cases h : r = s
  · simp [h]
  · simp [h, Ne.symm h]

theorem lastFor_eq_none {seeds : List (Register × Word)} (h : r ∉ seeds.map Prod.fst) :
    lastFor r seeds = none := by
  have hnil : seeds.filter (·.1 = r) = [] := by
    rw [List.filter_eq_nil_iff]
    intro seed hseed heq
    exact h (of_decide_eq_true heq ▸ List.mem_map_of_mem hseed)
  rw [lastFor, hnil]
  rfl

theorem exists_lastFor {seeds : List (Register × Word)} (h : r ∈ seeds.map Prod.fst) :
    ∃ v, lastFor r seeds = some v := by
  rw [← Option.isSome_iff_exists]
  simpa [lastFor] using h

end lastFor

namespace Bank

/-- The bank with these values. -/
def ofFn (f : Register → Word) : Bank :=
  ⟨⟨Vector.ofFn fun i => f (Register.ofIndex i)⟩⟩

@[simp] theorem get_ofFn (f : Register → Word) (r : Register) : (ofFn f).get r = f r := by
  simp [ofFn, get, Table.get]

theorem get_foldl_set (seeds : List (Register × Word)) (b : Bank) (r : Register) :
    (seeds.foldl (fun b (s, v) => b.set s v) b).get r = (lastFor r seeds).getD (b.get r) := by
  induction seeds using List.reverseRecOn with
  | nil => rfl
  | append_singleton seeds seed ih =>
    rw [List.foldl_append, List.foldl_cons, List.foldl_nil, get_set, ih, lastFor_append,
      lastFor_singleton]
    split <;> rfl

end Bank

namespace Machine

/-- The value of a register in a new machine. -/
def startValue (slots : Nat) (r : Register) : Word :=
  if r.isPointer then UInt64.ofNat (8 * (slots - 1)) else 0

theorem exists_start {slots : Nat} (h : 0 < slots ∧ slots ≤ Stack.maxSize) :
    ∃ m, start slots = .ok m := by
  simp [start, Stack.start, h, bind, Except.bind, pure, Except.pure]

theorem get_start {slots : Nat} {m : Machine} (h : start slots = .ok m) (r : Register) :
    m.bank.get r = startValue slots r := by
  unfold start Stack.start at h
  split at h
  · cases h
    have hsize : (List.replicate slots (0 : Word)).length = slots := List.length_replicate
    rw [Bank.get_start, Stack.top, Stack.size, hsize]
    rfl
  · contradiction

end Machine

namespace Setup

/-- The registers at the start of a run. -/
def startBank (s : Setup) : Bank :=
  .ofFn fun r => (lastFor r s.seeds).getD (Machine.startValue s.slots r)

theorem get_startBank (s : Setup) (r : Register) :
    s.startBank.get r = (lastFor r s.seeds).getD (Machine.startValue s.slots r) :=
  Bank.get_ofFn ..

/-- The machine of a setup is a new one but for its registers and its lifetime of labels. -/
theorem machine_eq (s : Setup) :
    s.machine = (Machine.start s.slots).map fun m =>
      { m with bank := s.startBank, lifetime := s.lifetime } := by
  by_cases hslots : 0 < s.slots ∧ s.slots ≤ Stack.maxSize
  · obtain ⟨m, hm⟩ := Machine.exists_start hslots
    have hbank : s.seeds.foldl (fun b (r, v) => b.set r v) m.bank = s.startBank := by
      refine Bank.ext fun r => ?_
      rw [Bank.get_foldl_set, get_startBank, Machine.get_start hm]
    have hseeded : Machine.seeded s.slots s.seeds =
        .ok (s.seeds.foldl (fun m (r, v) => m.seed r v) m) := by
      rw [Machine.seeded, hm]
      rfl
    have hvalid : s.validate = .ok () := if_pos hslots
    rw [machine, hvalid, hseeded, hm, Machine.foldl_seed, hbank]
    rfl
  · have hinvalid : s.validate = .error (.badStackSize s.slots) := if_neg hslots
    have hstart : Machine.start s.slots = .error (.badStackSize s.slots) := by
      simp [Machine.start, Stack.start, hslots, bind, Except.bind]
    rw [machine, hinvalid, hstart]
    rfl

theorem exists_machine {s : Setup} (h : 0 < s.slots ∧ s.slots ≤ Stack.maxSize) :
    ∃ m, s.machine = .ok m := by
  obtain ⟨m, hm⟩ := Machine.exists_start h
  rw [machine_eq, hm]
  exact ⟨_, rfl⟩

/-- Whether a setup has a machine hangs on the number of slots alone. -/
theorem exists_machine_of_slots_eq {s t : Setup} {m : Machine} (h : s.machine = .ok m)
    (hslots : t.slots = s.slots) : ∃ m', t.machine = .ok m' := by
  rw [machine_eq] at h ⊢
  obtain ⟨m₀, hstart, -⟩ := map_eq_ok_iff.mp h
  rw [hslots, hstart]
  exact ⟨_, rfl⟩

/-- No register has two starting values. -/
def Distinct (s : Setup) : Prop :=
  (s.seeds.map Prod.fst).Nodup

/-- How many starting values there are for a register. -/
def entries (s : Setup) (r : Register) : Nat :=
  (s.seeds.map Prod.fst).count r

theorem map_fst_renew (r : Register) (v : Word) (seeds : List (Register × Word)) :
    (renew r v seeds).map Prod.fst = seeds.map Prod.fst := by
  induction seeds with
  | nil => rfl
  | cons seed rest ih =>
    rw [renew]
    split
    · rfl
    · rw [List.map_cons, ih, List.map_cons]

/-- Renewing changes the last value of a register if its first entry is the last one too. -/
theorem lastFor_renew (r : Register) (v : Word) (seeds : List (Register × Word)) (q : Register) :
    lastFor q (renew r v seeds) =
      if q = r ∧ (seeds.map Prod.fst).count r = 1 then some v else lastFor q seeds := by
  induction seeds with
  | nil => simp [renew]
  | cons seed rest ih =>
    obtain ⟨s, u⟩ := seed
    rw [renew, List.map_cons]
    by_cases hs : s = r
    · subst hs
      rw [if_pos rfl, lastFor_cons, lastFor_cons, List.count_cons_self]
      by_cases hq : q = s
      · subst hq
        by_cases hrest : q ∈ rest.map Prod.fst
        · -- a later entry decides, and there are two
          obtain ⟨w, hw⟩ := exists_lastFor q hrest
          have hcount := List.count_pos_iff.mpr hrest
          have hmany : ¬ (q = q ∧ (rest.map Prod.fst).count q + 1 = 1) := by omega
          rw [hw, if_neg hmany]
          rfl
        · have hcount := List.count_eq_zero.mpr hrest
          rw [lastFor_eq_none q hrest, if_pos rfl, if_pos ⟨rfl, by omega⟩]
          rfl
      · rw [if_neg (Ne.symm hq), if_neg (Ne.symm hq), if_neg fun h => hq h.1]
    · rw [if_neg hs, lastFor_cons, ih, lastFor_cons, List.count_cons_of_ne hs]
      split
      · rfl
      · rfl

/-- There are no more distinct registers than there is room for. -/
theorem length_lt_of_distinct {r : Register} {seeds : List (Register × Word)}
    (hdistinct : (seeds.map Prod.fst).Nodup) (hr : r ∉ seeds.map Prod.fst) : seeds.length < 33 := by
  have hnodup : ((r :: seeds.map Prod.fst).map Register.index).Nodup :=
    (List.nodup_cons.mpr ⟨hr, hdistinct⟩).map fun _ _ => Register.index_inj.mp
  have hcard := hnodup.length_le_card
  simpa using hcard

/-- A further value replaces the first entry for its register, or else is a new last one. -/
theorem withSeed_cases {s s' : Setup} {r : Register} {v : Word} (h : s.withSeed r v = .ok s') :
    s'.slots = s.slots ∧ s'.lifetime = s.lifetime ∧
      (r ∈ s.seeds.map Prod.fst ∧ s'.seeds = renew r v s.seeds ∨
        r ∉ s.seeds.map Prod.fst ∧ s'.seeds = s.seeds ++ [(r, v)]) := by
  rw [withSeed] at h
  split at h
  next hany =>
    cases h
    exact ⟨rfl, rfl, .inl ⟨by simpa using hany, rfl⟩⟩
  next hany =>
    rw [pushSeed] at h
    split at h
    · cases h
      exact ⟨rfl, rfl, .inr ⟨by simpa using hany, rfl⟩⟩
    · contradiction

/-- A further value is the last one for its register unless two entries are there already. -/
theorem lastFor_withSeed {s s' : Setup} {r : Register} {v : Word} (h : s.withSeed r v = .ok s')
    (q : Register) :
    lastFor q s'.seeds =
      if q = r ∧ s.entries r ≤ 1 then some v else lastFor q s.seeds := by
  obtain ⟨-, -, ⟨hr, hseeds⟩ | ⟨hr, hseeds⟩⟩ := withSeed_cases h
  · have hpos : 0 < s.entries r := List.count_pos_iff.mpr hr
    have hone : (s.seeds.map Prod.fst).count r = 1 ↔ s.entries r ≤ 1 := by
      rw [← entries]
      omega
    simp only [hseeds, lastFor_renew, hone]
  · have hzero : s.entries r = 0 := List.count_eq_zero.mpr hr
    rw [hseeds, lastFor_append, lastFor_singleton]
    by_cases hq : q = r
    · rw [if_pos hq.symm, if_pos ⟨hq, by omega⟩]
      rfl
    · rw [if_neg (Ne.symm hq), if_neg fun h => hq h.1]
      rfl

theorem startBank_withSeed {s s' : Setup} {r : Register} {v : Word}
    (h : s.withSeed r v = .ok s') :
    s'.startBank =
      if s.entries r ≤ 1 then s.startBank.set r v else s.startBank := by
  refine Bank.ext fun q => ?_
  rw [get_startBank, lastFor_withSeed h, (withSeed_cases h).1]
  by_cases hcount : s.entries r ≤ 1
  · rw [if_pos hcount, Bank.get_set, get_startBank]
    by_cases hq : q = r
    · rw [if_pos ⟨hq, hcount⟩, if_pos hq.symm]
      rfl
    · rw [if_neg fun h => hq h.1, if_neg (Ne.symm hq)]
  · rw [if_neg fun h => hcount h.2, if_neg hcount, get_startBank]

/-- A further value is set in the machine, or else changes nothing there. -/
theorem machine_withSeed {s s' : Setup} {r : Register} {v : Word} (h : s.withSeed r v = .ok s') :
    s'.machine = s.machine.map fun m => if s.entries r ≤ 1 then m.seed r v else m := by
  obtain ⟨hslots, hlifetime, -⟩ := withSeed_cases h
  rw [machine_eq, machine_eq, startBank_withSeed h, hslots, hlifetime]
  cases Machine.start s.slots with
  | error f => simp only [Except.map]
  | ok m₀ =>
    simp only [Except.map]
    split
    · rw [Machine.seed]
    · rfl

theorem withSeed_of_distinct {s : Setup} (h : s.Distinct) (r : Register) (v : Word) :
    ∃ s', s.withSeed r v = .ok s' ∧ s'.Distinct ∧ s'.slots = s.slots ∧ s'.lifetime = s.lifetime ∧
      ∀ q, lastFor q s'.seeds = if q = r then some v else lastFor q s.seeds := by
  obtain ⟨s', hs'⟩ : ∃ s', s.withSeed r v = .ok s' := by
    by_cases hr : r ∈ s.seeds.map Prod.fst
    · have hany : s.seeds.any (·.1 = r) = true := by
        simpa using hr
      exact ⟨_, if_pos hany⟩
    · have hany : ¬ s.seeds.any (·.1 = r) = true := by
        simpa using hr
      exact ⟨_, (if_neg hany).trans (dif_pos (length_lt_of_distinct h hr))⟩
  obtain ⟨hslots, hlifetime, hseeds⟩ := withSeed_cases hs'
  refine ⟨s', hs', ?_, hslots, hlifetime, fun q => ?_⟩
  · rcases hseeds with ⟨-, hseeds⟩ | ⟨hr, hseeds⟩
    · rw [Distinct, hseeds, map_fst_renew]
      exact h
    · rw [Distinct, hseeds, List.map_append]
      exact List.nodup_append_comm.mp (List.nodup_cons.mpr ⟨hr, h⟩)
  · have hcount : s.entries r ≤ 1 := List.nodup_iff_count_le_one.mp h r
    simp only [lastFor_withSeed hs', hcount, and_true]

end Setup

end StackSteps
