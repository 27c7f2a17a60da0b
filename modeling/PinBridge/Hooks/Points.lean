import PinBridge.Hooks.Arming
import PinBridge.Hooks.Tables
import PinBridge.Lib.SortedList

/-!
# The sets of Hook points

The Agent keeps the Hook points and the function entries as two sorted vectors.
Each is published as a snapshot that is searched, behind a Bloom filter that
only grows.  `set`, `set_batch` and `set_plain_batch` add points, `remove` and
`clear` take them away.  A batch is sorted, stripped of what is there already,
cut to the room that is left, and merged into the vector.

`Table.Ok` says that a vector is sorted and bounded, that its snapshot is the
vector, and that the filter holds all of it.  It makes `contains` exact.
`State.Ok` adds that every function entry is a Hook point.  `Describes` says
what the reply to a batch promises.  What is recompiled after an operation is
the subject of `Hooks.State`, whose tables are these (`State.Agrees`).
-/

namespace PinBridge.HookPoints

open Hooks (maxHookPoints)
open Tables (AddressGate bloomInsert bloomMaybeContains)
open SortedList (binarySearch sortDedup mergeLoop)

/-- Addresses are ordered as numbers. -/
local instance addressOrder : LinearOrder UInt64 where
  le := (· ≤ ·)
  lt := (· < ·)
  le_refl := UInt64.le_refl
  le_trans _ _ _ := UInt64.le_trans
  lt_iff_le_not_ge _ _ := by simp only [UInt64.le_iff_toNat_le, UInt64.lt_iff_toNat_lt]; omega
  le_antisymm _ _ := UInt64.le_antisymm
  le_total := UInt64.le_total
  toDecidableLE := inferInstance
  toDecidableLT := inferInstance
  toDecidableEq := inferInstance

/-! ## One vector -/

/-- A sorted vector and what is published of it. -/
structure Table where
  /-- `MASTER`. -/
  master : List UInt64
  /-- `SNAPSHOT`, null before the first publication. -/
  snapshot : Option (List UInt64)
  /-- The Bloom filter and `COUNT`. -/
  gate : AddressGate

/-- The vector at the start. -/
def Table.init : Table := ⟨[], none, Tables.addressTable.gate⟩

/-- Insert addresses in the filter. -/
def Table.bloomInsert (t : Table) (addresses : List UInt64) : Table :=
  { t with gate := t.gate.after (addresses.flatMap Tables.bloomInsert) }

/-- Replace the vector and publish it. -/
def Table.publish (t : Table) (master : List UInt64) : Table :=
  { t with master, snapshot := some master, gate := { t.gate with count := master.length } }

/-- `contains` and `function_contains`. -/
def Table.contains (t : Table) (address : UInt64) : Bool :=
  (bloomMaybeContains address).all (fun load => load t.gate = none) &&
    match t.snapshot with
    | none => false
    | some addresses => (binarySearch addresses address).isOk

/-- The merge of a batch: the new vector, the addresses that are new in it, and
whether some did not fit. -/
def mergeBatch (master addresses : List UInt64) (capacity : Nat) :
    List UInt64 × List UInt64 × Bool :=
  let incoming := sortDedup (addresses.filter fun address => address ≠ 0)
  let incoming := incoming.filter fun address => !(binarySearch master address).isOk
  let available := capacity - master.length
  let capacityFull := available < incoming.length
  let incoming := incoming.take available
  if incoming.isEmpty then (master, incoming, capacityFull)
  else (mergeLoop [] master incoming, incoming, capacityFull)

/-- Merge a batch into the vector. -/
def Table.merge (t : Table) (addresses : List UInt64) : Table × List UInt64 × Bool :=
  let (merged, incoming, capacityFull) := mergeBatch t.master addresses maxHookPoints
  let t := if incoming.isEmpty then t else (t.bloomInsert incoming).publish merged
  (t, incoming, capacityFull)

/-- Take an address out of the vector. -/
def Table.remove (t : Table) (address : UInt64) : Table :=
  match binarySearch t.master address with
  | .ok index => t.publish (t.master.eraseIdx index)
  | .error _ => t

/-- Empty the vector. -/
def Table.clear (t : Table) : Table := if t.master.isEmpty then t else t.publish []

/-! ## The operations -/

/-- The Hook points and the function entries. -/
structure State where
  hooks : Table
  functions : Table

/-- The Agent at the start. -/
def State.init : State := ⟨.init, .init⟩

/-- Whether an address is a Hook point. -/
def State.contains (s : State) (address : UInt64) : Bool := s.hooks.contains address

/-- Whether an address is a function entry. -/
def State.functionContains (s : State) (address : UInt64) : Bool := s.functions.contains address

/-- Add a Hook point. -/
def State.set (s : State) (address : UInt64) : Bool × State :=
  match binarySearch s.hooks.master address with
  | .ok _ => (true, s)
  | .error index =>
      if maxHookPoints ≤ s.hooks.master.length then (false, s)
      else
        let master := s.hooks.master.insertIdx index address
        (true, { s with hooks := (s.hooks.bloomInsert [address]).publish master })

/-- The reply to a batch. -/
structure BatchReply where
  added : Nat
  total : Nat
  capacityFull : Bool
  deriving DecidableEq, Repr

/-- Add function entries. -/
def State.setBatch (s : State) (addresses : List UInt64) : BatchReply × State :=
  let (hooks, incoming, capacityFull) := s.hooks.merge addresses
  let accepted := sortDedup (addresses.filter fun address =>
    address ≠ 0 ∧ (binarySearch hooks.master address).isOk)
  let (functions, _, _) := s.functions.merge accepted
  (⟨incoming.length, hooks.master.length, capacityFull⟩, ⟨hooks, functions⟩)

/-- Add Hook points that are no function entries. -/
def State.setPlainBatch (s : State) (addresses : List UInt64) : BatchReply × State :=
  let (hooks, incoming, capacityFull) := s.hooks.merge addresses
  (⟨incoming.length, hooks.master.length, capacityFull⟩, { s with hooks })

/-- Remove a Hook point. -/
def State.remove (s : State) (address : UInt64) : State :=
  ⟨s.hooks.remove address, s.functions.remove address⟩

/-- Remove all Hook points. -/
def State.clear (s : State) : State := ⟨s.hooks.clear, s.functions.clear⟩

/-- A change of the Hook points. -/
inductive Op where
  | set (address : UInt64)
  | setBatch (addresses : List UInt64)
  | setPlainBatch (addresses : List UInt64)
  | remove (address : UInt64)
  | clear

/-- The state after a change. -/
def State.step (s : State) : Op → State
  | .set address => (s.set address).2
  | .setBatch addresses => (s.setBatch addresses).2
  | .setPlainBatch addresses => (s.setPlainBatch addresses).2
  | .remove address => s.remove address
  | .clear => s.clear

/-- The state after some changes. -/
def run (ops : List Op) : State := ops.foldl State.step State.init

/-! ## What a vector holds -/

/-- The vector is sorted and bounded, and what is published is the vector. -/
structure Table.Ok (t : Table) : Prop where
  sorted : t.master.SortedLT
  bounded : t.master.length ≤ maxHookPoints
  published : t.snapshot.getD [] = t.master
  inserted : t.gate.Holds t.snapshot
  count : t.gate.count = t.master.length

namespace Table

variable {t : Table} {address : UInt64} {addresses master : List UInt64}

theorem Ok.init : Table.init.Ok :=
  ⟨List.Pairwise.nil.sortedLT, Nat.zero_le _, rfl, fun _ h => absurd h List.not_mem_nil, rfl⟩

/-- A search in the snapshot of a good vector is exact. -/
theorem Ok.contains_iff (h : t.Ok) : t.contains address = true ↔ address ∈ t.master := by
  have hsearch : (match t.snapshot with
      | none => false
      | some addresses => (binarySearch addresses address).isOk) = true ↔ address ∈ t.master := by
    have hp := h.published
    cases hs : t.snapshot with
    | none =>
        rw [hs] at hp
        rw [← hp]
        simp
    | some addresses =>
        rw [hs] at hp
        have hsorted := h.sorted
        rw [← hp] at hsorted ⊢
        exact SortedList.isOk_binarySearch hsorted
  rw [contains, Bool.and_eq_true, hsearch, and_iff_right_iff_imp]
  intro hmem
  rw [← h.published] at hmem
  exact List.all_eq_true.mpr fun load hload => decide_eq_true (h.inserted address hmem load hload)

/-- A publication of addresses that the filter holds. -/
theorem Ok.publish (h : t.Ok) {fresh : List UInt64} (hsorted : master.SortedLT)
    (hbounded : master.length ≤ maxHookPoints)
    (hmem : ∀ a ∈ master, a ∈ fresh ∨ a ∈ t.master) :
    ((t.bloomInsert fresh).publish master).Ok := by
  have hstores : ∀ store ∈ fresh.flatMap Tables.bloomInsert, Tables.BloomStore store := by
    intro store hstore
    obtain ⟨_, -, hstore⟩ := List.mem_flatMap.mp hstore
    exact Tables.bloomStore_of_mem hstore
  have hinserted : (t.gate.after (fresh.flatMap Tables.bloomInsert)).Holds (some master) := by
    intro a ha
    obtain ha | ha := hmem a ha
    · exact AddressGate.inserted_flatMap ha _
    · rw [← h.published] at ha
      exact (h.inserted a ha).after hstores
  exact ⟨hsorted, hbounded, rfl, hinserted.of_bloom rfl, rfl⟩

/-- A publication of fewer addresses. -/
theorem Ok.publish_subset (h : t.Ok) (hsorted : master.SortedLT)
    (hbounded : master.length ≤ maxHookPoints) (hmem : ∀ a ∈ master, a ∈ t.master) :
    (t.publish master).Ok := by
  have hold : ∀ a ∈ master, a ∈ [] ∨ a ∈ t.master := fun a ha => .inr (hmem a ha)
  exact h.publish hsorted hbounded hold

end Table

/-! ## What a batch does -/

/-- The addresses of a batch that are new, sorted. -/
def newAddresses (master addresses : List UInt64) : List UInt64 :=
  (sortDedup (addresses.filter fun address => address ≠ 0)).filter fun address =>
    !(binarySearch master address).isOk

/-- How many of them fit. -/
def room (master : List UInt64) : Nat := maxHookPoints - master.length

/-- The addresses of a batch that are accepted. -/
def accepted (master addresses : List UInt64) : List UInt64 :=
  (newAddresses master addresses).take (room master)

section

variable {master addresses : List UInt64} {a b : UInt64}

theorem sortedLT_newAddresses (master addresses : List UInt64) :
    (newAddresses master addresses).SortedLT :=
  ((SortedList.sortedLT_sortDedup _).pairwise.sublist List.filter_sublist).sortedLT

theorem mem_newAddresses (h : master.SortedLT) :
    a ∈ newAddresses master addresses ↔ a ∈ addresses ∧ a ≠ 0 ∧ a ∉ master := by
  have hsearch := SortedList.isOk_binarySearch h (a := a)
  rw [newAddresses, List.mem_filter, SortedList.mem_sortDedup, List.mem_filter, and_assoc]
  simp [← hsearch]

theorem sortedLT_accepted (master addresses : List UInt64) :
    (accepted master addresses).SortedLT :=
  ((sortedLT_newAddresses master addresses).pairwise.sublist (List.take_sublist ..)).sortedLT

theorem mem_of_mem_accepted (h : master.SortedLT) (ha : a ∈ accepted master addresses) :
    a ∈ addresses ∧ a ≠ 0 ∧ a ∉ master :=
  (mem_newAddresses h).mp (List.mem_of_mem_take ha)

/-- A batch of which nothing is new is merged too. -/
theorem mergeBatch_eq (master addresses : List UInt64) :
    mergeBatch master addresses maxHookPoints =
      (mergeLoop [] master (accepted master addresses), accepted master addresses,
        decide (room master < (newAddresses master addresses).length)) := by
  show (if (accepted master addresses).isEmpty then
      (master, accepted master addresses, decide (room master < _)) else _) = _
  split
  next h =>
    rw [List.isEmpty_iff.mp h, SortedList.mergeLoop_nil]
    rfl
  next => rfl

/-- Some new addresses are not accepted exactly when there are more than fit. -/
theorem exists_notMem_take_iff {l : List UInt64} (hl : l.Nodup) {n : Nat} :
    (∃ a ∈ l, a ∉ l.take n) ↔ n < l.length := by
  constructor
  · rintro ⟨a, ha, hnot⟩
    by_contra hle
    rw [List.take_of_length_le (not_lt.mp hle)] at hnot
    exact hnot ha
  · intro hlt
    refine ⟨l[n], List.getElem_mem hlt, fun hmem => ?_⟩
    obtain ⟨j, hj, heq⟩ := List.mem_take_iff_getElem.mp hmem
    have := (hl.getElem_inj_iff).mp heq
    omega

end

/-- What the reply to a batch says of the vector before and after it. -/
structure BatchReply.Describes (r : BatchReply) (addresses old new : List UInt64) : Prop where
  /-- Nothing is lost. -/
  kept : ∀ a ∈ old, a ∈ new
  /-- What is new is of the batch. -/
  only : ∀ a ∈ new, a ∉ old → a ∈ addresses ∧ a ≠ 0
  /-- `added` counts what is new. -/
  added : new.length = old.length + r.added
  /-- `total` counts all points. -/
  total : r.total = new.length
  /-- `capacity_full` says that some address did not fit. -/
  capacityFull : r.capacityFull = true ↔ ∃ a ∈ addresses, a ≠ 0 ∧ a ∉ new
  /-- Then there is no room left. -/
  filled : r.capacityFull = true → new.length = maxHookPoints
  /-- What is new is smaller than what did not fit. -/
  smallest : ∀ a ∈ new, a ∉ old → ∀ b ∈ addresses, b ≠ 0 → b ∉ new → a < b

namespace Table

variable {t : Table} {addresses : List UInt64} {a : UInt64}

theorem merge_snd (t : Table) (addresses : List UInt64) :
    (t.merge addresses).2 = (accepted t.master addresses,
      decide (room t.master < (newAddresses t.master addresses).length)) := by
  rw [merge, mergeBatch_eq]

theorem merge_fst (t : Table) (addresses : List UInt64) :
    (t.merge addresses).1 =
      if (accepted t.master addresses).isEmpty then t
      else (t.bloomInsert (accepted t.master addresses)).publish
        (mergeLoop [] t.master (accepted t.master addresses)) := by
  rw [merge, mergeBatch_eq]

theorem merge_master (t : Table) (addresses : List UInt64) :
    (t.merge addresses).1.master = mergeLoop [] t.master (accepted t.master addresses) := by
  rw [merge_fst]
  split
  next h => rw [List.isEmpty_iff.mp h, SortedList.mergeLoop_nil]
  next => rfl

theorem mem_merge : a ∈ (t.merge addresses).1.master ↔
    a ∈ t.master ∨ a ∈ accepted t.master addresses := by
  rw [merge_master, SortedList.mem_mergeLoop, or_iff_right List.not_mem_nil]

theorem length_merge : (t.merge addresses).1.master.length =
    t.master.length + (accepted t.master addresses).length := by
  rw [merge_master, SortedList.length_mergeLoop, List.length_nil, Nat.zero_add]

/-- An address of a batch is not in the result exactly when it is new and not accepted. -/
theorem Ok.notMem_merge_iff (h : t.Ok) : a ∈ addresses ∧ a ≠ 0 ∧ a ∉ (t.merge addresses).1.master ↔
    a ∈ newAddresses t.master addresses ∧ a ∉ accepted t.master addresses := by
  rw [mem_merge, mem_newAddresses h.sorted, not_or, and_assoc, and_assoc]

theorem Ok.merge (h : t.Ok) (addresses : List UInt64) : (t.merge addresses).1.Ok := by
  have hsorted : (mergeLoop [] t.master (accepted t.master addresses)).SortedLT :=
    SortedList.sortedLT_mergeLoop h.sorted (sortedLT_accepted ..) fun a ha hmem =>
      (mem_of_mem_accepted h.sorted hmem).2.2 ha
  have hbounded : (mergeLoop [] t.master (accepted t.master addresses)).length ≤
      maxHookPoints := by
    rw [← merge_master, length_merge, accepted, List.length_take, room]
    have := h.bounded
    omega
  rw [merge_fst]
  split
  next => exact h
  next =>
    refine h.publish hsorted hbounded fun a ha => ?_
    rw [← merge_master, mem_merge] at ha
    exact ha.symm

/-- The reply to a batch describes the change of the vector. -/
theorem Ok.describes (h : t.Ok) (addresses : List UInt64) :
    BatchReply.Describes ⟨(t.merge addresses).2.1.length, (t.merge addresses).1.master.length,
      (t.merge addresses).2.2⟩ addresses t.master (t.merge addresses).1.master where
  kept a ha := mem_merge.mpr (.inl ha)
  only a ha hnot := by
    obtain ⟨hmem, hne, -⟩ := mem_of_mem_accepted h.sorted ((mem_merge.mp ha).resolve_left hnot)
    exact ⟨hmem, hne⟩
  added := by rw [length_merge, merge_snd]
  total := rfl
  capacityFull := by
    simp only [h.notMem_merge_iff, merge_snd, decide_eq_true_eq]
    exact (exists_notMem_take_iff (sortedLT_newAddresses ..).nodup).symm
  filled hfull := by
    simp only [merge_snd, decide_eq_true_eq] at hfull
    rw [length_merge, accepted, List.length_take, Nat.min_eq_left hfull.le, room]
    have := h.bounded
    omega
  smallest a ha hnot b hb hne hmem := by
    obtain ⟨hnew, hb⟩ := h.notMem_merge_iff.mp ⟨hb, hne, hmem⟩
    exact SortedList.lt_of_mem_take_of_notMem (sortedLT_newAddresses ..)
      ((mem_merge.mp ha).resolve_left hnot) hnew hb

/-- A batch of addresses of a larger vector is accepted as a whole. -/
theorem Ok.mem_merge_of_subset (h : t.Ok) {larger : Table} (hlarger : larger.Ok)
    (hsub : ∀ a ∈ t.master, a ∈ larger.master)
    (haddresses : ∀ a ∈ addresses, a ≠ 0 ∧ a ∈ larger.master) :
    a ∈ (t.merge addresses).1.master ↔ a ∈ t.master ∨ a ∈ addresses := by
  have hnodup : (t.master ++ newAddresses t.master addresses).Nodup :=
    List.nodup_append'.mpr ⟨h.sorted.nodup, (sortedLT_newAddresses ..).nodup,
      fun _ ha hnew => ((mem_newAddresses h.sorted).mp hnew).2.2 ha⟩
  have hmem : t.master ++ newAddresses t.master addresses ⊆ larger.master := by
    intro a ha
    obtain ha | ha := List.mem_append.mp ha
    · exact hsub a ha
    · exact (haddresses a ((mem_newAddresses h.sorted).mp ha).1).2
  have hlength := (hnodup.subperm hmem).length_le
  have hall : accepted t.master addresses = newAddresses t.master addresses := by
    refine List.take_of_length_le ?_
    have := hlarger.bounded
    rw [List.length_append] at hlength
    rw [room]
    omega
  rw [mem_merge, hall, mem_newAddresses h.sorted]
  constructor
  · exact Or.imp_right And.left
  · rintro (ha | ha)
    · exact .inl ha
    · exact (em (a ∈ t.master)).imp_right fun hnot => ⟨ha, (haddresses a ha).1, hnot⟩

/-! ## Single points -/

theorem Ok.insert (h : t.Ok) {i : Nat} (hi : SortedList.Locates t.master a (.error i))
    (hroom : t.master.length < maxHookPoints) :
    ((t.bloomInsert [a]).publish (t.master.insertIdx i a)).Ok := by
  refine h.publish (SortedList.sortedLT_insertIdx h.sorted hi) ?_ fun b hb => ?_
  · rw [SortedList.length_insertIdx hi]
    exact hroom
  · rw [List.mem_singleton]
    exact (SortedList.mem_insertIdx hi).mp hb

theorem Ok.remove (h : t.Ok) (a : UInt64) : (t.remove a).Ok := by
  rw [Table.remove]
  split
  next index hindex =>
    exact h.publish_subset (SortedList.sortedLT_eraseIdx h.sorted index)
      ((List.length_eraseIdx_le _ _).trans h.bounded) fun b hb => List.mem_of_mem_eraseIdx hb
  next => exact h

theorem Ok.mem_remove (h : t.Ok) {b : UInt64} :
    b ∈ (t.remove a).master ↔ b ≠ a ∧ b ∈ t.master := by
  have hs := SortedList.binarySearch_locates h.sorted a
  rw [Table.remove]
  split
  next index hindex =>
    rw [hindex] at hs
    exact SortedList.mem_eraseIdx h.sorted hs
  next index hindex =>
    rw [hindex] at hs
    refine (and_iff_right_of_imp ?_).symm
    rintro hb rfl
    exact hs.notMem hb

theorem clear_master (t : Table) : t.clear.master = [] := by
  rw [Table.clear]
  split
  next h => exact List.isEmpty_iff.mp h
  next => rfl

theorem Ok.clear (h : t.Ok) : t.clear.Ok := by
  rw [Table.clear]
  split
  next => exact h
  next =>
    exact h.publish_subset List.Pairwise.nil.sortedLT (Nat.zero_le _) fun _ ha =>
      absurd ha List.not_mem_nil

end Table

/-! ## Both vectors -/

/-- Both vectors are good, and every function entry is a Hook point. -/
structure State.Ok (s : State) : Prop where
  hooks : s.hooks.Ok
  functions : s.functions.Ok
  sub : ∀ a ∈ s.functions.master, a ∈ s.hooks.master

namespace State

variable {s : State}

theorem Ok.init : State.init.Ok := ⟨.init, .init, fun _ h => h⟩

theorem Ok.mem_set (h : s.Ok) {address a : UInt64} :
    a ∈ (s.set address).2.hooks.master ↔
      a ∈ s.hooks.master ∨ a = address ∧ (s.set address).1 = true := by
  have hs := SortedList.binarySearch_locates h.hooks.sorted address
  rw [set]
  split
  next index hindex =>
    rw [hindex] at hs
    exact (or_iff_left_of_imp fun ha => ha.1 ▸ hs.mem).symm
  next index hindex =>
    rw [hindex] at hs
    split
    next => exact (or_iff_left fun ha => nomatch ha.2).symm
    next => exact (SortedList.mem_insertIdx hs).trans (by rw [or_comm, and_iff_left rfl])

theorem functions_set (s : State) (address : UInt64) :
    (s.set address).2.functions = s.functions := by
  rw [set]
  split
  next => rfl
  next =>
    split
    next => rfl
    next => rfl

theorem Ok.set (h : s.Ok) (address : UInt64) : (s.set address).2.Ok := by
  have hsub : ∀ a ∈ (s.set address).2.functions.master, a ∈ (s.set address).2.hooks.master := by
    intro a ha
    rw [functions_set] at ha
    exact h.mem_set.mpr (.inl (h.sub a ha))
  have hs := SortedList.binarySearch_locates h.hooks.sorted address
  refine ⟨?_, (functions_set s address).symm ▸ h.functions, hsub⟩
  rw [State.set]
  split
  next => exact h.hooks
  next index hindex =>
    rw [hindex] at hs
    split
    next => exact h.hooks
    next hroom => exact h.hooks.insert hs (Nat.lt_of_not_le hroom)

theorem setBatch_hooks (s : State) (addresses : List UInt64) :
    (s.setBatch addresses).2.hooks = (s.hooks.merge addresses).1 := rfl

/-- A batch makes function entries of its addresses that are Hook points afterwards. -/
theorem Ok.mem_functions_setBatch (h : s.Ok) {addresses : List UInt64} {a : UInt64} :
    a ∈ (s.setBatch addresses).2.functions.master ↔ a ∈ s.functions.master ∨
      a ∈ addresses ∧ a ≠ 0 ∧ a ∈ (s.setBatch addresses).2.hooks.master := by
  have hhooks := h.hooks.merge addresses
  have haccepted : ∀ b, b ∈ sortDedup (addresses.filter fun address => address ≠ 0 ∧
      (binarySearch (s.hooks.merge addresses).1.master address).isOk) ↔
      b ∈ addresses ∧ b ≠ 0 ∧ b ∈ (s.hooks.merge addresses).1.master := by
    intro b
    rw [SortedList.mem_sortDedup, List.mem_filter, decide_eq_true_eq,
      SortedList.isOk_binarySearch hhooks.sorted]
  rw [setBatch_hooks, ← haccepted]
  refine h.functions.mem_merge_of_subset hhooks (fun b hb => ?_) fun b hb => ?_
  · exact Table.mem_merge.mpr (.inl (h.sub b hb))
  · exact ((haccepted b).mp hb).2

theorem Ok.setBatch (h : s.Ok) (addresses : List UInt64) : (s.setBatch addresses).2.Ok where
  hooks := h.hooks.merge addresses
  functions := h.functions.merge _
  sub a ha := by
    obtain ha | ⟨-, -, ha⟩ := h.mem_functions_setBatch.mp ha
    · exact Table.mem_merge.mpr (.inl (h.sub a ha))
    · exact ha

theorem Ok.setPlainBatch (h : s.Ok) (addresses : List UInt64) :
    (s.setPlainBatch addresses).2.Ok where
  hooks := h.hooks.merge addresses
  functions := h.functions
  sub a ha := Table.mem_merge.mpr (.inl (h.sub a ha))

theorem Ok.remove (h : s.Ok) (address : UInt64) : (s.remove address).Ok where
  hooks := h.hooks.remove address
  functions := h.functions.remove address
  sub a ha := by
    obtain ⟨hne, ha⟩ := h.functions.mem_remove.mp ha
    exact h.hooks.mem_remove.mpr ⟨hne, h.sub a ha⟩

theorem Ok.clear (h : s.Ok) : s.clear.Ok where
  hooks := h.hooks.clear
  functions := h.functions.clear
  sub a ha := by
    rw [State.clear, Table.clear_master] at ha
    cases ha

/-- Every change keeps the invariant. -/
theorem Ok.step (h : s.Ok) (op : Op) : (s.step op).Ok := by
  cases op with
  | set address => exact h.set address
  | setBatch addresses => exact h.setBatch addresses
  | setPlainBatch addresses => exact h.setPlainBatch addresses
  | remove address => exact h.remove address
  | clear => exact h.clear

/-- The invariant holds after any changes. -/
theorem Ok.foldl (h : s.Ok) (ops : List Op) : (ops.foldl State.step s).Ok := by
  induction ops generalizing s with
  | nil => exact h
  | cons op ops ih => exact ih (h.step op)

end State

theorem run_ok (ops : List Op) : (run ops).Ok := State.Ok.init.foldl ops

/-- After any changes both vectors are sorted, without duplicates, and bounded, the
function entries are Hook points, the lookups are exact, and the reply to the next batch
says what it does. -/
theorem run_represents (ops : List Op) :
    (run ops).hooks.master.SortedLT ∧ (run ops).hooks.master.length ≤ 32768 ∧
      (run ops).functions.master.SortedLT ∧ (run ops).functions.master.length ≤ 32768 ∧
      (∀ a ∈ (run ops).functions.master, a ∈ (run ops).hooks.master) ∧
      (∀ a, (run ops).contains a = true ↔ a ∈ (run ops).hooks.master) ∧
      (∀ a, (run ops).functionContains a = true ↔ a ∈ (run ops).functions.master) ∧
      ∀ addresses,
        ((run ops).setBatch addresses).1.Describes addresses (run ops).hooks.master
            ((run ops).setBatch addresses).2.hooks.master ∧
          ((run ops).setPlainBatch addresses).1.Describes addresses (run ops).hooks.master
            ((run ops).setPlainBatch addresses).2.hooks.master := by
  have h := run_ok ops
  exact ⟨h.hooks.sorted, h.hooks.bounded, h.functions.sorted, h.functions.bounded, h.sub,
    fun _ => h.hooks.contains_iff, fun _ => h.functions.contains_iff,
    fun addresses => ⟨h.hooks.describes addresses, h.hooks.describes addresses⟩⟩

/-! ## The tables of the armed Hooks -/

/-- The addresses as numbers. -/
def toNats (l : List UInt64) : List Nat := l.map UInt64.toNat

/-- The tables of the armed Hooks are the two vectors. -/
structure State.Agrees (s : State) (t : Hooks.State) : Prop where
  hooks : t.hooks = toNats s.hooks.master
  functions : t.functions = toNats s.functions.master

section

variable {l : List UInt64} {a : UInt64}

theorem toNat_injective : Function.Injective UInt64.toNat := fun _ _ => UInt64.toNat_inj.mp

@[simp] theorem mem_toNats : a.toNat ∈ toNats l ↔ a ∈ l :=
  List.mem_map_of_injective toNat_injective

theorem sortedLT_toNats (h : l.SortedLT) : (toNats l).SortedLT :=
  (List.pairwise_map.mpr (h.pairwise.imp UInt64.lt_iff_toNat_lt.mp)).sortedLT

@[simp] theorem length_toNats (l : List UInt64) : (toNats l).length = l.length :=
  List.length_map _

/-- A sorted list of numbers is that of a sorted vector with the same elements. -/
theorem eq_toNats {ns : List Nat} (hns : ns.SortedLT) (hl : l.SortedLT)
    (h : ∀ n, n ∈ ns ↔ ∃ a ∈ l, a.toNat = n) : ns = toNats l :=
  hns.eq_of_mem_iff (sortedLT_toNats hl) fun n => (h n).trans List.mem_map.symm

theorem sortedLT_of_perm {ns ms : List Nat} (hperm : ns.Perm ms) (hms : ms.Nodup)
    (hns : ns.Pairwise (· ≤ ·)) : ns.SortedLT :=
  hns.sortedLE.sortedLT_of_nodup (hperm.nodup_iff.mpr hms)

theorem hooks_sortDedup_toNats (l : List UInt64) :
    Hooks.sortDedup (toNats l) = toNats (sortDedup l) := by
  refine eq_toNats ?_ (SortedList.sortedLT_sortDedup l) fun n => ?_
  · refine List.SortedLE.sortedLT_of_nodup ?_ (List.nodup_dedup _)
    exact ((List.pairwise_insertionSort (· ≤ ·) _).sublist (List.dedup_sublist _)).sortedLE
  · rw [Hooks.sortDedup, List.mem_dedup, List.mem_insertionSort, toNats, List.mem_map]
    simp only [SortedList.mem_sortDedup]

theorem toNats_filter {p : UInt64 → Bool} {q : Nat → Bool} (h : ∀ a ∈ l, q a.toNat = p a) :
    (toNats l).filter q = toNats (l.filter p) := by
  rw [toNats, List.filter_map, toNats]
  exact congrArg _ (List.filter_congr h)

/-- The two merges of a batch do the same. -/
theorem hooks_mergeBatch_toNats {master : List UInt64} (h : master.SortedLT)
    (addresses : List UInt64) :
    Hooks.mergeBatch (toNats master) (toNats addresses) maxHookPoints =
      (toNats (mergeLoop [] master (accepted master addresses)),
        toNats (accepted master addresses)) := by
  have hnew : (Hooks.sortDedup ((toNats addresses).filter (· ≠ 0))).filter
      (· ∉ toNats master) = toNats (newAddresses master addresses) := by
    rw [toNats_filter (p := fun address => address ≠ 0), hooks_sortDedup_toNats]
    · refine toNats_filter fun a _ => ?_
      rw [Bool.eq_iff_iff, decide_eq_true_eq, mem_toNats, Bool.not_eq_true', ← Bool.not_eq_true,
        SortedList.isOk_binarySearch h]
    · intro a _
      rw [Bool.eq_iff_iff, decide_eq_true_eq, decide_eq_true_eq, ne_eq, ne_eq,
        ← UInt64.toNat_inj, UInt64.toNat_zero]
  have htake : (toNats (newAddresses master addresses)).take
      (maxHookPoints - (toNats master).length) = toNats (accepted master addresses) := by
    rw [length_toNats]
    exact List.map_take.symm
  rw [Hooks.mergeBatch, hnew]
  simp only [htake]
  refine congrArg (·, _) ?_
  have hmem : ∀ a ∈ accepted master addresses, a ∉ master := fun a ha =>
    (mem_of_mem_accepted h ha).2.2
  refine eq_toNats ?_ ?_ fun n => ?_
  · refine sortedLT_of_perm (List.perm_insertionSort _ _) ?_ (List.pairwise_insertionSort _ _)
    rw [toNats, toNats, ← List.map_append]
    refine List.Nodup.map toNat_injective ?_
    exact List.nodup_append'.mpr ⟨h.nodup, (sortedLT_accepted ..).nodup, fun _ ha hb => hmem _ hb ha⟩
  · exact SortedList.sortedLT_mergeLoop h (sortedLT_accepted ..) fun a ha hb => hmem a hb ha
  · rw [List.mem_insertionSort, toNats, toNats, ← List.map_append, List.mem_map]
    simp only [List.mem_append, SortedList.mem_mergeLoop, List.not_mem_nil, false_or]

end

/-- The operation of the armed Hooks. -/
def Op.toHooks : Op → Hooks.State → Hooks.State
  | .set address, t => t.set address.toNat
  | .setBatch addresses, t => t.setBatch (toNats addresses)
  | .setPlainBatch addresses, t => t.setPlainBatch (toNats addresses)
  | .remove address, t => t.remove address.toNat
  | .clear, t => t.clear

namespace State

variable {s : State} {t : Hooks.State}

/-- A recompilation leaves the tables alone. -/
theorem Agrees.invalidate (h : s.Agrees t) (windows : List (Nat × Nat)) :
    s.Agrees (t.invalidate windows) := ⟨h.hooks, h.functions⟩

theorem Agrees.set (h : s.Agrees t) (hs : s.Ok) (address : UInt64) :
    (s.set address).2.Agrees (t.set address.toNat) := by
  have hl := SortedList.binarySearch_locates hs.hooks.sorted address
  have hmem : address.toNat ∈ t.hooks ↔ address ∈ s.hooks.master := by
    rw [h.hooks, mem_toNats]
  have hlength : t.hooks.length = s.hooks.master.length := by
    rw [h.hooks, length_toNats]
  rw [State.set, Hooks.State.set]
  split
  next index hindex =>
    rw [hindex] at hl
    rw [if_pos (.inl (hmem.mpr hl.mem))]
    exact h
  next index hindex =>
    rw [hindex] at hl
    split
    next hfull =>
      rw [if_pos (.inr (hlength ▸ hfull))]
      exact h
    next hroom =>
      rw [if_neg (not_or.mpr ⟨fun hin => hl.notMem (hmem.mp hin), hlength ▸ hroom⟩)]
      refine ⟨?_, h.functions⟩
      show t.hooks.orderedInsert (· ≤ ·) address.toNat = _
      rw [h.hooks]
      refine eq_toNats ?_ (SortedList.sortedLT_insertIdx hs.hooks.sorted hl) fun n => ?_
      · refine sortedLT_of_perm (List.perm_orderedInsert _ _ _) ?_
          ((sortedLT_toNats hs.hooks.sorted).pairwise.imp le_of_lt |>.orderedInsert _ _)
        rw [List.nodup_cons, mem_toNats]
        exact ⟨hl.notMem, (sortedLT_toNats hs.hooks.sorted).nodup⟩
      · show _ ↔ ∃ a ∈ s.hooks.master.insertIdx index address, a.toNat = n
        simp only [SortedList.mem_insertIdx hl, exists_eq_or_imp, List.mem_orderedInsert, toNats,
          List.mem_map]
        exact or_congr_left eq_comm

theorem agrees_merge {v : Table} (hv : v.Ok) (addresses : List UInt64) :
    (Hooks.mergeBatch (toNats v.master) (toNats addresses) maxHookPoints).1 =
      toNats (v.merge addresses).1.master := by
  rw [hooks_mergeBatch_toNats hv.sorted, Table.merge_master]

theorem Agrees.setPlainBatch (h : s.Agrees t) (hs : s.Ok) (addresses : List UInt64) :
    (s.setPlainBatch addresses).2.Agrees (t.setPlainBatch (toNats addresses)) := by
  refine ⟨?_, h.functions⟩
  show (Hooks.mergeBatch t.hooks (toNats addresses) maxHookPoints).1 = _
  rw [h.hooks]
  exact agrees_merge hs.hooks addresses

theorem Agrees.setBatch (h : s.Agrees t) (hs : s.Ok) (addresses : List UInt64) :
    (s.setBatch addresses).2.Agrees (t.setBatch (toNats addresses)) := by
  have hhooks : (Hooks.mergeBatch t.hooks (toNats addresses) maxHookPoints).1 =
      toNats (s.hooks.merge addresses).1.master := by
    rw [h.hooks]
    exact agrees_merge hs.hooks addresses
  refine ⟨hhooks, ?_⟩
  show (Hooks.mergeBatch t.functions (Hooks.sortDedup ((toNats addresses).filter fun a =>
    a ≠ 0 ∧ a ∈ (Hooks.mergeBatch t.hooks (toNats addresses) maxHookPoints).1))
      maxHookPoints).1 = _
  rw [hhooks, h.functions, toNats_filter (p := fun address => address ≠ 0 ∧
    (binarySearch (s.hooks.merge addresses).1.master address).isOk), hooks_sortDedup_toNats]
  · exact agrees_merge hs.functions _
  · intro a _
    rw [Bool.eq_iff_iff, decide_eq_true_eq, decide_eq_true_eq, mem_toNats,
      SortedList.isOk_binarySearch (hs.hooks.merge addresses).sorted, ne_eq, ne_eq,
      ← UInt64.toNat_inj, UInt64.toNat_zero]

theorem erase_toNats {v : Table} (hv : v.Ok) (address : UInt64) :
    (toNats v.master).erase address.toNat = toNats (v.remove address).master := by
  have hnats := sortedLT_toNats hv.sorted
  refine eq_toNats (hnats.pairwise.sublist List.erase_sublist).sortedLT
    (hv.remove address).sorted fun n => ?_
  rw [hnats.nodup.mem_erase_iff]
  constructor
  · rintro ⟨hne, hn⟩
    obtain ⟨a, ha, rfl⟩ := List.mem_map.mp hn
    exact ⟨a, hv.mem_remove.mpr ⟨fun heq => hne (congrArg _ heq), ha⟩, rfl⟩
  · rintro ⟨a, ha, rfl⟩
    obtain ⟨hne, ha⟩ := hv.mem_remove.mp ha
    exact ⟨fun heq => hne (toNat_injective heq), mem_toNats.mpr ha⟩

theorem Agrees.remove (h : s.Agrees t) (hs : s.Ok) (address : UInt64) :
    (s.remove address).Agrees (t.remove address.toNat) := by
  have htables : (s.remove address).Agrees (Hooks.State.removeFunctionSignature
      { t with hooks := t.hooks.erase address.toNat, functions := t.functions.erase address.toNat }
      address.toNat) := by
    refine ⟨?_, ?_⟩
    · show t.hooks.erase address.toNat = _
      rw [h.hooks]
      exact erase_toNats hs.hooks address
    · show t.functions.erase address.toNat = _
      rw [h.functions]
      exact erase_toNats hs.functions address
  rw [Hooks.State.remove]
  split
  next => exact htables.invalidate _
  next =>
    split
    next => exact htables.invalidate _
    next => exact htables

theorem agrees_clear (s : State) (t : Hooks.State) : s.clear.Agrees t.clear := by
  refine ⟨?_, ?_⟩
  · show [] = toNats s.hooks.clear.master
    rw [Table.clear_master]
    rfl
  · show [] = toNats s.functions.clear.master
    rw [Table.clear_master]
    rfl

/-- An operation does to the vectors what it does to the tables of the armed Hooks. -/
theorem Agrees.step (h : s.Agrees t) (hs : s.Ok) (op : Op) :
    (s.step op).Agrees (op.toHooks t) := by
  cases op with
  | set address => exact h.set hs address
  | setBatch addresses => exact h.setBatch hs addresses
  | setPlainBatch addresses => exact h.setPlainBatch hs addresses
  | remove address => exact h.remove hs address
  | clear => exact agrees_clear s t

end State

/-- The two developments of the tables agree after any changes. -/
theorem run_agrees (ops : List Op) :
    (run ops).Agrees (ops.foldl (fun t op => op.toHooks t) Hooks.State.init) := by
  have hfold : ∀ (s : State) (t : Hooks.State), s.Ok → s.Agrees t →
      (ops.foldl State.step s).Agrees (ops.foldl (fun t op => op.toHooks t) t) := by
    induction ops with
    | nil => exact fun _ _ _ h => h
    | cons op ops ih => exact fun s t hs h => ih _ _ (hs.step op) (h.step hs op)
  exact hfold _ _ .init ⟨rfl, rfl⟩

end PinBridge.HookPoints
