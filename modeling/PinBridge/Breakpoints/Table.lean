import PinBridge.Lib.Tally
import PinBridge.Lib.Transition
import PinBridge.Trace.Event

/-!
# The breakpoint table

The 64 slots of `bp.rs` and the counter `ACTIVE_COUNT` that the instrumentation callback reads
before it takes the table mutex.  `set` and `remove` hold the mutex.  A hit does not: it tests
`active`, counts the hit and, on a one-shot slot, clears `active` and decrements the counter.
The store and the decrement are one step here, because nothing reads both.

A hit leaves `used` set when it retires a slot, and `remove` finds slots by `used` alone.  So
`remove` with the id of a one-shot breakpoint that has been hit decrements a second time, and
so do two threads that hit one one-shot breakpoint together.  `activeCount_exact_iff` says that
these are the only ways for the counter to go wrong.
-/

namespace PinBridge.Breakpoints

open Transition

/-! ## Slots -/

/-- `MAX_BREAKPOINTS`. -/
abbrev maxBreakpoints : Nat := 64

abbrev SlotIndex : Type := Fin maxBreakpoints

/-- `struct Slot`. -/
structure Slot where
  used : Bool
  id : UInt32
  address : UInt64
  hits : UInt64
  active : Bool
  oneShot : Bool
deriving DecidableEq, Repr

/-- `Slot::empty`. -/
def Slot.empty : Slot := ⟨false, 0, 0, 0, false, false⟩

/-- The slot holds a breakpoint that has been neither removed nor retired. -/
def Slot.Live (slot : Slot) : Prop := slot.used = true ∧ slot.active = true

instance : DecidablePred Slot.Live := fun _ => inferInstanceAs (Decidable (_ ∧ _))

/-- The number of values of a `usize`. -/
def usizeCount (is64 : Bool) : Nat := if is64 then 2 ^ 64 else 2 ^ 32

/-- `fetch_sub(1)`. -/
def usizePred (is64 : Bool) (n : Nat) : Nat := (n + (usizeCount is64 - 1)) % usizeCount is64

theorem usizeCount_gt (is64 : Bool) : maxBreakpoints < usizeCount is64 := by
  cases is64 <;> decide

theorem usizePred_of_pos {is64 : Bool} {n : Nat} (hpos : 0 < n) (h : n < usizeCount is64) :
    usizePred is64 n = n - 1 := by
  unfold usizePred
  generalize usizeCount is64 = w at h ⊢
  rw [show n + (w - 1) = n - 1 + w by omega, Nat.add_mod_right, Nat.mod_eq_of_lt (by omega)]

theorem usizePred_ne {is64 : Bool} {n : Nat} (h : n ≤ maxBreakpoints) : usizePred is64 n ≠ n := by
  have hsize := usizeCount_gt is64
  obtain rfl | hpos := Nat.eq_zero_or_pos n
  · unfold usizePred
    unfold maxBreakpoints at hsize
    generalize usizeCount is64 = w at hsize ⊢
    rw [Nat.zero_add, Nat.mod_eq_of_lt (by omega)]
    omega
  · rw [usizePred_of_pos hpos (Nat.lt_of_le_of_lt h hsize)]
    omega

/-- `SLOTS`, `ACTIVE_COUNT` and `NEXT_ID`. -/
structure Table where
  slots : SlotIndex → Slot
  activeCount : Nat
  nextId : Nat

def Table.init : Table := ⟨fun _ => .empty, 0, 1⟩

/-- The first slot that satisfies `p`. -/
def Table.position (t : Table) (p : Slot → Bool) : Option SlotIndex :=
  (List.finRange maxBreakpoints).find? fun i => p (t.slots i)

/-- `any_active`. -/
def Table.anyActive (t : Table) : Bool := 0 < t.activeCount

/-- The test of `find` and of the first search of `set_impl`. -/
def Slot.matches (address : UInt64) (slot : Slot) : Bool :=
  slot.used && slot.address == address && slot.active

/-- `find`. -/
def Table.find (t : Table) (address : UInt64) : Option SlotIndex :=
  if t.anyActive then t.position (Slot.matches address) else none

variable (is64 : Bool)

/-- The stores of `set_impl` into slot `i`. -/
def Table.add (t : Table) (i : SlotIndex) (address : UInt64) (oneShot : Bool) : Table where
  slots := Function.update t.slots i ⟨true, UInt32.ofNat t.nextId, address, 0, true, oneShot⟩
  activeCount := (t.activeCount + 1) % usizeCount is64
  nextId := (t.nextId + 1) % usizeCount is64

/-- `set_impl`, with `PB_ERR_INVALID_ARGUMENT` and `PB_ERR_OUT_OF_MEMORY` as `none`. -/
def Table.set (t : Table) (address : UInt64) (oneShot : Bool) : Table × Option UInt32 :=
  if address = 0 then (t, none)
  else match t.position (Slot.matches address) with
    | some i => (t, some (t.slots i).id)
    | none => match t.position fun slot => !slot.used || !slot.active with
      | some i => (t.add is64 i address oneShot, some (UInt32.ofNat t.nextId))
      | none => (t, none)

/-- The slot `remove` finds. -/
def Table.owner (t : Table) (id : UInt32) : Option SlotIndex :=
  t.position fun slot => slot.used && slot.id == id

/-- `active.store(false)` and `ACTIVE_COUNT.fetch_sub(1)`, with the value of `used` after it. -/
def Table.retire (t : Table) (i : SlotIndex) (used : Bool) : Table :=
  { t with
    slots := Function.update t.slots i { t.slots i with used := used, active := false }
    activeCount := usizePred is64 t.activeCount }

/-- `remove`. -/
def Table.remove (t : Table) (id : UInt32) : Table × Bool :=
  match t.owner id with
  | some i => (t.retire is64 i false, true)
  | none => (t, false)

/-- `hits.fetch_add(1)`. -/
def Table.countHit (t : Table) (i : SlotIndex) : Table :=
  { t with slots := Function.update t.slots i { t.slots i with hits := (t.slots i).hits + 1 } }

/-! ## Threads -/

/-- The next step of a thread in `on_hit_ctx`, as far as it uses the table. -/
inductive HitPc where
  /-- Outside. -/
  | idle
  /-- `active` was set: the two replay tests, then the hit is counted. -/
  | loaded (i : SlotIndex)
  /-- `one_shot` was set: the slot is retired. -/
  | retiring (i : SlotIndex)
deriving DecidableEq, Repr

/-- The table and the threads. -/
structure State (τ : Type*) where
  table : Table
  threads : τ → HitPc

variable {τ : Type*} [DecidableEq τ]

def State.init : State τ := ⟨.init, fun _ => .idle⟩

/-- An operation, or a step of a thread in a hit. -/
inductive Action (τ : Type*) where
  /-- `set` and `set_oneshot`. -/
  | set (address : UInt64) (oneShot : Bool)
  | remove (id : UInt32)
  /-- Thread `t` executes the callback of slot `i` and loads `active`. -/
  | hit (t : τ) (i : SlotIndex)
  /-- One of the replay tests lets the thread return. -/
  | replay (t : τ)
  /-- The hit is counted, and `one_shot` is loaded. -/
  | count (t : τ)
  /-- The slot is retired. -/
  | retire (t : τ)

def step (s : State τ) : Action τ → Option (State τ)
  | .set address oneShot => some { s with table := (s.table.set is64 address oneShot).1 }
  | .remove id => some { s with table := (s.table.remove is64 id).1 }
  | .hit t i =>
      match s.threads t with
      | .idle =>
          if (s.table.slots i).active then
            some { s with threads := Function.update s.threads t (.loaded i) }
          else some s
      | _ => none
  | .replay t =>
      match s.threads t with
      | .loaded _ => some { s with threads := Function.update s.threads t .idle }
      | _ => none
  | .count t =>
      match s.threads t with
      | .loaded i =>
          some ⟨s.table.countHit i, Function.update s.threads t
            (if (s.table.slots i).oneShot then .retiring i else .idle)⟩
      | _ => none
  | .retire t =>
      match s.threads t with
      | .retiring i =>
          some ⟨s.table.retire is64 i (s.table.slots i).used, Function.update s.threads t .idle⟩
      | _ => none

/-! ## The invariant -/

/-- The number of live breakpoints. -/
def Table.liveCount (t : Table) : Nat := Tally.count Slot.Live t.slots

/-- Active slots are in use, and their addresses are different. -/
structure Table.Ok (t : Table) : Prop where
  used : ∀ i, (t.slots i).active = true → (t.slots i).used = true
  distinct : ∀ i j, (t.slots i).active = true → (t.slots j).active = true →
    (t.slots i).address = (t.slots j).address → i = j

/-- `ACTIVE_COUNT` is the number of live breakpoints, and every live breakpoint is found. -/
structure Table.Exact (t : Table) : Prop where
  count : t.activeCount = t.liveCount
  found : ∀ i, (t.slots i).Live → t.anyActive = true ∧ t.find (t.slots i).address = some i

/-- The slot that a thread is about to retire. -/
def HitPc.retired : HitPc → Option SlotIndex
  | .retiring i => some i
  | _ => none

/-- `remove` and the end of a one-shot hit only meet slots that are still active. -/
def RetiresActive (s : State τ) : Action τ → Prop
  | .remove id => ∀ i ∈ s.table.owner id, (s.table.slots i).active = true
  | .retire t => ∀ i ∈ (s.threads t).retired, (s.table.slots i).active = true
  | _ => True

instance : (s : State τ) → (a : Action τ) → Decidable (RetiresActive s a)
  | s, .remove id => inferInstanceAs (Decidable (∀ i ∈ s.table.owner id, _))
  | s, .retire t => inferInstanceAs (Decidable (∀ i ∈ (s.threads t).retired, _))
  | _, .set _ _ | _, .hit _ _ | _, .replay _ | _, .count _ => isTrue trivial

/-! ## Operations on the table -/

theorem Table.position_eq_some {t : Table} {p : Slot → Bool} {i : SlotIndex}
    (h : t.position p = some i) : p (t.slots i) = true :=
  List.find?_some (p := fun i => p (t.slots i)) h

theorem Table.position_eq_none {t : Table} {p : Slot → Bool} :
    t.position p = none ↔ ∀ i, p (t.slots i) = false := by
  simp [Table.position, List.find?_eq_none]

theorem Slot.matches_iff {address : UInt64} {slot : Slot} :
    slot.matches address = true ↔ slot.used = true ∧ slot.address = address ∧ slot.active = true := by
  simp [Slot.matches, and_assoc]

theorem Table.liveCount_le (t : Table) : t.liveCount ≤ maxBreakpoints := by
  have := Tally.count_le_card (p := Slot.Live) (g := t.slots)
  rwa [Fintype.card_fin] at this

theorem Table.Ok.init : Table.init.Ok := ⟨nofun, nofun⟩

theorem Table.Exact.of_count {t : Table} (hok : t.Ok) (h : t.activeCount = t.liveCount) :
    t.Exact := by
  refine ⟨h, fun i hi => ?_⟩
  have hactive : t.anyActive = true := by
    rw [Table.anyActive, h]
    exact decide_eq_true (Tally.count_pos hi)
  refine ⟨hactive, ?_⟩
  rw [Table.find, if_pos hactive]
  cases hfind : t.position (Slot.matches (t.slots i).address) with
  | none =>
      have := Table.position_eq_none.mp hfind i
      rw [Slot.matches_iff.mpr ⟨hi.1, rfl, hi.2⟩] at this
      cases this
  | some j =>
      obtain ⟨-, haddress, hj⟩ := Slot.matches_iff.mp (Table.position_eq_some hfind)
      rw [hok.distinct j i hj hi.2 haddress]

/-- The table without slot `i`. -/
theorem Table.Ok.retire {t : Table} (h : t.Ok) (i : SlotIndex) (used : Bool) :
    (t.retire is64 i used).Ok := by
  constructor
  · intro j hj
    by_cases hji : j = i
    · subst hji
      simp [Table.retire] at hj
    · simp only [Table.retire, Function.update_of_ne hji] at hj ⊢
      exact h.used j hj
  · intro j k hj hk heq
    by_cases hji : j = i
    · subst hji
      simp [Table.retire] at hj
    · by_cases hki : k = i
      · subst hki
        simp [Table.retire] at hk
      · simp only [Table.retire, Function.update_of_ne hji, Function.update_of_ne hki] at hj hk heq
        exact h.distinct j k hj hk heq

/-- Retiring a slot keeps the counter exact if and only if the slot was active. -/
theorem Table.retire_exact_iff {t : Table} (hok : t.Ok) (h : t.Exact) (i : SlotIndex)
    (used : Bool) : (t.retire is64 i used).Exact ↔ (t.slots i).active = true := by
  have hcount := Tally.count_update (p := Slot.Live) (g := t.slots) i
    { t.slots i with used := used, active := false }
  have hdead : ¬ Slot.Live { t.slots i with used := used, active := false } := fun hl => nomatch hl.2
  rw [if_neg hdead, Nat.add_zero] at hcount
  have hnew : (t.retire is64 i used).activeCount = usizePred is64 t.liveCount := by
    rw [Table.retire, h.count]
  constructor
  · intro hexact
    by_contra hinactive
    rw [if_neg fun hl : Slot.Live _ => hinactive hl.2, Nat.add_zero] at hcount
    have hsame : (t.retire is64 i used).liveCount = t.liveCount := hcount
    exact usizePred_ne t.liveCount_le (hnew.symm.trans (hexact.count.trans hsame))
  · intro hactive
    refine .of_count (hok.retire is64 i used) ?_
    rw [if_pos ⟨hok.used i hactive, hactive⟩] at hcount
    have hsub : (t.retire is64 i used).liveCount + 1 = t.liveCount := hcount
    have hlt := Nat.lt_of_le_of_lt t.liveCount_le (usizeCount_gt is64)
    rw [hnew, usizePred_of_pos (by omega) hlt]
    omega

/-- A breakpoint at an address that has none. -/
theorem Table.Ok.add {t : Table} (h : t.Ok) {i : SlotIndex} {address : UInt64}
    (hnew : ∀ j, (t.slots j).active = true → (t.slots j).address ≠ address) (oneShot : Bool) :
    (t.add is64 i address oneShot).Ok := by
  constructor
  · intro j hj
    by_cases hji : j = i
    · subst hji
      simp [Table.add]
    · simp only [Table.add, Function.update_of_ne hji] at hj ⊢
      exact h.used j hj
  · intro j k hj hk heq
    unfold Table.add at hj hk heq
    dsimp only at hj hk heq
    by_cases hji : j = i <;> by_cases hki : k = i
    · rw [hji, hki]
    · rw [hji, Function.update_self, Function.update_of_ne hki] at heq
      rw [Function.update_of_ne hki] at hk
      exact absurd heq.symm (hnew k hk)
    · rw [hki, Function.update_self, Function.update_of_ne hji] at heq
      rw [Function.update_of_ne hji] at hj
      exact absurd heq (hnew j hj)
    · rw [Function.update_of_ne hji, Function.update_of_ne hki] at heq
      rw [Function.update_of_ne hji] at hj
      rw [Function.update_of_ne hki] at hk
      exact h.distinct j k hj hk heq

/-- A slot that is filled was not live before. -/
theorem Table.liveCount_add (t : Table) {i : SlotIndex} (h : (t.slots i).active = false)
    (address : UInt64) (oneShot : Bool) :
    (t.add is64 i address oneShot).liveCount = t.liveCount + 1 := by
  have hcount := Tally.count_update (p := Slot.Live) (g := t.slots) i
    ⟨true, UInt32.ofNat t.nextId, address, 0, true, oneShot⟩
  rwa [if_neg fun hl : Slot.Live _ => Bool.false_ne_true (h.symm.trans hl.2),
    if_pos ⟨rfl, rfl⟩, Nat.add_zero] at hcount

/-- `set` keeps the table in order and the counter exact. -/
theorem Table.Ok.set {t : Table} (h : t.Ok) (address : UInt64) (oneShot : Bool) :
    (t.set is64 address oneShot).1.Ok ∧ (t.Exact → (t.set is64 address oneShot).1.Exact) := by
  unfold Table.set
  split
  · exact ⟨h, id⟩
  split
  · exact ⟨h, id⟩
  rename_i hnew
  split
  case h_2 => exact ⟨h, id⟩
  case h_1 i hfree =>
    have hinactive : (t.slots i).active = false := by
      have := Table.position_eq_some hfree
      by_contra hactive
      rw [Bool.not_eq_false] at hactive
      simp [hactive, h.used i hactive] at this
    have hok : (t.add is64 i address oneShot).Ok := by
      refine h.add is64 (fun j hj heq => ?_) oneShot
      have := Table.position_eq_none.mp hnew j
      rw [Slot.matches_iff.mpr ⟨h.used j hj, heq, hj⟩] at this
      cases this
    refine ⟨hok, fun hexact => .of_count hok ?_⟩
    have hlive := t.liveCount_add is64 hinactive address oneShot
    have hlt : t.liveCount + 1 < usizeCount is64 := by
      rw [← hlive]
      exact Nat.lt_of_le_of_lt (Table.liveCount_le _) (usizeCount_gt is64)
    rw [hlive, ← Nat.mod_eq_of_lt hlt, ← hexact.count]
    rfl

/-- Counting a hit changes nothing else. -/
theorem Table.Ok.countHit {t : Table} (h : t.Ok) (i : SlotIndex) :
    (t.countHit i).Ok ∧ (t.Exact → (t.countHit i).Exact) := by
  have hslots : ∀ j, ((t.countHit i).slots j).used = (t.slots j).used ∧
      ((t.countHit i).slots j).active = (t.slots j).active ∧
      ((t.countHit i).slots j).address = (t.slots j).address := by
    intro j
    by_cases hji : j = i
    · subst hji
      simp [Table.countHit]
    · simp [Table.countHit, hji]
  have hok : (t.countHit i).Ok := by
    constructor
    · intro j hj
      rw [(hslots j).2.1] at hj
      rw [(hslots j).1]
      exact h.used j hj
    · intro j k hj hk heq
      rw [(hslots j).2.1] at hj
      rw [(hslots k).2.1] at hk
      rw [(hslots j).2.2, (hslots k).2.2] at heq
      exact h.distinct j k hj hk heq
  refine ⟨hok, fun hexact => .of_count hok ?_⟩
  have hcount := Tally.count_update (p := Slot.Live) (g := t.slots) i
    { t.slots i with hits := (t.slots i).hits + 1 }
  have hsame : Slot.Live { t.slots i with hits := (t.slots i).hits + 1 } ↔ (t.slots i).Live :=
    Iff.rfl
  rw [if_congr hsame rfl rfl] at hcount
  exact hexact.count.trans (Nat.add_right_cancel hcount).symm

/-! ## Runs -/

theorem Table.Ok.step {s s' : State τ} {a : Action τ} (h : s.table.Ok)
    (hstep : step is64 s a = some s') : s'.table.Ok := by
  cases a with
  | set address oneShot =>
      cases hstep
      exact (h.set is64 address oneShot).1
  | remove id =>
      cases hstep
      unfold Table.remove
      split
      · exact h.retire is64 _ false
      · exact h
  | hit t i =>
      simp only [Breakpoints.step] at hstep
      split at hstep
      · split at hstep <;> cases hstep <;> exact h
      · cases hstep
  | replay t =>
      simp only [Breakpoints.step] at hstep
      split at hstep <;> cases hstep
      exact h
  | count t =>
      simp only [Breakpoints.step] at hstep
      split at hstep <;> cases hstep
      exact (h.countHit _).1
  | retire t =>
      simp only [Breakpoints.step] at hstep
      split at hstep <;> cases hstep
      exact h.retire is64 _ _

/-- A step keeps the counter exact if and only if it retires nothing that is not active. -/
theorem Table.exact_step {s s' : State τ} {a : Action τ} (hok : s.table.Ok) (h : s.table.Exact)
    (hstep : step is64 s a = some s') : s'.table.Exact ↔ RetiresActive s a := by
  cases a with
  | set address oneShot =>
      cases hstep
      exact iff_of_true ((hok.set is64 address oneShot).2 h) trivial
  | remove id =>
      cases hstep
      unfold Table.remove RetiresActive
      cases howner : s.table.owner id with
      | some i =>
          rw [Table.retire_exact_iff is64 hok h]
          simp [howner]
      | none => exact iff_of_true h (by simp [howner])
  | hit t i =>
      refine iff_of_true ?_ trivial
      simp only [Breakpoints.step] at hstep
      split at hstep
      · split at hstep <;> cases hstep <;> exact h
      · cases hstep
  | replay t =>
      refine iff_of_true ?_ trivial
      simp only [Breakpoints.step] at hstep
      split at hstep <;> cases hstep
      exact h
  | count t =>
      refine iff_of_true ?_ trivial
      simp only [Breakpoints.step] at hstep
      split at hstep <;> cases hstep
      exact (hok.countHit _).2 h
  | retire t =>
      simp only [Breakpoints.step] at hstep
      split at hstep <;> cases hstep
      rename_i i hpc
      rw [Table.retire_exact_iff is64 hok h, RetiresActive, hpc]
      simp [HitPc.retired]

theorem Table.Exact.init : Table.init.Exact :=
  .of_count .init (Eq.symm (Tally.count_eq_zero.mpr fun _ h => nomatch h.1))

/-- The counter stays exact, and every live breakpoint is found, on a run of any operations and
threads if and only if the run retires no slot that is not active. -/
theorem activeCount_exact_iff (as : List (Action τ)) (s : State τ)
    (hrun : run (step is64) State.init as = some s) :
    Always (step is64) (fun s => s.table.Exact) State.init as ↔
      Guarded (step is64) RetiresActive State.init as :=
  Guarded.always_iff (I := fun s : State τ => s.table.Ok)
    (fun hok hstep => Table.Ok.step is64 hok hstep)
    (fun hok h hstep => Table.exact_step is64 hok h hstep) Table.Ok.init Table.Exact.init hrun

/-! ## A stale id -/

/-- A persistent breakpoint, a one-shot breakpoint that is hit, and its removal. -/
def staleRemove : List (Action Unit) :=
  [.set 0x1000 false, .set 0x2000 true, .hit () 1, .count (), .retire (), .remove 2]

/-- The breakpoint at `0x1000` is live, and the counter says that there is none. -/
theorem live_breakpoint_not_found :
    ¬ ∀ (is64 : Bool) (as : List (Action Unit)) (s : State Unit),
      run (step is64) State.init as = some s → s.table.Exact := by
  intro h
  have hlost : (run (step true) State.init staleRemove).map (fun s =>
      (decide (s.table.slots 0).Live, s.table.anyActive)) = some (true, false) := by
    decide +kernel
  obtain ⟨s, hrun, hs⟩ := Option.map_eq_some_iff.mp hlost
  obtain ⟨hlive, hactive⟩ := Prod.mk.inj hs
  have := ((h true staleRemove s hrun).found 0 (of_decide_eq_true hlive)).1
  rw [hactive] at this
  cases this

/-- A one-shot breakpoint that is hit, set again and removed before the next hit. -/
theorem activeCount_exact_iff_run :
    Always (step true) (fun s => s.table.Exact) (State.init : State Unit)
      [.set 0x1000 true, .hit () 0, .count (), .retire (), .set 0x1000 true, .remove 2,
        .remove 2] := by
  have hrun : (run (step true) (State.init : State Unit) [.set 0x1000 true, .hit () 0, .count (),
      .retire (), .set 0x1000 true, .remove 2, .remove 2]).isSome := by decide +kernel
  obtain ⟨s, hs⟩ := Option.isSome_iff_exists.mp hrun
  exact (activeCount_exact_iff true _ s hs).mpr (by decide +kernel)

end PinBridge.Breakpoints
