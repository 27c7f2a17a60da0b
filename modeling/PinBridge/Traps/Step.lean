import Mathlib.Data.Fintype.Basic
import PinBridge.Breakpoints.Table

/-!
# The execution traps

The trap table of `execution_trap.rs` and its parties.  An application thread runs `on_execute`
before every instruction of an instrumented range, without a lock.  It takes `STOP_CLAIMED`,
scans the 64 slots for live traps that match it, and records the slots it found in
`PENDING_MASK`.  `set` and `remove` hold the table mutex.  The breaker thread runs
`publish_stopped`, which holds the mutex too, and `on_resume`, which does not.

One step is one atomic access.  `used` and `id` are plain fields that are only touched under the
mutex, so their accesses are part of the next step of the holder.  An unlock is part of the last
step under the mutex, and a lock of the first.  `wants` and the bounds decide which instructions
get the callback, and are left out: here any thread may run `on_execute` at any address.

A `Log` is kept next to the state.  No step reads it.
-/

namespace PinBridge.Traps

open Breakpoints (usizeCount usizePred)

/-! ## Slots -/

/-- `MAX_EXECUTION_TRAPS`. -/
abbrev maxExecutionTraps : Nat := 64

abbrev SlotIndex : Type := Fin maxExecutionTraps

/-- The arguments of `set`.  `threadId` is `none` for `ANY_THREAD`. -/
structure Spec (τ : Type*) where
  start : UInt64
  limit : UInt64
  oneShot : Bool
  threadId : Option τ
deriving DecidableEq, Repr

/-- The id, range and options of a trap. -/
structure Trap (τ : Type*) extends Spec τ where
  id : UInt32
deriving DecidableEq, Repr

/-- `struct Slot`. -/
structure Slot (τ : Type*) extends Trap τ where
  used : Bool
  active : Bool
  hits : UInt64
deriving DecidableEq, Repr

variable {τ : Type*} [DecidableEq τ]

/-- `Slot::empty`. -/
def Slot.empty : Slot τ := ⟨⟨⟨0, 0, false, none⟩, 0⟩, false, false, 0⟩

/-- The range and the thread filter of `matches`. -/
def Spec.covers (spec : Spec τ) (thread : τ) (address : UInt64) : Bool :=
  decide (spec.start ≤ address) && decide (address < spec.limit) &&
    (spec.threadId == none || spec.threadId == some thread)

/-- `matches`. -/
def Slot.matches (slot : Slot τ) (thread : τ) (address : UInt64) : Bool :=
  slot.active && slot.covers thread address

/-! ## Program counters -/

/-- The next access of `on_execute` to the slot it is at. -/
inductive ScanOp where
  /-- `active.load` in `matches`. -/
  | active
  /-- `start.load`. -/
  | start
  /-- `end.load`. -/
  | limit (start : UInt64)
  /-- `thread_id.load`. -/
  | threadId (start limit : UInt64)
  /-- The first `one_shot.load`. -/
  | oneShot
  /-- `active.compare_exchange(true, false)`. -/
  | retire
  /-- The second `one_shot.load`. -/
  | oneShotAgain
  /-- `ACTIVE_COUNT.fetch_sub(1)`. -/
  | uncount
  /-- `hits.fetch_add(1)`. -/
  | hit
deriving DecidableEq

/-- The stores of `on_execute` before `exact_stop`. -/
inductive PostOp where
  /-- `PENDING_TID.store`. -/
  | threadId
  /-- `PENDING_ADDRESS.store`. -/
  | address
  /-- `PENDING_MASK.store`. -/
  | mask
deriving DecidableEq

/-- The next access of an application thread in `on_execute`. -/
inductive CallPc where
  /-- Outside, or past the call of `exact_stop`. -/
  | idle
  /-- `STOP_CLAIMED.compare_exchange(false, true)`. -/
  | claim (address : UInt64)
  /-- At slot `i` of the scan, with the mask so far and the slots still to come. -/
  | scan (address : UInt64) (mask : Finset SlotIndex) (i : SlotIndex) (rest : List SlotIndex)
      (op : ScanOp)
  /-- `STOP_CLAIMED.store(false)`. -/
  | release (address : UInt64)
  | post (address : UInt64) (mask : Finset SlotIndex) (op : PostOp)
deriving DecidableEq

/-- The scan goes on with the slots that are left. -/
def CallPc.next (address : UInt64) (mask : Finset SlotIndex) : List SlotIndex → CallPc
  | i :: rest => .scan address mask i rest .active
  | [] => if mask = ∅ then .release address else .post address mask .threadId

/-- The stores of `set` into the slot it has chosen. -/
inductive SetOp where
  /-- `NEXT_ID.fetch_add(1)`, with the writes of `used` and `id`. -/
  | nextId
  | start
  | limit
  | threadId
  | hits
  | oneShot
  | active
  /-- `ACTIVE_COUNT.fetch_add(1)`. -/
  | count
deriving DecidableEq

/-- The next access of the thread in `set` or `remove`, which holds the mutex. -/
inductive ControlPc (τ : Type*) where
  /-- The mutex is not held by `set` or `remove`. -/
  | idle
  /-- `active.load` of slot `i` in the search of `set`. -/
  | search (spec : Spec τ) (pending : Finset SlotIndex) (i : SlotIndex) (rest : List SlotIndex)
  | set (spec : Spec τ) (i : SlotIndex) (op : SetOp)
  /-- `active.swap(false)`. -/
  | remove (i : SlotIndex)
  /-- `ACTIVE_COUNT.fetch_sub(1)`. -/
  | uncount (i : SlotIndex)
  /-- `PENDING_MASK.load`, with the write of `used`. -/
  | free (i : SlotIndex)
deriving DecidableEq

/-- The search of `set` goes on with the slots that are left. -/
def ControlPc.next (spec : Spec τ) (pending : Finset SlotIndex) : List SlotIndex → ControlPc τ
  | i :: rest => .search spec pending i rest
  | [] => .idle

/-- `EVENT_EXECUTION_TRAP`: `thread_id`, `address`, the trap that `arg0` to `arg2`, `arg5` and
`arg6` describe, the hits in `arg3`, the stop generation in `arg4` and bit 1 of `arg5`. -/
structure Event (τ : Type*) where
  thread : Option τ
  address : UInt64
  trap : Trap τ
  hits : UInt64
  generation : UInt64
  filtered : Bool
deriving DecidableEq, Repr

/-- `Event::EMPTY` with the fields that no slot decides. -/
def Event.empty (thread : Option τ) (address generation : UInt64) : Event τ :=
  ⟨thread, address, Slot.empty.toTrap, 0, generation, false⟩

/-- The accesses of `publish_stopped` to a slot, in order. -/
inductive Field where
  /-- The read of `id` and `start.load`. -/
  | start
  | limit
  | hits
  | oneShot
  /-- The first `thread_id.load`. -/
  | filtered
  /-- The second `thread_id.load`. -/
  | threadId
deriving DecidableEq

def Field.next : Field → Option Field
  | .start => some .limit
  | .limit => some .hits
  | .hits => some .oneShot
  | .oneShot => some .filtered
  | .filtered => some .threadId
  | .threadId => none

/-- The event after one more field of the slot has been read. -/
def Field.read (slot : Slot τ) (e : Event τ) : Field → Event τ
  | .start => { e with trap := { e.trap with id := slot.id, start := slot.start } }
  | .limit => { e with trap := { e.trap with limit := slot.limit } }
  | .hits => { e with hits := slot.hits }
  | .oneShot => { e with trap := { e.trap with oneShot := slot.oneShot } }
  | .filtered => { e with filtered := slot.threadId.isSome }
  | .threadId => { e with trap := { e.trap with threadId := slot.threadId } }

/-- The next access of the breaker thread. -/
inductive BreakerPc (τ : Type*) where
  | idle
  /-- `publish_stopped`: the lock, and `PENDING_MASK.swap(0)`. -/
  | swap (generation : UInt64)
  /-- `PENDING_TID.load`. -/
  | loadThread (generation : UInt64) (mask : Finset SlotIndex)
  /-- `PENDING_ADDRESS.load`. -/
  | loadAddress (generation : UInt64) (mask : Finset SlotIndex) (thread : Option τ)
  /-- Field `field` of slot `i`, with the event so far, the slots still to come and the events
  that are complete. -/
  | read (i : SlotIndex) (rest : List SlotIndex) (field : Field) (e : Event τ)
      (done : List (Event τ))
  /-- `on_resume`: `PENDING_TID.store(ANY_THREAD)`. -/
  | clearThread
  /-- `PENDING_ADDRESS.store(0)`. -/
  | clearAddress
  /-- `STOP_CLAIMED.store(false)`. -/
  | clearClaim
deriving DecidableEq

/-- The breaker thread holds the mutex. -/
def BreakerPc.locked : BreakerPc τ → Bool
  | .loadThread .. | .loadAddress .. | .read .. => true
  | _ => false

/-! ## The state -/

/-- A live trap that a thread matched when `on_execute` loaded `active`. -/
structure Match (τ : Type*) where
  thread : τ
  address : UInt64
  trap : Trap τ
deriving DecidableEq, Repr

/-- `holder` is the thread that has taken `STOP_CLAIMED` and has neither given it back nor
stored `PENDING_MASK`.  `covered t` are the slots whose trap has been live and has matched thread
`t` ever since it called `on_execute`.  `missed` are the calls that returned without a claim
although a live trap matched them and no matching execution held the claim. -/
structure Log (τ : Type*) where
  holder : Option τ
  covered : τ → Finset SlotIndex
  matched : List (Match τ)
  missed : List (τ × UInt64)

structure State (τ : Type*) where
  slots : SlotIndex → Slot τ
  activeCount : Nat
  nextId : UInt32
  stopClaimed : Bool
  pendingMask : Finset SlotIndex
  pendingTid : Option τ
  pendingAddress : UInt64
  threads : τ → CallPc
  control : ControlPc τ
  breaker : BreakerPc τ
  /-- What `publish_stopped` has submitted to the priority lane. -/
  published : List (Event τ)
  log : Log τ

def State.init : State τ where
  slots := fun _ => .empty
  activeCount := 0
  nextId := 1
  stopClaimed := false
  pendingMask := ∅
  pendingTid := none
  pendingAddress := 0
  threads := fun _ => .idle
  control := .idle
  breaker := .idle
  published := []
  log := ⟨none, fun _ => ∅, [], []⟩

/-- `set` has not yet counted the trap it has put into slot `i`. -/
def ControlPc.counting (i : SlotIndex) : ControlPc τ → Bool
  | .set _ j .count => i == j
  | _ => false

/-- Slot `i` holds a trap that has been set and neither removed nor retired. -/
def State.live (s : State τ) (i : SlotIndex) : Bool := (s.slots i).active && !s.control.counting i

/-- The live traps that match the thread at the address. -/
def State.matching (s : State τ) (thread : τ) (address : UInt64) : Finset SlotIndex :=
  Finset.univ.filter fun i => s.live i && (s.slots i).covers thread address

/-- What a thread past the claim has matched so far. -/
def CallPc.mask : CallPc → Finset SlotIndex
  | .scan _ mask _ _ _ | .post _ mask _ => mask
  | _ => ∅

/-- The claim, if it is taken, belongs to an execution that has matched a trap or is matched by a
live one. -/
def State.ClaimMatches (s : State τ) : Prop :=
  ∀ h ∈ s.log.holder, (s.threads h).mask ≠ ∅ ∨ s.log.covered h ≠ ∅

instance (s : State τ) : Decidable s.ClaimMatches :=
  inferInstanceAs (Decidable (∀ h ∈ s.log.holder, _))

/-! ## Updates -/

def State.goto (s : State τ) (t : τ) (pc : CallPc) : State τ :=
  { s with threads := Function.update s.threads t pc }

def State.modify (s : State τ) (i : SlotIndex) (f : Slot τ → Slot τ) : State τ :=
  { s with slots := Function.update s.slots i (f (s.slots i)) }

/-- `active` of slot `i` becomes false. -/
def State.deactivate (s : State τ) (i : SlotIndex) : State τ :=
  { s.modify i fun slot => { slot with active := false } with
    log := { s.log with covered := fun t => (s.log.covered t).erase i } }

/-- A call returns without a claim. -/
def State.miss (s : State τ) (t : τ) (address : UInt64) (covered : Finset SlotIndex) : State τ :=
  if covered = ∅ then s
  else { s with log := { s.log with missed := (t, address) :: s.log.missed } }

/-! ## Steps -/

/-- A call, or the next access of a party. -/
inductive Action (τ : Type*) where
  /-- `on_execute` of thread `t`: `ACTIVE_COUNT.load` in `any_active`. -/
  | call (t : τ) (address : UInt64)
  | execute (t : τ)
  /-- `set`: the check of the arguments, the lock, and `PENDING_MASK.load`. -/
  | set (spec : Spec τ)
  /-- `remove`: the lock, and the search for `id`. -/
  | remove (id : UInt32)
  | control
  /-- `publish_stopped`: the first `PENDING_MASK.load`. -/
  | publish (generation : UInt64)
  /-- `on_resume`: `PENDING_MASK.store(0)`. -/
  | resume
  | breaker

variable (is64 : Bool)

/-- The first access of `on_execute`. -/
def State.call (s : State τ) (t : τ) (address : UInt64) : State τ :=
  if s.activeCount = 0 then s.miss t address (s.matching t address)
  else
    { s.goto t (.claim address) with
      log := { s.log with
        covered := Function.update s.log.covered t (s.matching t address) } }

/-- The compare-and-exchange of `STOP_CLAIMED`. -/
def State.claim (s : State τ) (t : τ) (address : UInt64) : State τ :=
  if s.stopClaimed then
    (if s.ClaimMatches then s else s.miss t address (s.log.covered t)).goto t .idle
  else
    { s.goto t (.next address ∅ (List.finRange maxExecutionTraps)) with
      stopClaimed := true
      log := { s.log with holder := some t } }

/-- The next access of the loop over the slots. -/
def State.scan (s : State τ) (t : τ) (address : UInt64) (mask : Finset SlotIndex) (i : SlotIndex)
    (rest : List SlotIndex) : ScanOp → State τ
  | .active =>
      if (s.slots i).active then
        let s := s.goto t (.scan address mask i rest .start)
        if (s.slots i).covers t address then
          { s with log := { s.log with
            matched := ⟨t, address, (s.slots i).toTrap⟩ :: s.log.matched } }
        else s
      else s.goto t (.next address mask rest)
  | .start => s.goto t (.scan address mask i rest (.limit (s.slots i).start))
  | .limit start => s.goto t (.scan address mask i rest (.threadId start (s.slots i).limit))
  | .threadId start limit =>
      if Spec.covers ⟨start, limit, false, (s.slots i).threadId⟩ t address then
        s.goto t (.scan address mask i rest .oneShot)
      else s.goto t (.next address mask rest)
  | .oneShot =>
      s.goto t (.scan address mask i rest
        (if (s.slots i).oneShot then .retire else .oneShotAgain))
  | .retire =>
      if (s.slots i).active then
        (s.deactivate i).goto t (.scan address mask i rest .oneShotAgain)
      else s.goto t (.next address mask rest)
  | .oneShotAgain =>
      s.goto t (.scan address mask i rest (if (s.slots i).oneShot then .uncount else .hit))
  | .uncount =>
      { s.goto t (.scan address mask i rest .hit) with
        activeCount := usizePred is64 s.activeCount }
  | .hit =>
      (s.modify i fun slot => { slot with hits := slot.hits + 1 }).goto t
        (.next address (insert i mask) rest)

/-- The stores before `exact_stop`. -/
def State.post (s : State τ) (t : τ) (address : UInt64) (mask : Finset SlotIndex) :
    PostOp → State τ
  | .threadId => { s.goto t (.post address mask .address) with pendingTid := some t }
  | .address => { s.goto t (.post address mask .mask) with pendingAddress := address }
  | .mask =>
      { s.goto t .idle with
        pendingMask := mask
        log := { s.log with holder := none } }

/-- `on_execute` after its first access. -/
def State.execute (s : State τ) (t : τ) : Option (State τ) :=
  match s.threads t with
  | .idle => none
  | .claim address => some (s.claim t address)
  | .scan address mask i rest op => some (s.scan is64 t address mask i rest op)
  | .release address =>
      let s := s.miss t address (s.log.covered t)
      some { s.goto t .idle with
        stopClaimed := false
        log := { s.log with holder := none } }
  | .post address mask op => some (s.post t address mask op)

/-- The slot after a store of `set`. -/
def SetOp.write (spec : Spec τ) (id : UInt32) (slot : Slot τ) : SetOp → Slot τ
  | .nextId => { slot with used := true, id := id }
  | .start => { slot with start := spec.start }
  | .limit => { slot with limit := spec.limit }
  | .threadId => { slot with threadId := spec.threadId }
  | .hits => { slot with hits := 0 }
  | .oneShot => { slot with oneShot := spec.oneShot }
  | .active => { slot with active := true }
  | .count => slot

def SetOp.next : SetOp → Option SetOp
  | .nextId => some .start
  | .start => some .limit
  | .limit => some .threadId
  | .threadId => some .hits
  | .hits => some .oneShot
  | .oneShot => some .active
  | .active => some .count
  | .count => none

/-- The next store of `set` for slot `i`. -/
def State.setSlot (s : State τ) (spec : Spec τ) (i : SlotIndex) (op : SetOp) : State τ :=
  { s.modify i (fun slot => op.write spec s.nextId slot) with
    nextId := if op = .nextId then s.nextId + 1 else s.nextId
    activeCount := if op = .count then (s.activeCount + 1) % usizeCount is64 else s.activeCount
    control :=
      match op.next with
      | some op => .set spec i op
      | none => .idle }

/-- `set` and `remove` after the lock. -/
def State.controlStep (s : State τ) : Option (State τ) :=
  match s.control with
  | .idle => none
  | .search spec pending i rest =>
      if ((s.slots i).used = false ∨ (s.slots i).active = false) ∧ i ∉ pending then
        some { s with control := .set spec i .nextId }
      else some { s with control := .next spec pending rest }
  | .set spec i op => some (s.setSlot is64 spec i op)
  | .remove i =>
      if (s.slots i).active then some { s.deactivate i with control := .uncount i }
      else some { s with control := .free i }
  | .uncount i =>
      some { s with activeCount := usizePred is64 s.activeCount, control := .free i }
  | .free i =>
      some { s.modify i fun slot => { slot with used := slot.used && decide (i ∈ s.pendingMask) }
        with control := .idle }

/-- The slots of a mask in the order of the table. -/
def slotsOf (mask : Finset SlotIndex) : List SlotIndex :=
  (List.finRange maxExecutionTraps).filter (· ∈ mask)

/-- The loop of `publish_stopped` goes on with the slots that are left, or the events are
submitted. -/
def State.readNext (s : State τ) (empty : Event τ) (done : List (Event τ)) :
    List SlotIndex → State τ
  | i :: rest => { s with breaker := .read i rest .start empty done }
  | [] => { s with breaker := .idle, published := s.published ++ done }

/-- `publish_stopped` and `on_resume` after their first access. -/
def State.breakerStep (s : State τ) : Option (State τ) :=
  match s.breaker with
  | .idle => none
  | .swap generation =>
      if s.control = .idle then
        some { s with pendingMask := ∅, breaker := .loadThread generation s.pendingMask }
      else none
  | .loadThread generation mask =>
      some { s with breaker := .loadAddress generation mask s.pendingTid }
  | .loadAddress generation mask thread =>
      some (s.readNext (.empty thread s.pendingAddress generation) [] (slotsOf mask))
  | .read i rest field e done =>
      let e := field.read (s.slots i) e
      match field.next with
      | some field => some { s with breaker := .read i rest field e done }
      | none => some (s.readNext (.empty e.thread e.address e.generation) (done ++ [e]) rest)
  | .clearThread => some { s with pendingTid := none, breaker := .clearAddress }
  | .clearAddress => some { s with pendingAddress := 0, breaker := .clearClaim }
  | .clearClaim => some { s with stopClaimed := false, breaker := .idle }

/-- The slot `remove` finds. -/
def State.owner (s : State τ) (id : UInt32) : Option SlotIndex :=
  (List.finRange maxExecutionTraps).find? fun i => (s.slots i).used && (s.slots i).id == id

def step (s : State τ) : Action τ → Option (State τ)
  | .call t address => if s.threads t = .idle then some (s.call t address) else none
  | .execute t => s.execute is64 t
  | .set spec =>
      if spec.start = 0 ∨ spec.limit ≤ spec.start then some s
      else if s.control = .idle ∧ s.breaker.locked = false then
        some { s with
          control := .next spec s.pendingMask (List.finRange maxExecutionTraps) }
      else none
  | .remove id =>
      if s.control = .idle ∧ s.breaker.locked = false then
        match s.owner id with
        | some i => some { s with control := .remove i }
        | none => some s
      else none
  | .control => s.controlStep is64
  | .publish generation =>
      if s.breaker = .idle then
        some (if s.pendingMask = ∅ then s else { s with breaker := .swap generation })
      else none
  | .resume =>
      if s.breaker = .idle then some { s with pendingMask := ∅, breaker := .clearThread }
      else none
  | .breaker => s.breakerStep

end PinBridge.Traps
