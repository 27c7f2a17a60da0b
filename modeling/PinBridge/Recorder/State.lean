import PinBridge.Trace.RunEncoder
import PinBridge.Lib.Transition
import PinBridge.Lib.Tally
import PinBridge.Lib.TaggedRing

/-!
# The trace recorder: statics, program counters, histories

The recorder of `record.rs` has three kinds of party.  Any number of
application threads run `submit`.  The query-server thread runs `start_spec`
and `stop`.  The drain thread, one per session, runs `drain_main`.  They meet
in the statics of the module and in the slab.

This file declares the shared state and one program counter type per party.  A
program counter names the next shared access of the party and carries the
locals that are still needed.  A local computation belongs to the access before
it.

A `History` is kept next to the program state.  No step reads it.
-/

namespace PinBridge.Recorder

open TaggedRing (Holder)

/-! ## Shared state -/

/-- The statics of `record.rs` that `submit`, `start_spec`, `stop` and
`drain_main` share, and the slab.  `SLAB` is written once, so the pointer is kept
as a flag.  Counters are 64-bit words. -/
structure Statics where
  /-- `SLAB` is not null. -/
  slab : Bool
  /-- `SLAB_CAP`. -/
  slabCap : Nat
  /-- `Slab::tags`. -/
  tags : Nat → Nat
  /-- `Slab::payloads`, one event per slot. -/
  payloads : Nat → Event
  /-- `CLAIM`. -/
  claim : Nat
  /-- `DRAINED`. -/
  drained : Nat
  /-- `DROPPED`. -/
  dropped : Nat
  /-- `WRITTEN`. -/
  written : Nat
  /-- `ARMED`. -/
  armed : Bool
  /-- `DRAIN_DONE`. -/
  drainDone : Bool
  /-- `IN_FLIGHT`. -/
  inFlight : Nat
  /-- `FAILED`. -/
  failed : Bool
  /-- `SESSION_STARTED`. -/
  sessionStarted : Bool

/-- The statics of a fresh process. -/
def Statics.init : Statics where
  slab := false
  slabCap := 0
  tags := fun _ => 0
  payloads := fun _ => Event.empty
  claim := 0
  drained := 0
  dropped := 0
  written := 0
  armed := false
  drainDone := true
  inFlight := 0
  failed := false
  sessionStarted := false

/-- `u64::wrapping_add`. -/
def wrappingAdd (a b : Nat) : Nat := (a + b) % 2 ^ 64

/-- `u64::wrapping_sub` on two words. -/
def wrappingSub (a b : Nat) : Nat := (a + 2 ^ 64 - b) % 2 ^ 64

theorem wrappingAdd_of_lt {a b : Nat} (h : a + b < 2 ^ 64) : wrappingAdd a b = a + b :=
  Nat.mod_eq_of_lt h

theorem wrappingSub_of_le {a b : Nat} (hb : b ≤ a) (ha : a < 2 ^ 64) :
    wrappingSub a b = a - b := by
  unfold wrappingSub
  omega

/-! ## Producers -/

/-- The next shared access of a call of `submit(event)`. -/
inductive SubmitPc where
  /-- No call. -/
  | idle
  /-- `SLAB.load`. -/
  | loadSlab (event : Event)
  /-- The optimistic `ARMED.load`. -/
  | checkArmed (event : Event)
  /-- `IN_FLIGHT.fetch_add(1)`. -/
  | enter (event : Event)
  /-- The second `ARMED.load`. -/
  | recheckArmed (event : Event)
  /-- `SLAB_CAP.load`. -/
  | loadCap (event : Event)
  /-- `claim.load` of `try_reserve`. -/
  | loadClaim (event : Event) (cap : Nat)
  /-- `drained.load` of `try_reserve`. -/
  | loadDrained (event : Event) (cap current : Nat)
  /-- `claim.compare_exchange_weak(current, current + 1)`. -/
  | exchange (event : Event) (cap current : Nat)
  /-- `DROPPED.fetch_add(1)`. -/
  | overflow
  /-- The payload write of a reserved slot. -/
  | writePayload (event : Event) (cap claim : Nat)
  /-- `tag.store(claim + 1)`. -/
  | storeTag (event : Event) (cap claim : Nat)
  /-- `IN_FLIGHT.fetch_sub(1)`; `recorded` is the event when the call returns true. -/
  | leave (recorded : Option Event)

namespace SubmitPc

/-- Between `fetch_add` and `fetch_sub`. -/
def inside : SubmitPc → Bool
  | idle | loadSlab _ | checkArmed _ | enter _ => false
  | _ => true

/-- Past the second `ARMED` check, and neither reserved nor counted in `DROPPED`. -/
def deciding : SubmitPc → Bool
  | loadCap _ | loadClaim _ _ | loadDrained _ _ _ | exchange _ _ _ | overflow => true
  | _ => false

/-- What the call holds of the slab. -/
def holder : SubmitPc → Holder Event
  | writePayload e _ k => .reserved e k
  | storeTag e _ k => .written e k
  | _ => .free

/-- The event of a call that has reserved a slot and not yet returned. -/
def carried : SubmitPc → Multiset Event
  | writePayload e _ _ | storeTag e _ _ | leave (some e) => {e}
  | _ => 0

/-- Not past the second `ARMED` check, or on the way out without an event. -/
def quiet : SubmitPc → Bool
  | idle | loadSlab _ | checkArmed _ | enter _ | recheckArmed _ | leave none => true
  | _ => false

end SubmitPc

/-- The threads of the target.  Pin thread ids are 32-bit words. -/
structure Pool where
  size : Nat
  size_le : size ≤ 2 ^ 32

/-- A thread of the target. -/
abbrev Pool.Thread (p : Pool) : Type := Fin p.size

/-! ## The drain thread -/

/-- The locals of `drain_main` that the loop keeps.  The kinds mask of the session
goes into the start marker. -/
structure DrainLocals where
  cap : Nat
  mask : UInt32
  next : Nat
  run : DrainRun
deriving DecidableEq, Repr

/-- The next shared access or I/O call of the drain thread. -/
inductive DrainPc where
  /-- No drain thread. -/
  | absent
  /-- `SLAB.load`. -/
  | loadSlab (mask : UInt32)
  /-- `SLAB_CAP.load`. -/
  | loadCap (mask : UInt32)
  /-- `write_all` of the file header. -/
  | writeHeader (mask : UInt32) (cap : Nat)
  /-- `write_all` of the start marker. -/
  | writeStart (mask : UInt32) (cap : Nat)
  /-- `CLAIM.load` at the loop head. -/
  | loadClaim (l : DrainLocals)
  /-- `tag.load` of slot `next`, below the loaded `claim`. -/
  | loadTag (l : DrainLocals)
  /-- The payload read, with the `flush_run` it may call. -/
  | readPayload (l : DrainLocals)
  /-- `WRITTEN.fetch_add(1)`. -/
  | addWritten (l : DrainLocals)
  /-- `DRAINED.store(next)`, with `next` already increased. -/
  | storeDrained (l : DrainLocals)
  /-- `ARMED.load` on an unpublished slot. -/
  | holeArmed (l : DrainLocals)
  /-- `IN_FLIGHT.load` on an unpublished slot. -/
  | holeInFlight (l : DrainLocals)
  /-- `FAILED.store(true)` on an unpublished slot. -/
  | holeFailed (l : DrainLocals)
  /-- `DROPPED.fetch_add(1)` on an unpublished slot. -/
  | holeDropped (l : DrainLocals)
  /-- `ARMED.load` of the exit test. -/
  | exitArmed (l : DrainLocals) (claim : Nat)
  /-- `IN_FLIGHT.load` of the exit test. -/
  | exitInFlight (l : DrainLocals) (claim : Nat)
  /-- `flush_run` of the last run. -/
  | finalFlush (l : DrainLocals)
  /-- `ARMED.store(false)` after a failed write in the loop. -/
  | lossDisarm (l : DrainLocals)
  /-- `FAILED.store(true)` after a failed write. -/
  | lossFailed (l : DrainLocals)
  /-- The `IN_FLIGHT` poll after a failed write. -/
  | lossInFlight (l : DrainLocals)
  /-- `CLAIM.load` after a failed write. -/
  | lossClaim (l : DrainLocals)
  /-- `DROPPED.fetch_add(claim - next)` after a failed write. -/
  | lossDropped (l : DrainLocals) (claim : Nat)
  /-- `DRAINED.store(claim)` after a failed write. -/
  | lossDrained (l : DrainLocals) (claim : Nat)
  /-- `WRITTEN.load` for the stop marker. -/
  | loadWritten (l : DrainLocals)
  /-- `write_all` of the stop marker and `flush`. -/
  | writeStop (l : DrainLocals) (recorded : Nat)
  /-- `FAILED.store(true)` after a failed stop marker. -/
  | stopFailed
  /-- `fail_drain`: `FAILED.store(true)`. -/
  | failFailed
  /-- `fail_drain`: `ARMED.store(false)`. -/
  | failArmed
  /-- `fail_drain`: the `IN_FLIGHT` poll. -/
  | failInFlight
  /-- `fail_drain`: `CLAIM.load`. -/
  | failClaim
  /-- `fail_drain`: `DRAINED.load`. -/
  | failDrained (claim : Nat)
  /-- `fail_drain`: `DROPPED.fetch_add(claim - drained)`. -/
  | failDropped (claim drained : Nat)
  /-- `fail_drain`: `DRAINED.store(claim)`. -/
  | failStore (claim : Nat)
  /-- `DRAIN_DONE.store(true)` of the completion guard. -/
  | complete

/-! ## The query-server thread -/

/-- The arguments of `start_spec`. -/
structure StartSpec where
  kindsMask : UInt32
  ranges : List (UInt64 × UInt64)
  threads : List UInt32
  path : String
deriving DecidableEq, Repr

/-- The errors of `start_spec`. -/
inductive StartError where
  /-- "already recording" -/
  | alreadyRecording
  /-- "previous recording is still draining" -/
  | stillDraining
  /-- "bad kinds mask 0x{kinds_mask:x} (recordable: 0x{RECORDABLE_MASK:x})" -/
  | badKinds (mask : UInt32)
  /-- "bad range count (1..={MAX_RECORD_RANGES})" -/
  | badRangeCount
  /-- "bad range: lo >= hi" -/
  | badRange
  /-- "too many thread ids (max {MAX_RECORD_THREADS})" -/
  | tooManyThreads
  /-- "empty path" -/
  | emptyPath
  /-- "record slab tag alloc failed (cap {cap})", and the same for the payload -/
  | slabAlloc (cap : Nat)
  /-- "trace file create {path} failed: {error}" -/
  | createFile (path : String)
  /-- "drain thread spawn failed -> {status}" -/
  | spawn
  /-- "trace instrumentation flush 0x{range_lo:x}-0x{range_hi:x} failed -> {status}" -/
  | flush (lo hi : UInt64)
deriving DecidableEq, Repr

/-- What the last control call returned. -/
inductive Reply where
  | started
  | refused (error : StartError)
  | stopped (recorded dropped : Nat)
deriving DecidableEq, Repr

/-- The stores of the session reset, in program order.  The context slots are
not part of this state. -/
inductive ResetStore where
  | claim
  | drained
  | dropped
  | written
  | drainDone
  | inFlight
  | failed
  | sessionStarted
  /-- `write_bytes` over the tags.  No other party touches them while a session is
  being set up, except for the tag store of a straggler, which falls before or
  after the word it shares. -/
  | tags
deriving DecidableEq, Repr

/-- The reset of `start_spec`. -/
def ResetStore.all : List ResetStore :=
  [claim, drained, dropped, written, drainDone, inFlight, failed, sessionStarted, tags]

/-- The next shared access or environment call of the query-server thread. -/
inductive ControlPc where
  | idle
  /-- `ARMED.load` of `start_spec`. -/
  | startArmed (spec : StartSpec)
  /-- `DRAIN_DONE.load` of `start_spec`, then the argument checks. -/
  | startDrainDone (spec : StartSpec)
  /-- `SLAB.load` of `ensure_slab`. -/
  | ensureSlab (spec : StartSpec)
  /-- `SLAB_CAP.store(cap)`. -/
  | storeCap (spec : StartSpec) (cap : Nat)
  /-- `SLAB.store`. -/
  | storeSlab (spec : StartSpec)
  /-- `File::create`. -/
  | createFile (spec : StartSpec)
  /-- The remaining stores of the reset. -/
  | reset (spec : StartSpec) (store : ResetStore) (rest : List ResetStore)
  /-- `ARMED.store(true)`. -/
  | arm (spec : StartSpec)
  /-- `pb_pin_spawn_internal_thread`. -/
  | spawn (spec : StartSpec)
  /-- Spawn failed: `ARMED.store(false)`. -/
  | spawnDisarm
  /-- Spawn failed: `FAILED.store(true)`. -/
  | spawnFailed
  /-- Spawn failed: the `IN_FLIGHT` poll. -/
  | spawnInFlight
  /-- Spawn failed: `CLAIM.load`. -/
  | spawnClaim
  /-- Spawn failed: `DRAINED.load`. -/
  | spawnDrained (claim : Nat)
  /-- Spawn failed: `DROPPED.fetch_add(claim - drained)`. -/
  | spawnDropped (claim drained : Nat)
  /-- Spawn failed: `DRAINED.store(claim)`. -/
  | spawnStore (claim : Nat)
  /-- Spawn failed: `DRAIN_DONE.store(true)`. -/
  | spawnDone
  /-- `pb_pin_remove_instrumentation_in_range` over the remaining ranges. -/
  | flush (ranges : List (UInt64 × UInt64))
  /-- Flush failed: `FAILED.store(true)`. -/
  | flushFailed (lo hi : UInt64)
  /-- `ARMED.swap(false)` of `stop`; `error` is what `start_spec` returns after it. -/
  | stopSwap (error : Option StartError)
  /-- `DRAIN_DONE.load` of a `stop` that found `ARMED` false. -/
  | stopDrainDone (error : Option StartError)
  /-- The bounded `DRAIN_DONE` poll. -/
  | stopPoll (error : Option StartError) (left : Nat)
  /-- `DRAIN_DONE.load` after the poll, for the log. -/
  | stopTimedOut (error : Option StartError)
  /-- `WRITTEN.load` for the log. -/
  | stopLogWritten (error : Option StartError)
  /-- `DROPPED.load` for the log. -/
  | stopLogDropped (error : Option StartError)
  /-- `WRITTEN.load` of the result. -/
  | stopWritten (error : Option StartError)
  /-- `DROPPED.load` of the result. -/
  | stopDropped (error : Option StartError) (written : Nat)

namespace ControlPc

/-- Inside a call of `start_spec` that has not yet opened the producer gate. -/
def preparing : ControlPc → Bool
  | startArmed _ | startDrainDone _ | ensureSlab _ | storeCap _ _ | storeSlab _ | createFile _
  | reset _ _ _ | arm _ => true
  | _ => false

/-- Cleaning up after a failed spawn. -/
def unspawned : ControlPc → Bool
  | spawnDisarm | spawnFailed | spawnInFlight | spawnClaim | spawnDrained _ | spawnDropped _ _
  | spawnStore _ | spawnDone => true
  | _ => false

end ControlPc

/-! ## The whole state -/

/-- What has happened in the session so far. -/
structure History where
  /-- The number of submit calls that passed the second `ARMED` check. -/
  accepted : Nat
  /-- The reserved events, in the order of their reservations. -/
  reserved : List Event
  /-- The events of the calls that returned true. -/
  recorded : List Event
  /-- The events the drain thread has read. -/
  read : List Event
deriving DecidableEq, Repr

/-- The history of a session that has just been armed. -/
def History.empty : History := ⟨0, [], [], []⟩

/-- A state of the recorder. -/
structure State (pool : Pool) where
  statics : Statics
  history : History
  threads : pool.Thread → SubmitPc
  control : ControlPc
  drainer : DrainPc
  /-- What the last call of `start_spec` or `stop` returned. -/
  reply : Option Reply
  /-- The records of the last trace file that was flushed and closed. -/
  file : Option (List Event)
  /-- `PINBRIDGE_AGENT_RECORD_CAP`, parsed. -/
  recordCap : Option Nat

/-- A fresh process. -/
def State.init (pool : Pool) (recordCap : Option Nat) : State pool where
  statics := Statics.init
  history := History.empty
  threads := fun _ => .idle
  control := .idle
  drainer := .absent
  reply := none
  file := none
  recordCap := recordCap

end PinBridge.Recorder
