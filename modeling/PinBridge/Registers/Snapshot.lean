import PinBridge.Lib.DeltaLog
import PinBridge.Lib.Sizes
import PinBridge.Lib.Transition
import PinBridge.Trace.Record

/-!
# Register snapshots

`on_rec_registers` of `record.rs` captures the registers of a thread and submits a header
and one component for every sixteen bytes of every register that has changed since the last
snapshot of the thread of which every submit succeeded.  The last complete snapshot is kept
in one of 64 slots that a thread claims once; a thread without a slot always sends all
registers.

A program counter names the next access to shared state: the counter of frames, the owners
of the slots and the ring.  The rest of a slot belongs to its owner, so its reads and stores
are part of the neighbouring step.  A submit succeeds or fails as the environment says, and
a successful one appends its record to `records`.  Threads submit other records between their
snapshots, and the drain thread submits markers.

The attempts of each thread are kept next to the state; no step reads them.
-/

namespace PinBridge.Registers

open scoped Sizes

/-! ## The register table -/

/-- `CONTEXT_REG_COUNT`. -/
abbrev contextRegCount : Nat := 114

/-- An index of the register table. -/
abbrev Index : Type := Fin contextRegCount

/-- The ids of `arch::gp_registers()`, with `rip` and `rflags` last. -/
def gpRegisters (is64 : Bool) : List Nat :=
  if is64 then [10, 7, 9, 8, 4, 3, 5, 6, 11, 12, 13, 14, 15, 16, 17, 18, 26, 25]
  else [56, 53, 55, 54, 47, 45, 49, 51, 58, 57]

/-- `context_reg`. -/
def contextReg (is64 : Bool) (i : Index) : Nat :=
  if i.val < 18 then (gpRegisters is64).getD i 0
  else if i.val < 50 then 91 + (i - 18)
  else if i.val < 82 then 123 + (i - 50)
  else 155 + (i - 82)

/-- `context_width`. -/
def contextWidth (is64 : Bool) (i : Index) : Nat :=
  if i.val < 18 then if i.val < (gpRegisters is64).length then 8 else 0
  else if i.val < 50 then 16
  else if i.val < 82 then 32
  else 64

/-- The index a register id came from. -/
def regIndex (is64 : Bool) (id : Nat) : Nat :=
  if 155 ≤ id then id - 155 + 82
  else if 123 ≤ id then id - 123 + 50
  else if 91 ≤ id then id - 91 + 18
  else (gpRegisters is64).idxOf id

theorem regIndex_contextReg {is64 : Bool} {i : Index} (hi : contextWidth is64 i ≠ 0) :
    regIndex is64 (contextReg is64 i) = i := by
  revert is64 i
  decide

/-- The registers that exist have different ids. -/
theorem contextReg_injective {is64 : Bool} {i j : Index} (hi : contextWidth is64 i ≠ 0)
    (hj : contextWidth is64 j ≠ 0) (h : contextReg is64 i = contextReg is64 j) : i = j := by
  rw [← Fin.val_inj, ← regIndex_contextReg hi, h, regIndex_contextReg hj]

theorem contextReg_ne_zero {is64 : Bool} {i : Index} (hi : contextWidth is64 i ≠ 0) :
    contextReg is64 i ≠ 0 := by
  revert is64 i
  decide

/-! ## Attempts -/

/-- A thread id; `NO_CONTEXT_OWNER` is Pin's invalid thread id. -/
abbrev ThreadId : Type := {t : UInt32 // t ≠ 0xFFFFFFFF}

/-- `values`: eight chunks for every index. -/
abbrev Values : Type := Index → Nat → UInt64

/-- The architecture, and the registers Pin can read in the context of a thread. -/
structure Machine where
  is64 : Bool
  readable : ThreadId → Index → Bool

variable (m : Machine)

/-- `available[index]`. -/
def Machine.available (t : ThreadId) (i : Index) : Bool :=
  m.readable t i && contextWidth m.is64 i != 0

/-- `values` after the reads of a snapshot. -/
def Machine.capture (t : ThreadId) (reads : Values) : Values := fun i chunk =>
  if m.available t i && chunk < contextWidth m.is64 i / 8 then reads i chunk else 0

/-- The bytes of a register. -/
def Machine.data (values : Values) (i : Index) : List UInt8 :=
  (List.range (contextWidth m.is64 i / 8)).flatMap fun chunk =>
    LittleEndian.encode 8 (values i chunk).toNat

/-- A snapshot: its frame id, the instruction and the captured values. -/
structure Snapshot where
  frame : UInt64
  rip : UInt64
  values : Values

/-- A snapshot with what is submitted for it and how the submits so far have ended. -/
structure Attempt extends Snapshot where
  thread : ThreadId
  baseline : Bool
  changed : Index → Bool
  outcomes : List Bool

/-- `mask |= 1 << index` for the indices below `n` that satisfy `p`. -/
def maskOf (p : Nat → Bool) (n : Nat) : Nat :=
  (List.range n).foldl (fun mask i => if p i then mask ||| 2 ^ i else mask) 0

/-- `changed` at an index that may be out of range. -/
def Attempt.changedAt (a : Attempt) (i : Nat) : Bool :=
  if h : i < contextRegCount then a.changed ⟨i, h⟩ else false

/-- `mask_lo`. -/
def Attempt.maskLo (a : Attempt) : Nat := maskOf a.changedAt 64

/-- `mask_hi`. -/
def Attempt.maskHi (a : Attempt) : Nat := maskOf (fun i => a.changedAt (64 + i)) 50

/-- The header of an attempt. -/
def Attempt.header (a : Attempt) : Event :=
  { Event.empty with
    kind := eventRegSnapshot, threadId := a.thread, address := a.rip
    arg1 := UInt64.ofNat a.maskLo, arg2 := UInt64.ofNat a.maskHi
    arg3 := if a.baseline then 1 else 2, arg7 := a.frame }

/-- `parts`. -/
def partCount (width : Nat) : Nat := if width ≤ 8 then 1 else width / 16

/-- One component of an attempt. -/
def Attempt.component (a : Attempt) (i : Index) (part : Nat) : Event :=
  { Event.empty with
    kind := eventRegSnapshot, threadId := a.thread, address := a.rip
    arg0 := UInt64.ofNat (contextReg m.is64 i)
    arg1 := a.values i (part * 2), arg2 := a.values i (part * 2 + 1)
    arg3 := UInt64.ofNat (contextWidth m.is64 i), arg4 := UInt64.ofNat part, arg7 := a.frame }

/-- The components of an attempt, in the order of the submits. -/
def Attempt.components (a : Attempt) : List Event :=
  (List.finRange contextRegCount).flatMap fun i =>
    if a.changed i then
      (List.range (partCount (contextWidth m.is64 i))).map (a.component m i)
    else []

/-- What is submitted for an attempt. -/
def Attempt.events (a : Attempt) : List Event := a.header :: a.components m

/-- All submits have been made and have succeeded. -/
def Attempt.complete (a : Attempt) : Bool :=
  a.outcomes.length == (a.events m).length && a.outcomes.all id

/-! ## The recorder -/

/-- `CONTEXT_SLOTS`. -/
abbrev contextSlots : Nat := 64

abbrev SlotIndex : Type := Fin contextSlots

/-- `struct ContextSlot`; no owner is `NO_CONTEXT_OWNER`. -/
structure ContextSlot where
  owner : Option ThreadId
  valid : Bool
  values : Values

/-- The next access of a thread in `on_rec_registers`. -/
inductive Pc where
  /-- Outside. -/
  | idle
  /-- `context_slot`: `owner.load` of slot `k`. -/
  | scan (x : Snapshot) (k : SlotIndex)
  /-- `context_slot`: `compare_exchange(NO_CONTEXT_OWNER, thread_id)` on slot `k`. -/
  | claim (x : Snapshot) (k : SlotIndex)
  /-- The next submit of an attempt. -/
  | submit (a : Attempt) (slot : Option SlotIndex)

/-- A state of the recorder. -/
structure State where
  /-- `CONTEXT_FRAME`. -/
  contextFrame : UInt64
  /-- `CONTEXT_STATE`. -/
  slots : SlotIndex → ContextSlot
  threads : ThreadId → Pc
  /-- The records that were not dropped. -/
  records : List Event
  /-- The number of snapshots so far. -/
  snapshots : Nat
  /-- The attempts of each thread that have ended. -/
  attempts : ThreadId → List Attempt

/-- A session starts: `reset_context_state` has run, and no thread is inside `on_rec_registers`.
The counter of frames and the values in the slots are those of the sessions before. -/
structure SessionStart (s : State) : Prop where
  reset : ∀ k, (s.slots k).owner = none ∧ (s.slots k).valid = false
  outside : ∀ t, s.threads t = .idle
  records : s.records = []
  snapshots : s.snapshots = 0
  attempts : ∀ t, s.attempts t = []

/-- A session starts with empty slots. -/
def State.init (start : UInt64) : State where
  contextFrame := start
  slots := fun _ => ⟨none, false, fun _ _ => 0⟩
  threads := fun _ => .idle
  records := []
  snapshots := 0
  attempts := fun _ => []

theorem State.init_start (start : UInt64) : SessionStart (State.init start) :=
  ⟨fun _ => ⟨rfl, rfl⟩, fun _ => rfl, rfl, rfl, fun _ => rfl⟩

/-- Thread `t` moves on. -/
def State.goto (s : State) (t : ThreadId) (pc : Pc) : State :=
  { s with threads := Function.update s.threads t pc }

/-- A submit: the record is dropped or gets a sequence number. -/
def State.record (s : State) (e : Event) (outcome : Option UInt64) : State :=
  { s with
    records := s.records ++
      (outcome.map fun sequence => { e with sequence := sequence }).toList }

/-- The slot after `k`. -/
def nextSlot (k : SlotIndex) : Option SlotIndex :=
  if h : k.val + 1 < contextSlots then some ⟨k.val + 1, h⟩ else none

/-- A register differs from the values of a slot. -/
def Machine.differs (old new : Values) (i : Index) : Bool :=
  (List.range (contextWidth m.is64 i / 8)).any fun chunk => old i chunk != new i chunk

/-- The attempt of a snapshot, once `context_slot` has returned. -/
def Machine.attempt (s : State) (t : ThreadId) (x : Snapshot) (slot : Option SlotIndex) : Attempt :=
  let baseline := match slot with
    | some k => !(s.slots k).valid
    | none => true
  { x with
    thread := t
    baseline := baseline
    changed := fun i => m.available t i && (baseline || match slot with
      | some k => m.differs (s.slots k).values x.values i
      | none => true)
    outcomes := [] }

/-- Slot `k` does not belong to the thread and cannot be claimed. -/
def Machine.skip (s : State) (t : ThreadId) (x : Snapshot) (k : SlotIndex) : State :=
  s.goto t (match nextSlot k with
    | some k => .scan x k
    | none => .submit (m.attempt s t x none) none)

/-- The stores of a complete attempt. -/
def Machine.store (slot : ContextSlot) (a : Attempt) : ContextSlot :=
  { slot with
    valid := true
    values := fun i chunk =>
      if m.available a.thread i && chunk < contextWidth m.is64 i / 8 then a.values i chunk
      else slot.values i chunk }

/-- The end of `on_rec_registers`. -/
def Machine.finish (s : State) (t : ThreadId) (a : Attempt) (slot : Option SlotIndex) : State :=
  { s.goto t .idle with
    slots := match slot with
      | some k =>
          if a.complete m then Function.update s.slots k (m.store (s.slots k) a) else s.slots
      | none => s.slots
    attempts := Function.update s.attempts t (s.attempts t ++ [a]) }

/-- A scheduling choice. -/
inductive Action where
  /-- Thread `t` enters `on_rec_registers` and reads its context. -/
  | enter (t : ThreadId) (rip : UInt64) (reads : Values)
  /-- Thread `t` takes the next step of `context_slot`. -/
  | slot (t : ThreadId)
  /-- Thread `t` submits; the record gets a sequence number unless it is dropped. -/
  | submit (t : ThreadId) (outcome : Option UInt64)
  /-- Another record of thread `t`. -/
  | other (t : ThreadId) (e : Event)
  /-- A marker of the drain thread. -/
  | marker (e : Event)

/-- One step of the recorder. -/
def step (s : State) : Action → Option State
  | .enter t rip reads =>
      match s.threads t with
      | .idle =>
          some { s.goto t (.scan ⟨s.contextFrame + 1, rip, m.capture t reads⟩ 0) with
            contextFrame := s.contextFrame + 1
            snapshots := s.snapshots + 1 }
      | _ => none
  | .slot t =>
      match s.threads t with
      | .scan x k =>
          some (match (s.slots k).owner with
            | some owner =>
                if owner = t then s.goto t (.submit (m.attempt s t x (some k)) (some k))
                else m.skip s t x k
            | none => s.goto t (.claim x k))
      | .claim x k =>
          some (if (s.slots k).owner = none then
              { s.goto t (.submit (m.attempt s t x (some k)) (some k)) with
                slots := Function.update s.slots k { s.slots k with owner := some t } }
            else m.skip s t x k)
      | _ => none
  | .submit t outcome =>
      match s.threads t with
      | .submit a slot =>
          (a.events m)[a.outcomes.length]?.map fun e =>
            let a := { a with outcomes := a.outcomes ++ [outcome.isSome] }
            if a.outcomes.length = (a.events m).length then m.finish (s.record e outcome) t a slot
            else (s.record e outcome).goto t (.submit a slot)
      | _ => none
  | .other t e =>
      match s.threads t with
      | .idle =>
          if e.threadId = t ∧ e.kind ≠ eventRegSnapshot then
            some { s with records := s.records ++ [e] }
          else none
      | _ => none
  | .marker e =>
      if e.kind = eventMarker then some { s with records := s.records ++ [e] } else none

end PinBridge.Registers
