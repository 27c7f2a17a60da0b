import Mathlib.Algebra.Ring.Nat
import Mathlib.Data.Fintype.Basic
import PinBridge.Lib.Transition

/-!
# The synchronous interceptor rendezvous

An application thread that hits an interceptor copies its request into one of
sixteen slots and waits for a bounded time (`rendezvous` in `sync_intercept.rs`).
The scripting thread takes pending requests (`take_pending`) and answers them
(`complete`).  Either party may be late: the application thread cancels a request
it has given up, and the scripting thread reaps a cancelled slot.

Requests and responses are copied as a whole, so their types are parameters.
Generations and counters are 64-bit words.  A program counter names the next shared
access.  Calls of `rendezvous` are numbered, and a `Log` is kept next to the state;
no step reads either.
-/

namespace PinBridge.Intercept

/-! ## Slots -/

/-- The states of a slot. -/
inductive SlotState where
  /-- `IDLE`. -/
  | idle
  /-- `WRITING`. -/
  | writing
  /-- `PENDING`. -/
  | pending
  /-- `HANDLING`. -/
  | handling
  /-- `DECIDED`. -/
  | decided
  /-- `CANCELLED`. -/
  | cancelled
deriving DecidableEq, Repr

/-- `SLOT_COUNT`. -/
abbrev slotCount : Nat := 16

/-- An index into `SLOTS`. -/
abbrev SlotIndex : Type := Fin slotCount

/-- `struct Slot`.  The last two fields belong to the log: the call that claimed the
slot last, and whether that call has returned and the scripting thread has neither
scanned the slot nor completed the call since. -/
structure Slot (ρ σ : Type*) where
  state : SlotState
  generation : Nat
  /-- The level of the slot's semaphore. -/
  semaphore : Bool
  request : ρ
  response : σ
  owner : Option Nat
  unvisited : Bool

/-! ## Program counters -/

/-- A call of `rendezvous` with the slot it claimed and its generation. -/
structure Ticket where
  call : Nat
  slot : SlotIndex
  generation : Nat
deriving DecidableEq, Repr

/-- The next shared access of a call of `rendezvous`. -/
inductive CallPc (ρ σ : Type*) where
  /-- No call. -/
  | idle
  /-- `compare_exchange(IDLE, WRITING)` on slot `k`. -/
  | claim (call : Nat) (request : ρ) (k : SlotIndex)
  /-- `BUSY.fetch_add(1)`. -/
  | addBusy (call : Nat)
  /-- `NEXT_GENERATION.fetch_add(1)`. -/
  | nextGeneration (call : Nat) (request : ρ) (k : SlotIndex)
  /-- `slot.generation.store(generation)`. -/
  | storeGeneration (t : Ticket) (request : ρ)
  /-- The write of the request. -/
  | writeRequest (t : Ticket) (request : ρ)
  /-- The write of the empty response. -/
  | clearResponse (t : Ticket)
  /-- `slot.semaphore.load`. -/
  | loadSemaphore (t : Ticket)
  /-- `slot.state.store(IDLE)` without a semaphore. -/
  | abandon (t : Ticket)
  /-- `pb_pin_semaphore_clear`. -/
  | clearSemaphore (t : Ticket)
  /-- `slot.state.store(PENDING)`. -/
  | storePending (t : Ticket)
  /-- `pb_pin_semaphore_timed_wait`. -/
  | wait (t : Ticket)
  /-- `slot.state.load`. -/
  | loadState (t : Ticket)
  /-- The read of the response. -/
  | readResponse (t : Ticket)
  /-- `COMPLETED.fetch_add(1)`. -/
  | addCompleted (t : Ticket) (response : σ)
  /-- `slot.state.store(IDLE)` after a decision. -/
  | storeIdle (t : Ticket) (response : σ)
  /-- `compare_exchange(PENDING, CANCELLED)`. -/
  | cancelPending (t : Ticket)
  /-- `compare_exchange(HANDLING, CANCELLED)`. -/
  | cancelHandling (t : Ticket)
  /-- `TIMEOUTS.fetch_add(1)`. -/
  | addTimeout (t : Ticket)

/-- A request that `take_pending` has returned: its slot and generation, the copied
request, and the call it belongs to. -/
structure Handle (ρ : Type*) where
  slot : SlotIndex
  generation : Nat
  request : ρ
  call : Nat

/-- The next shared access of the scripting thread. -/
inductive ScriptPc (ρ σ : Type*) where
  | idle
  /-- `take_pending`: `compare_exchange(PENDING, HANDLING)` on slot `k`. -/
  | take (k : SlotIndex)
  /-- `take_pending`: `compare_exchange(CANCELLED, IDLE)` on slot `k`. -/
  | reap (k : SlotIndex)
  /-- `take_pending`: the read of the request. -/
  | readRequest (k : SlotIndex) (call : Nat)
  /-- `take_pending`: `slot.generation.load`. -/
  | readGeneration (k : SlotIndex) (call : Nat) (request : ρ)
  /-- `complete`: `slot.generation.load`. -/
  | checkGeneration (h : Handle ρ) (response : σ)
  /-- `complete`: the write of the response. -/
  | writeResponse (h : Handle ρ) (response : σ)
  /-- `complete`: `compare_exchange(HANDLING, DECIDED)`. -/
  | decide (h : Handle ρ) (response : σ)
  /-- `complete`: `pb_pin_semaphore_set`. -/
  | signal (h : Handle ρ)
  /-- `complete`: `slot.state.load`. -/
  | checkCancelled (h : Handle ρ)
  /-- `complete`: `slot.state.store(IDLE)`. -/
  | storeIdle (h : Handle ρ)

/-! ## The state -/

/-- The three counters. -/
inductive Counter where
  | completed
  | timeouts
  | busy
deriving DecidableEq, Repr

/-- A return of `rendezvous`. -/
structure Return (σ : Type*) where
  call : Nat
  ticket : Option Ticket
  result : Option σ

/-- What has happened so far. -/
structure Log (σ : Type*) where
  /-- The calls whose requests `take_pending` has moved to `HANDLING`, in order. -/
  taken : List Nat
  /-- The slot, generation and response of every call of `complete`. -/
  completions : List (SlotIndex × Nat × σ)
  /-- The counter increments, with the call that made them. -/
  counted : List (Nat × Counter)
  /-- The returns of `rendezvous`. -/
  returned : List (Return σ)

/-- A state of the rendezvous with `n` application threads. -/
structure State (ρ σ : Type*) (n : Nat) where
  slots : SlotIndex → Slot ρ σ
  /-- `init` has stored the semaphores. -/
  ready : Bool
  /-- `NEXT_GENERATION`. -/
  nextGeneration : Nat
  /-- `COMPLETED`. -/
  completed : Nat
  /-- `TIMEOUTS`. -/
  timeouts : Nat
  /-- `BUSY`. -/
  busy : Nat
  threads : Fin n → CallPc ρ σ
  script : ScriptPc ρ σ
  /-- The requests the scripting thread has taken and not completed. -/
  handles : List (Handle ρ)
  /-- The number of calls of `rendezvous` so far. -/
  calls : Nat
  log : Log σ

variable {ρ σ : Type*} {n : Nat}

/-- `Slot::new`; the default values stand for `NativeRequest::EMPTY` and
`InterceptResponse::EMPTY`. -/
def Slot.new [Inhabited ρ] [Inhabited σ] : Slot ρ σ :=
  ⟨.idle, 0, false, default, default, none, false⟩

/-- After `init`, which the agent does not survive when it fails. -/
def State.init (ρ σ : Type*) [Inhabited ρ] [Inhabited σ] (n : Nat) : State ρ σ n where
  slots := fun _ => Slot.new
  ready := true
  nextGeneration := 0
  completed := 0
  timeouts := 0
  busy := 0
  threads := fun _ => .idle
  script := .idle
  handles := []
  calls := 0
  log := ⟨[], [], [], []⟩

/-! ## Accesses of a call -/

/-- Slot `k` changes. -/
def State.setSlot (s : State ρ σ n) (k : SlotIndex) (slot : Slot ρ σ) : State ρ σ n :=
  { s with slots := Function.update s.slots k slot }

/-- Thread `i` moves on. -/
def State.goto (s : State ρ σ n) (i : Fin n) (pc : CallPc ρ σ) : State ρ σ n :=
  { s with threads := Function.update s.threads i pc }

/-- A counter increment is logged. -/
def State.count (s : State ρ σ n) (call : Nat) (c : Counter) : State ρ σ n :=
  { s with log := { s.log with counted := s.log.counted ++ [(call, c)] } }

/-- The call of thread `i` returns.  If it still owns its slot, the slot waits for a
visit of the scripting thread. -/
def State.finish (s : State ρ σ n) (i : Fin n) (t : Ticket) (result : Option σ) : State ρ σ n :=
  { s with
    slots := Function.update s.slots t.slot
      { s.slots t.slot with
        unvisited := (s.slots t.slot).unvisited || (s.slots t.slot).owner == some t.call }
    threads := Function.update s.threads i .idle
    log := { s.log with returned := s.log.returned ++ [⟨t.call, some t, result⟩] } }

/-- The next slot `SLOTS.iter()` visits. -/
def nextSlot (k : SlotIndex) : Option SlotIndex :=
  if h : k.val + 1 < slotCount then some ⟨k.val + 1, h⟩ else none

/-- The next access of the call of thread `i`. -/
def callStep [Inhabited σ] (s : State ρ σ n) (i : Fin n) : Option (State ρ σ n) :=
  match s.threads i with
  | .idle => none
  | .claim call request k =>
      some (if (s.slots k).state = .idle then
          (s.setSlot k { s.slots k with
            state := .writing, owner := some call, unvisited := false }).goto i
            (.nextGeneration call request k)
        else s.goto i (match nextSlot k with
          | some k => .claim call request k
          | none => .addBusy call))
  | .addBusy call =>
      some { (s.count call .busy).goto i .idle with
        busy := (s.busy + 1) % 2 ^ 64
        log := { (s.count call .busy).log with
          returned := s.log.returned ++ [⟨call, none, none⟩] } }
  | .nextGeneration call request k =>
      some ({ s with nextGeneration := (s.nextGeneration + 1) % 2 ^ 64 }.goto i
        (.storeGeneration ⟨call, k, (s.nextGeneration + 1) % 2 ^ 64⟩ request))
  | .storeGeneration t request =>
      some ((s.setSlot t.slot { s.slots t.slot with generation := t.generation }).goto i
        (.writeRequest t request))
  | .writeRequest t request =>
      some ((s.setSlot t.slot { s.slots t.slot with request := request }).goto i
        (.clearResponse t))
  | .clearResponse t =>
      some ((s.setSlot t.slot { s.slots t.slot with response := default }).goto i
        (.loadSemaphore t))
  | .loadSemaphore t => some (s.goto i (if s.ready then .clearSemaphore t else .abandon t))
  | .abandon t => some ((s.setSlot t.slot { s.slots t.slot with state := .idle }).finish i t none)
  | .clearSemaphore t =>
      some ((s.setSlot t.slot { s.slots t.slot with semaphore := false }).goto i
        (.storePending t))
  | .storePending t =>
      some ((s.setSlot t.slot { s.slots t.slot with state := .pending }).goto i (.wait t))
  | .wait t => some (s.goto i (.loadState t))
  | .loadState t =>
      some (match (s.slots t.slot).state with
        | .decided => s.goto i (.readResponse t)
        | .pending => s.goto i (.cancelPending t)
        | .handling => s.goto i (.cancelHandling t)
        | .cancelled | .idle | .writing => s.finish i t none)
  | .readResponse t => some (s.goto i (.addCompleted t (s.slots t.slot).response))
  | .addCompleted t response =>
      some ({ s.count t.call .completed with completed := (s.completed + 1) % 2 ^ 64 }.goto i
        (.storeIdle t response))
  | .storeIdle t response =>
      some ((s.setSlot t.slot { s.slots t.slot with state := .idle }).finish i t (some response))
  | .cancelPending t =>
      some (if (s.slots t.slot).state = .pending then
          (s.setSlot t.slot { s.slots t.slot with state := .cancelled }).goto i (.addTimeout t)
        else s.goto i (.loadState t))
  | .cancelHandling t =>
      some (if (s.slots t.slot).state = .handling then
          (s.setSlot t.slot { s.slots t.slot with state := .cancelled }).goto i (.addTimeout t)
        else s.goto i (.loadState t))
  | .addTimeout t =>
      some ({ s.count t.call .timeouts with timeouts := (s.timeouts + 1) % 2 ^ 64 }.finish i t
        none)

/-! ## Accesses of the scripting thread -/

/-- The scripting thread moves on. -/
def State.scriptGoto (s : State ρ σ n) (pc : ScriptPc ρ σ) : State ρ σ n := { s with script := pc }

/-- The scripting thread has dealt with the request of `call` in slot `k`. -/
def Slot.visitCall (slot : Slot ρ σ) (call : Nat) : Slot ρ σ :=
  { slot with unvisited := slot.unvisited && slot.owner != some call }

/-- `complete` returns. -/
def State.endComplete (s : State ρ σ n) (h : Handle ρ) : State ρ σ n :=
  (s.setSlot h.slot ((s.slots h.slot).visitCall h.call)).scriptGoto .idle

/-- The next access of the scripting thread. -/
def scriptStep (s : State ρ σ n) : Option (State ρ σ n) :=
  match s.script with
  | .idle => none
  | .take k =>
      some (if (s.slots k).state = .pending then
          { s.setSlot k { s.slots k with state := .handling } with
            script := .readRequest k ((s.slots k).owner.getD 0)
            log := { s.log with taken := s.log.taken ++ [(s.slots k).owner.getD 0] } }
        else s.scriptGoto (.reap k))
  | .reap k =>
      some ((s.setSlot k { s.slots k with
          state := if (s.slots k).state = .cancelled then .idle else (s.slots k).state
          unvisited := false }).scriptGoto
        (match nextSlot k with
          | some k => .take k
          | none => .idle))
  | .readRequest k call => some (s.scriptGoto (.readGeneration k call (s.slots k).request))
  | .readGeneration k call request =>
      some { s with
        script := .idle
        handles := s.handles ++ [⟨k, (s.slots k).generation, request, call⟩] }
  | .checkGeneration h response =>
      some (if (s.slots h.slot).generation = h.generation then s.scriptGoto (.writeResponse h response)
        else s.endComplete h)
  | .writeResponse h response =>
      some ((s.setSlot h.slot { s.slots h.slot with response := response }).scriptGoto
        (.decide h response))
  | .decide h _ =>
      some (if (s.slots h.slot).state = .handling then
          (s.setSlot h.slot
            { (s.slots h.slot).visitCall h.call with state := .decided }).scriptGoto (.signal h)
        else s.scriptGoto (.checkCancelled h))
  | .signal h =>
      some ((s.setSlot h.slot { s.slots h.slot with
        semaphore := (s.slots h.slot).semaphore || s.ready }).scriptGoto .idle)
  | .checkCancelled h =>
      some (if (s.slots h.slot).state = .cancelled then s.scriptGoto (.storeIdle h)
        else s.endComplete h)
  | .storeIdle h =>
      some ((s.setSlot h.slot
        { (s.slots h.slot).visitCall h.call with state := .idle }).scriptGoto .idle)

/-! ## The system -/

/-- A scheduling choice. -/
inductive Action (ρ σ : Type*) (n : Nat) where
  /-- Thread `i` calls `rendezvous(request)`. -/
  | call (i : Fin n) (request : ρ)
  /-- Thread `i` takes the next step of its call. -/
  | thread (i : Fin n)
  /-- The scripting thread calls `take_pending`. -/
  | takePending
  /-- The scripting thread calls `complete` for the taken request at position `j`. -/
  | complete (j : Nat) (response : σ)
  /-- The scripting thread takes its next step. -/
  | script

/-- One step of the rendezvous. -/
def step [Inhabited σ] (s : State ρ σ n) : Action ρ σ n → Option (State ρ σ n)
  | .call i request =>
      match s.threads i with
      | .idle => some { s.goto i (.claim s.calls request 0) with calls := s.calls + 1 }
      | _ => none
  | .thread i => callStep s i
  | .takePending =>
      match s.script with
      | .idle => some (s.scriptGoto (.take 0))
      | _ => none
  | .complete j response =>
      match s.script, s.handles[j]? with
      | .idle, some h =>
          some { s with
            script := .checkGeneration h response
            handles := s.handles.eraseIdx j
            log := { s.log with
              completions := s.log.completions ++ [(h.slot, h.generation, response)] } }
      | _, _ => none
  | .script => scriptStep s

end PinBridge.Intercept
