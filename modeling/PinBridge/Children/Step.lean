import Mathlib.Algebra.Ring.Nat
import Mathlib.Data.Fintype.Basic
import PinBridge.Lib.Transition

/-!
# Child-follow decisions

Pin asks on an application thread whether it shall follow a new child process.
`on_follow_child` copies the child's command line into the one request slot,
sets it `PENDING` and waits on a semaphore for a bounded time.  The scripting
thread takes the request (`take_pending`), lets the scripts decide, prepares the
command line of the child and answers (`complete`).  Either party may be late.
The application thread cancels a request it has given up, and the scripting
thread reaps a cancelled slot.

A wait does not reset the semaphore, and it returns when the semaphore is set or
when its time is over.  A program counter names the next shared access.  Calls of
`on_follow_child` are numbered, and what has happened is kept next to the state.
No step reads either.
-/

namespace PinBridge.Children

/-- A string without its terminator. -/
abbrev Bytes : Type := List UInt8

/-! ## Command lines -/

/-- `AGENT_PORT_FLAG`. -/
def agentPortFlag : Bytes := "-pb_agent_port".toUTF8.toList

/-- `PARENT_PORT_FLAG`. -/
def parentPortFlag : Bytes := "-pb_parent_port".toUTF8.toList

/-- The separator of Pin's own arguments. -/
def separator : Bytes := "--".toUTF8.toList

/-- The bytes a command takes in `CHILD_PIN_COMMAND`. -/
def commandBytes (command : List Bytes) : Nat :=
  (command.map fun argument => argument.length + 1).sum

/-- `push_pin_argument`. -/
def pushPinArgument (command : List Bytes) (argument : Bytes) : Option (List Bytes) :=
  if 128 ≤ command.length ∨ 65535 < argument.length + 1 ∨
      32 * 1024 < commandBytes command + argument.length + 1 then none
  else some (command ++ [argument])

/-- Pushes until one does not fit. -/
def pushPinArguments (command : List Bytes) : List Bytes → List Bytes × Bool
  | [] => (command, true)
  | argument :: rest =>
      match pushPinArgument command argument with
      | some command => pushPinArguments command rest
      | none => (command, false)

/-- The loop of `prepare_child_pin_command`. -/
def prepareArguments (options : List Bytes) (command : List Bytes) : List Bytes → List Bytes × Bool
  | [] => (command, false)
  | argument :: rest =>
      if argument = separator then pushPinArguments command options
      else
        match pushPinArgument command argument with
        | some command => prepareArguments options command rest
        | none => (command, false)

/-- `prepare_child_pin_command`: the command left in the buffer and whether it is
ready. -/
def prepareChildPinCommand (base : Option (List Bytes)) (old : List Bytes)
    (controlPort parentPort : UInt16) : List Bytes × Bool :=
  match base with
  | none => (old, false)
  | some base =>
      prepareArguments [agentPortFlag, (toString controlPort).toUTF8.toList, parentPortFlag,
        (toString parentPort).toUTF8.toList, separator] [] base

/-! ## Program counters -/

/-- The states of the slot. -/
inductive SlotState where
  /-- `IDLE`. -/
  | idle
  /-- `WRITING`. -/
  | writing
  /-- `PENDING`. -/
  | pending
  /-- `HANDLING`. -/
  | handling
  /-- `DECIDED`. -/
  | decided
  /-- `CANCELLED`. -/
  | cancelled
  deriving DecidableEq, Repr

/-- A child process. -/
structure ChildRequest where
  processId : UInt32
  arguments : List Bytes
  deriving DecidableEq, Repr

/-- What the scripts decide. -/
structure Decision where
  follow : Bool
  controlPort : UInt16
  parentPort : UInt16
  deriving DecidableEq, Repr

/-- What a call does while the slot is `WRITING`. -/
inductive WritingPc where
  /-- `capture_request`. -/
  | capture (request : ChildRequest)
  /-- `STATE.store(IDLE)` without a request or a semaphore. -/
  | abandon
  /-- `GENERATION.fetch_add(1)`. -/
  | nextGeneration
  /-- `ACTIVE_GENERATION.store(generation)`. -/
  | storeGeneration (generation : UInt64)
  /-- `RESULT_FOLLOW.store(0)`. -/
  | clearResult
  /-- `RESPONSE_SEMAPHORE.load`. -/
  | loadSemaphore
  /-- `pb_pin_semaphore_clear`. -/
  | clearSemaphore
  /-- `STATE.store(PENDING)`. -/
  | storePending
  deriving DecidableEq, Repr

/-- The next shared access of a call of `on_follow_child`. -/
inductive CallPc where
  /-- No call. -/
  | idle
  /-- `compare_exchange(IDLE, WRITING)`. -/
  | claim (call : Nat) (request : ChildRequest)
  /-- It writes the slot. -/
  | writing (call : Nat) (pc : WritingPc)
  /-- `pb_pin_semaphore_timed_wait`. -/
  | wait (call : Nat)
  /-- `STATE.load` after a wait. -/
  | loadState (call : Nat) (timedOut : Bool)
  /-- `RESULT_FOLLOW.load`. -/
  | loadResult (call : Nat)
  /-- `apply_child_pin_command`. -/
  | apply (call : Nat)
  /-- `DECISIONS.fetch_add(1)`. -/
  | addDecision (call : Nat) (follow : Bool) (applied : Option (List Bytes))
  /-- `STATE.store(IDLE)` after a decision. -/
  | storeIdle (call : Nat) (follow : Bool) (applied : Option (List Bytes))
  /-- `compare_exchange(PENDING, CANCELLED)`. -/
  | cancelPending (call : Nat) (timedOut : Bool)
  /-- `compare_exchange(HANDLING, CANCELLED)`. -/
  | cancelHandling (call : Nat) (timedOut : Bool)
  /-- `TIMEOUTS.fetch_add(1)`. -/
  | addTimeout (call : Nat) (timedOut : Bool)
  deriving DecidableEq, Repr

/-- A request that `take_pending` has returned, and the call it belongs to. -/
structure Handle where
  generation : UInt64
  request : ChildRequest
  call : Nat
  deriving DecidableEq, Repr

/-- The next shared access of the scripting thread. -/
inductive ScriptPc where
  | idle
  /-- `take_pending`: `compare_exchange(PENDING, HANDLING)`. -/
  | take
  /-- `take_pending`: `compare_exchange(CANCELLED, IDLE)`. -/
  | reap
  /-- `take_pending`: the read of the request. -/
  | readRequest (call : Nat)
  /-- `take_pending`: `ACTIVE_GENERATION.load`. -/
  | readGeneration (call : Nat) (request : ChildRequest)
  /-- The scripts decide. -/
  | deciding (h : Handle)
  /-- `complete`: `ACTIVE_GENERATION.load`. -/
  | checkGeneration (h : Handle) (d : Decision)
  /-- `complete`: `prepare_child_pin_command`. -/
  | prepare (h : Handle) (d : Decision)
  /-- `complete`: `RESULT_FOLLOW.store(follow)`. -/
  | storeResult (h : Handle) (d : Decision) (follow : Bool)
  /-- `complete`: `compare_exchange(HANDLING, DECIDED)`. -/
  | decide (h : Handle) (d : Decision)
  /-- `complete`: `pb_pin_semaphore_set`. -/
  | signal
  /-- `complete`: `STATE.load`. -/
  | checkCancelled (h : Handle)
  /-- `complete`: `STATE.store(IDLE)`. -/
  | storeIdle (h : Handle)
  deriving DecidableEq, Repr

/-! ## The state -/

/-- A return of `on_follow_child`. -/
structure Return where
  call : Nat
  follow : Bool
  /-- The command line that was applied to the child. -/
  applied : Option (List Bytes)
  deriving DecidableEq, Repr

/-- The slot, the parties and what has happened. -/
structure State (τ : Type*) where
  /-- `STATE`. -/
  slot : SlotState
  /-- `GENERATION`. -/
  generation : UInt64
  /-- `ACTIVE_GENERATION`. -/
  activeGeneration : UInt64
  /-- `REQUEST`. -/
  request : ChildRequest
  /-- `RESULT_FOLLOW`. -/
  resultFollow : Bool
  /-- `CHILD_PIN_COMMAND`. -/
  command : List Bytes
  /-- `RESPONSE_SEMAPHORE` is stored. -/
  ready : Bool
  /-- The level of the semaphore. -/
  semaphore : Bool
  /-- `BASE_PIN_ARGUMENTS`. -/
  base : Option (List Bytes)
  threads : τ → CallPc
  script : ScriptPc
  /-- The children of the calls of `on_follow_child` so far. -/
  called : List ChildRequest
  /-- The call that claimed the slot last. -/
  owner : Option Nat
  /-- The owner has returned and the scripting thread has neither scanned the slot
  nor completed the request since. -/
  unvisited : Bool
  /-- The calls that have stored `PENDING`. -/
  requested : List Nat
  /-- The calls counted in `DECISIONS`. -/
  decisions : List Nat
  /-- The calls counted in `TIMEOUTS`. -/
  timeouts : List Nat
  /-- The calls of `complete`. -/
  completions : List (Handle × Decision)
  /-- The returns of `on_follow_child`. -/
  returned : List Return

variable {τ : Type*}

/-- After `prepare_tool_arguments` and `init_and_register`. -/
def State.init (τ : Type*) (base : Option (List Bytes)) : State τ where
  slot := .idle
  generation := 0
  activeGeneration := 0
  request := ⟨0, []⟩
  resultFollow := false
  command := []
  ready := true
  semaphore := false
  base := base
  threads _ := .idle
  script := .idle
  called := []
  owner := none
  unvisited := false
  requested := []
  decisions := []
  timeouts := []
  completions := []
  returned := []

section

variable [DecidableEq τ]

/-- A thread moves on. -/
def State.goto (s : State τ) (t : τ) (pc : CallPc) : State τ :=
  { s with threads := Function.update s.threads t pc }

/-- A call returns.  If it still owns the slot, the slot waits for a visit of the
scripting thread. -/
def State.finish (s : State τ) (t : τ) (call : Nat) (follow : Bool)
    (applied : Option (List Bytes)) : State τ :=
  { s.goto t .idle with
    unvisited := s.unvisited || s.owner == some call
    returned := s.returned ++ [⟨call, follow, applied⟩] }

/-- What a call does while the slot is `WRITING`. -/
def State.writingStep (s : State τ) (t : τ) (call : Nat) (ok : Bool) : WritingPc → State τ
  | .capture request =>
      if ok then { s.goto t (.writing call .nextGeneration) with request := request }
      else s.goto t (.writing call .abandon)
  | .abandon => { s.finish t call false none with slot := .idle }
  | .nextGeneration =>
      { s.goto t (.writing call (.storeGeneration (s.generation + 1))) with
        generation := s.generation + 1 }
  | .storeGeneration generation =>
      { s.goto t (.writing call .clearResult) with activeGeneration := generation }
  | .clearResult => { s.goto t (.writing call .loadSemaphore) with resultFollow := false }
  | .loadSemaphore => s.goto t (.writing call (if s.ready then .clearSemaphore else .abandon))
  | .clearSemaphore => { s.goto t (.writing call .storePending) with semaphore := false }
  | .storePending =>
      { s.goto t (.wait call) with slot := .pending, requested := s.requested ++ [call] }

/-- The next access of a call.  Whether a call of Pin succeeds is the
environment's choice. -/
def State.callStep (s : State τ) (t : τ) (ok : Bool) : CallPc → Option (State τ)
  | .idle => none
  | .claim call request =>
      some (if s.slot = .idle then
          { s.goto t (.writing call (.capture request)) with
            slot := .writing, owner := some call, unvisited := false }
        else s.finish t call false none)
  | .writing call pc => some (s.writingStep t call ok pc)
  | .wait call => if s.semaphore then some (s.goto t (.loadState call false)) else none
  | .loadState call timedOut =>
      some (match s.slot with
        | .decided => s.goto t (.loadResult call)
        | .pending => s.goto t (.cancelPending call timedOut)
        | .handling => s.goto t (.cancelHandling call timedOut)
        | .cancelled | .idle | .writing => s.finish t call false none)
  | .loadResult call =>
      some (s.goto t (if s.resultFollow then .apply call else .addDecision call false none))
  | .apply call =>
      some (s.goto t (if s.command.length ≠ 0 ∧ s.command.length ≤ 128 ∧ ok = true then
          .addDecision call true (some s.command) else .addDecision call false none))
  | .addDecision call follow applied =>
      some { s.goto t (.storeIdle call follow applied) with decisions := s.decisions ++ [call] }
  | .storeIdle call follow applied =>
      some { s.finish t call follow applied with slot := .idle }
  | .cancelPending call timedOut =>
      some (if s.slot = .pending then
          { s.goto t (.addTimeout call timedOut) with slot := .cancelled }
        else s.goto t (.loadState call timedOut))
  | .cancelHandling call timedOut =>
      some (if s.slot = .handling then
          { s.goto t (.addTimeout call timedOut) with slot := .cancelled }
        else s.goto t (.loadState call timedOut))
  | .addTimeout call _ =>
      some { s.finish t call false none with timeouts := s.timeouts ++ [call] }

end

/-- The scripting thread has dealt with the request of a call. -/
def State.visitCall (s : State τ) (call : Nat) : Bool := s.unvisited && s.owner != some call

/-- The next access of the scripting thread. -/
def State.scriptStep (s : State τ) : ScriptPc → Option (State τ)
  | .idle | .deciding _ => none
  | .take =>
      some (if s.slot = .pending then
          { s with slot := .handling, script := .readRequest (s.owner.getD 0) }
        else { s with script := .reap })
  | .reap =>
      some { s with
        slot := if s.slot = .cancelled then .idle else s.slot
        unvisited := false
        script := .idle }
  | .readRequest call => some { s with script := .readGeneration call s.request }
  | .readGeneration call request =>
      some { s with script := .deciding ⟨s.activeGeneration, request, call⟩ }
  | .checkGeneration h d =>
      some (if s.activeGeneration = h.generation then
          { s with script := if d.follow then .prepare h d else .storeResult h d false }
        else { s with unvisited := s.visitCall h.call, script := .idle })
  | .prepare h d =>
      let (command, ready) := prepareChildPinCommand s.base s.command d.controlPort d.parentPort
      some { s with command := command, script := .storeResult h d ready }
  | .storeResult h d follow => some { s with resultFollow := follow, script := .decide h d }
  | .decide h _ =>
      some (if s.slot = .handling then
          { s with
            slot := .decided
            unvisited := s.visitCall h.call
            script := if s.ready then .signal else .idle }
        else { s with script := .checkCancelled h })
  | .signal => some { s with semaphore := true, script := .idle }
  | .checkCancelled h =>
      some (if s.slot = .cancelled then { s with script := .storeIdle h }
        else { s with unvisited := s.visitCall h.call, script := .idle })
  | .storeIdle h =>
      some { s with slot := .idle, unvisited := s.visitCall h.call, script := .idle }

/-! ## The system -/

/-- A scheduling choice. -/
inductive Action (τ : Type*) where
  /-- Pin calls `on_follow_child` on a thread. -/
  | call (t : τ) (request : ChildRequest)
  /-- A thread takes the next step of its call. -/
  | thread (t : τ) (ok : Bool)
  /-- The wait of a thread times out. -/
  | timeout (t : τ)
  /-- The scripting thread calls `take_pending`. -/
  | takePending
  /-- The scripts have decided and the scripting thread calls `complete`. -/
  | complete (d : Decision)
  /-- The scripting thread takes its next step. -/
  | script

/-- One step. -/
def State.step [DecidableEq τ] (s : State τ) : Action τ → Option (State τ)
  | .call t request =>
      match s.threads t with
      | .idle =>
          some { s.goto t (.claim s.called.length request) with called := s.called ++ [request] }
      | _ => none
  | .thread t ok => s.callStep t ok (s.threads t)
  | .timeout t =>
      match s.threads t with
      | .wait call => some (s.goto t (.loadState call true))
      | _ => none
  | .takePending =>
      match s.script with
      | .idle => some { s with script := .take }
      | _ => none
  | .complete d =>
      match s.script with
      | .deciding h =>
          some { s with
            script := .checkGeneration h d, completions := s.completions ++ [(h, d)] }
      | _ => none
  | .script => s.scriptStep s.script

end PinBridge.Children
