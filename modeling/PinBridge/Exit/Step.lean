import Mathlib.Data.List.Basic
import Mathlib.Data.Fintype.Basic
import PinBridge.Lib.Transition
import PinBridge.Scripts.Handlers

/-!
# Process exit and prepare-fini

Application threads that leave the process call `on_process_exit_routine`, and Pin
calls `on_prepare_for_fini`.  Each opens a phase with one of two flags, and
`submit_python_exit_edge` then stores the exit code, takes a generation, submits a
record to the priority lane and waits until the generation is acknowledged or the
grace is over.

The scripting host delivers from its tick.  It samples whether a generation is not
acknowledged, reads the lane, calls the handlers of every running plugin and
acknowledges the generation it finds then.  `dispatch_one` makes a record of its own
for each of the two flags, and routes the records of the lane after them.  A handler
of an exit event is called once, and what it has been called with is kept next to the
state.

A program counter names the next shared access.  The calls of the handlers of one
record are one step of the host, which reads nothing shared between them.
-/

namespace PinBridge.Exit

/-! ## Records -/

/-- The source of an `EVENT_PROCESS_EXIT`. -/
inductive Source where
  /-- `PROCESS_EXIT_SOURCE_API`. -/
  | api
  /-- `PROCESS_EXIT_SOURCE_PREPARE_FINI`. -/
  | prepareFini
  deriving DecidableEq, Repr

/-- An `EVENT_PROCESS_EXIT`. -/
structure ExitEvent where
  /-- The exit code. -/
  arg0 : BitVec 64
  arg1 : Source
  /-- Whether an exit was requested. -/
  arg2 : Bool
  /-- Whether Pin's own callback was reached. -/
  arg3 : Bool
  deriving DecidableEq, Repr

/-- `EventSelector`, the selectors of exit events. -/
inductive EventSelector where
  /-- `process.exit`. -/
  | processExit
  /-- `process.prepare_fini`. -/
  | processPrepareFini
  deriving DecidableEq, Repr

/-- `EventSelector::matches`. -/
def EventSelector.matches : EventSelector → ExitEvent → Bool
  | .processExit, event =>
      event.arg1 = .api || (event.arg1 = .prepareFini && event.arg2 = false)
  | .processPrepareFini, event => event.arg1 = .prepareFini

/-- What `submit_python_exit_edge` is called with. -/
structure Edge where
  code : BitVec 32
  source : Source
  hadExitRequest : Bool
  nativePrepareReached : Bool
  deriving DecidableEq, Repr

/-- The record of an edge. -/
def Edge.event (e : Edge) : ExitEvent :=
  ⟨e.code.signExtend 64, e.source, e.hadExitRequest, e.nativePrepareReached⟩

/-- A record in the priority lane. -/
structure LaneRecord where
  sequence : Nat
  event : ExitEvent
  deriving DecidableEq, Repr

/-! ## Plugins -/

/-- A handler of an exit event. -/
structure Handler where
  id : Nat
  selector : EventSelector
  priorityStartAfter : Nat
  deriving DecidableEq, Repr

/-- The loaded plugins: their names in order and their handlers in order. -/
structure Registry (π : Type*) where
  names : List π
  handlers : π → List Handler
  distinct : ∀ p, ((handlers p).map Handler.id).Nodup

/-- A call of a handler. -/
structure Invocation (π : Type*) where
  plugin : π
  handler : Handler
  event : ExitEvent
  deriving DecidableEq

/-- How a call of a handler ends. -/
inductive Outcome where
  | returned
  | raised
  /-- The event could not be built. -/
  | unbuilt
  deriving DecidableEq, Repr

/-! ## Program counters -/

/-- The next shared access of an application thread. -/
inductive CallPc where
  /-- No call. -/
  | idle
  /-- `PROCESS_EXIT_REQUESTED.compare_exchange`. -/
  | claim (code : BitVec 32)
  /-- `PROCESS_EXIT_CODE.store`. -/
  | storeCode (edge : Edge)
  /-- `EXIT_GENERATION.fetch_add`. -/
  | addGeneration (edge : Edge)
  /-- The record is submitted. -/
  | submit (edge : Edge) (generation : Nat)
  /-- `python_ready` and `EXIT_GRACE_MS.load`. -/
  | loadGrace (edge : Edge) (generation : Nat)
  /-- `EXIT_ACKNOWLEDGED.load`, with what is left of the grace. -/
  | wait (edge : Edge) (generation : Nat) (left : Nat)
  /-- `PROCESS_PREPARING.swap` after the first edge. -/
  | claimPreparing (code : BitVec 32)
  /-- `NATIVE_PREPARE_REACHED.store`. -/
  | storeNative
  /-- `PROCESS_PREPARING.swap` of `on_prepare_for_fini`. -/
  | swapPreparing
  /-- `PROCESS_EXIT_REQUESTED.load`. -/
  | loadRequested
  /-- `PROCESS_EXIT_CODE.load`. -/
  | loadCode (hadExitRequest : Bool)
  deriving DecidableEq, Repr

/-- The next access of `dispatch_one`. -/
inductive DispatchPc where
  /-- `process_exit_requested`. -/
  | loadRequested
  /-- `process_exit_code`, and the first record. -/
  | loadExitCode
  /-- `process_preparing`. -/
  | loadPreparing
  /-- `process_exit_code` for the second record. -/
  | loadPrepareCode
  /-- `process_exit_requested` for the second record. -/
  | loadHadRequest (code : BitVec 32)
  /-- `native_prepare_reached`, and the second record. -/
  | loadNative (code : BitVec 32) (hadExitRequest : Bool)
  /-- The records of the lane. -/
  | lane
  /-- The consumption state is written back. -/
  | writeBack
  deriving DecidableEq, Repr

/-- The snapshot `dispatch_one` works on. -/
structure Dispatch (π : Type*) where
  name : π
  /-- The handlers called in this dispatch. -/
  deliveredSticky : List Nat
  failed : Bool
  priorityCursor : Nat
  calls : List (Invocation π)
  pc : DispatchPc
  deriving DecidableEq

/-- A tick in its second phase. -/
structure Tick (π : Type*) where
  exitDeliveryPending : Bool
  priorityEvents : List LaneRecord
  rest : List π
  /-- A plugin was looked at before the flag of the source was set, and it has a
  handler that was not called. -/
  missed : Source → Bool

/-- The next access of the scripting host. -/
inductive HostPc (π : Type*) where
  | idle
  /-- `EXIT_ACKNOWLEDGED.load`. -/
  | loadAcknowledged
  /-- `EXIT_GENERATION.load`. -/
  | loadGeneration (acknowledged : Nat)
  /-- `priority::try_page`. -/
  | page (exitDeliveryPending : Bool)
  /-- The next plugin. -/
  | next (tick : Tick π)
  | dispatch (tick : Tick π) (d : Dispatch π)
  /-- `EXIT_GENERATION.load` of `acknowledge_exit_delivery`. -/
  | acknowledge (tick : Tick π)
  /-- `EXIT_ACKNOWLEDGED.store`. -/
  | storeAcknowledged (generation : Nat)

/-! ## The state -/

/-- The statics of the process, the plugins, and the parties. -/
structure State (τ π : Type*) where
  /-- `PROCESS_EXIT_REQUESTED`. -/
  exitRequested : Bool
  /-- `PROCESS_PREPARING`. -/
  preparing : Bool
  /-- `NATIVE_PREPARE_REACHED`. -/
  nativePrepareReached : Bool
  /-- `PROCESS_EXIT_CODE`. -/
  exitCode : BitVec 32
  /-- `EXIT_GENERATION`. -/
  generation : Nat
  /-- `EXIT_ACKNOWLEDGED`. -/
  acknowledged : Nat
  /-- `PYTHON_READY`. -/
  pythonReady : Bool
  lane : List LaneRecord
  running : π → Bool
  stickyDelivered : π → Nat → Bool
  priorityCursor : π → Nat
  threads : τ → CallPc
  host : HostPc π
  /-- The code of the exit routine that opened the source's phase, `some none` when
  `on_prepare_for_fini` opened it. -/
  opened : Source → Option (Option (BitVec 32))
  /-- The exit routine has stored its code. -/
  stored : Bool
  /-- The phases whose wait ended before the grace. -/
  early : List Source
  /-- The calls of finished dispatches. -/
  log : List (Invocation π)

variable {τ π : Type*}

/-- No process exits yet. -/
def State.init (τ : Type*) (running : π → Bool) : State τ π where
  exitRequested := false
  preparing := false
  nativePrepareReached := false
  exitCode := 0
  generation := 0
  acknowledged := 0
  pythonReady := false
  lane := []
  running := running
  stickyDelivered _ _ := false
  priorityCursor _ := 0
  threads _ := .idle
  host := .idle
  opened _ := none
  stored := false
  early := []
  log := []

/-- The calls of the dispatch under way. -/
def HostPc.calls : HostPc π → List (Invocation π)
  | .dispatch _ d => d.calls
  | _ => []

/-- All calls of handlers. -/
def State.invocations (s : State τ π) : List (Invocation π) := s.log ++ s.host.calls

/-- The flag of a source. -/
def State.flag (s : State τ π) : Source → Bool
  | .api => s.exitRequested
  | .prepareFini => s.preparing

/-! ## Application threads -/

/-- What a step of a thread is told. -/
structure CallAnswer where
  /-- The place of the record in the lane, `none` when the lane is busy. -/
  sequence : Option Nat
  /-- `EXIT_GRACE_MS`. -/
  graceMs : Nat

section

variable [DecidableEq τ]

def State.goto (s : State τ π) (t : τ) (pc : CallPc) : State τ π :=
  { s with threads := Function.update s.threads t pc }

/-- Where an edge leads after its wait. -/
def Edge.finish (e : Edge) : CallPc :=
  match e.source with
  | .api => .claimPreparing e.code
  | .prepareFini => .idle

/-- The next access of a thread. -/
def State.callStep (s : State τ π) (t : τ) (a : CallAnswer) : CallPc → Option (State τ π)
  | .idle => none
  | .claim code =>
      if s.exitRequested then some (s.goto t .idle)
      else some { s.goto t (.storeCode ⟨code, .api, false, false⟩) with
        exitRequested := true,
        opened := Function.update s.opened .api (some (some code)) }
  | .storeCode e =>
      some { s.goto t (.addGeneration e) with
        exitCode := e.code, stored := s.stored || decide (e.source = .api) }
  | .addGeneration e =>
      some { s.goto t (.submit e (s.generation + 1)) with generation := s.generation + 1 }
  | .submit e generation =>
      match a.sequence with
      | none => some (s.goto t (.loadGrace e generation))
      | some sequence =>
          some { s.goto t (.loadGrace e generation) with lane := s.lane ++ [⟨sequence, e.event⟩] }
  | .loadGrace e generation =>
      if s.pythonReady then some (s.goto t (.wait e generation a.graceMs))
      else some (s.goto t e.finish)
  | .wait e _ 0 => some (s.goto t e.finish)
  | .wait e generation (left + 1) =>
      if generation ≤ s.acknowledged then
        some { s.goto t e.finish with early := e.source :: s.early }
      else some (s.goto t (.wait e generation left))
  | .claimPreparing code =>
      if s.preparing then some (s.goto t .idle)
      else some { s.goto t (.storeCode ⟨code, .prepareFini, true, false⟩) with
        preparing := true,
        opened := Function.update s.opened .prepareFini (some (some code)) }
  | .storeNative => some { s.goto t .swapPreparing with nativePrepareReached := true }
  | .swapPreparing =>
      if s.preparing then some (s.goto t .idle)
      else some { s.goto t .loadRequested with
        preparing := true,
        opened := Function.update s.opened .prepareFini (some none) }
  | .loadRequested => some (s.goto t (.loadCode s.exitRequested))
  | .loadCode hadExitRequest =>
      some (s.goto t (.storeCode ⟨s.exitCode, .prepareFini, hadExitRequest, true⟩))

end

/-! ## The scripting host -/

/-- What a step of the host is told. -/
structure HostAnswer where
  /-- `send_waiting`, or the control plane cannot be reached. -/
  quit : Bool
  /-- What the lane gives out. -/
  page : List LaneRecord
  /-- A callback for another event fails. -/
  fails : Bool
  outcome : Nat → Outcome

/-- A handler has been called. -/
def Dispatch.seen (sticky : π → Nat → Bool) (d : Dispatch π) (h : Handler) : Bool :=
  sticky d.name h.id || d.deliveredSticky.contains h.id

/-- A handler is called. -/
def Dispatch.invoke (event : ExitEvent) (h : Handler) (outcome : Outcome) (d : Dispatch π) :
    Dispatch π :=
  { d with
    deliveredSticky := d.deliveredSticky ++ [h.id],
    failed := d.failed || outcome ≠ .returned,
    calls := if outcome = .unbuilt then d.calls else d.calls ++ [⟨d.name, h, event⟩] }

/-- `route_named_handlers`: `edge` is the place of the record in its lane, `none` for
a synthetic one. -/
def routeNamedHandlers (sticky : π → Nat → Bool) (outcome : Nat → Outcome) (event : ExitEvent)
    (edge : Option Nat) (hs : List Handler) (d : Dispatch π) : Dispatch π :=
  (Handlers.routeHandlers
    (fun d h =>
      if edge.all (fun sequence => sequence = 0 || h.priorityStartAfter < sequence) = false ∨
          h.selector.matches event = false ∨ d.seen sticky h = true then
        none
      else some h)
    (fun h d => d.invoke event h (outcome h.id)) Dispatch.failed d hs).1

theorem routeNamedHandlers_cons (sticky : π → Nat → Bool) (outcome : Nat → Outcome)
    (event : ExitEvent) (edge : Option Nat) (h : Handler) (hs : List Handler) (d : Dispatch π) :
    routeNamedHandlers sticky outcome event edge (h :: hs) d =
      if edge.all (fun sequence => sequence = 0 || h.priorityStartAfter < sequence) = false ∨
          h.selector.matches event = false ∨ d.seen sticky h = true then
        routeNamedHandlers sticky outcome event edge hs d
      else
        let d := d.invoke event h (outcome h.id)
        if d.failed then d else routeNamedHandlers sticky outcome event edge hs d := by
  rw [routeNamedHandlers, Handlers.routeHandlers]
  split_ifs <;> first | rfl | (simp only; split <;> rfl)

/-- The records of the lane past the cursor of the plugin. -/
def routeLane (sticky : π → Nat → Bool) (outcome : Nat → Outcome) (hs : List Handler) :
    List LaneRecord → Dispatch π → Dispatch π
  | [], d => d
  | r :: rs, d =>
      if r.sequence ≤ d.priorityCursor then routeLane sticky outcome hs rs d
      else
        let d := routeNamedHandlers sticky outcome r.event (some r.sequence) hs
          { d with priorityCursor := r.sequence }
        if d.failed then d else routeLane sticky outcome hs rs d

/-- A plugin owes a handler the event of a phase.  `process.exit` has
`process.prepare_fini` for its fallback while no exit is requested. -/
def State.Owed (s : State τ π) : Source → Handler → Prop
  | .api, h => h.selector = .processExit
  | .prepareFini, h => h.selector = .processExit → s.exitRequested = false

instance (s : State τ π) : (source : Source) → (h : Handler) → Decidable (s.Owed source h)
  | .api, h => inferInstanceAs (Decidable (h.selector = .processExit))
  | .prepareFini, h =>
      inferInstanceAs (Decidable (h.selector = .processExit → s.exitRequested = false))

variable (r : Registry π)

/-- The plugin of the dispatch has a handler for the phase that was not called. -/
def State.owes (s : State τ π) (d : Dispatch π) (source : Source) : Bool :=
  (r.handlers d.name).any fun h => s.Owed source h && !d.seen s.stickyDelivered h

/-- A flag was not set when the plugin of the dispatch was looked at. -/
def State.miss (s : State τ π) (tick : Tick π) (d : Dispatch π) (source : Source) : Tick π :=
  { tick with
    missed := Function.update tick.missed source (tick.missed source || s.owes r d source) }

/-- After a record has been routed. -/
def Dispatch.continue (d : Dispatch π) (pc : DispatchPc) : Dispatch π :=
  { d with pc := if d.failed then .writeBack else pc }

/-- The next access of `dispatch_one`. -/
def State.dispatchStep [DecidableEq π] (s : State τ π) (a : HostAnswer) (tick : Tick π)
    (d : Dispatch π) : DispatchPc → State τ π
  | .loadRequested =>
      if s.exitRequested then { s with host := .dispatch tick { d with pc := .loadExitCode } }
      else { s with host := .dispatch (s.miss r tick d .api) { d with pc := .loadPreparing } }
  | .loadExitCode =>
      { s with
        host := .dispatch tick ((routeNamedHandlers s.stickyDelivered a.outcome
          ⟨s.exitCode.signExtend 64, .api, false, false⟩ none (r.handlers d.name) d).continue
            .loadPreparing) }
  | .loadPreparing =>
      if s.preparing then { s with host := .dispatch tick { d with pc := .loadPrepareCode } }
      else { s with host := .dispatch (s.miss r tick d .prepareFini) { d with pc := .lane } }
  | .loadPrepareCode => { s with host := .dispatch tick { d with pc := .loadHadRequest s.exitCode } }
  | .loadHadRequest code =>
      { s with host := .dispatch tick { d with pc := .loadNative code s.exitRequested } }
  | .loadNative code hadExitRequest =>
      { s with
        host := .dispatch tick ((routeNamedHandlers s.stickyDelivered a.outcome
          ⟨code.signExtend 64, .prepareFini, hadExitRequest, s.nativePrepareReached⟩ none
          (r.handlers d.name) d).continue .lane) }
  | .lane =>
      let d := routeLane s.stickyDelivered a.outcome (r.handlers d.name) tick.priorityEvents d
      { s with host := .dispatch tick { d with failed := d.failed || a.fails, pc := .writeBack } }
  | .writeBack =>
      { s with
        running := Function.update s.running d.name (s.running d.name && !d.failed),
        stickyDelivered := Function.update s.stickyDelivered d.name fun id =>
          s.stickyDelivered d.name id || d.deliveredSticky.contains id,
        priorityCursor := Function.update s.priorityCursor d.name d.priorityCursor,
        log := s.log ++ d.calls,
        host := .next tick }

/-- The next access of the scripting host. -/
def State.hostStep [DecidableEq π] (s : State τ π) (a : HostAnswer) :
    HostPc π → Option (State τ π)
  | .idle => if s.pythonReady then some { s with host := .loadAcknowledged } else none
  | .loadAcknowledged => some { s with host := .loadGeneration s.acknowledged }
  | .loadGeneration acknowledged =>
      some { s with host := .page (decide (acknowledged < s.generation)) }
  | .page pending =>
      if a.quit then some { s with host := .idle }
      else if ∀ record ∈ a.page, record ∈ s.lane then
        some { s with host := .next ⟨pending, a.page, r.names, fun _ => false⟩ }
      else none
  | .next tick =>
      match tick.rest with
      | [] =>
          if tick.exitDeliveryPending then some { s with host := .acknowledge tick }
          else some { s with host := .idle }
      | name :: rest =>
          if a.quit then some { s with host := .idle }
          else if s.running name then
            some { s with
              host := .dispatch { tick with rest := rest }
                ⟨name, [], a.fails, s.priorityCursor name, [],
                  if a.fails then .writeBack else .loadRequested⟩ }
          else some { s with host := .next { tick with rest := rest } }
  | .dispatch tick d => some (s.dispatchStep r a tick d d.pc)
  | .acknowledge _ => some { s with host := .storeAcknowledged s.generation }
  | .storeAcknowledged generation =>
      some { s with acknowledged := generation, host := .idle }

/-! ## Steps -/

inductive Action (τ : Type*) where
  /-- `on_process_exit_routine`. -/
  | exitRoutine (t : τ) (code : BitVec 64)
  /-- `on_prepare_for_fini`. -/
  | prepareForFini (t : τ)
  /-- `PYTHON_READY.store`. -/
  | becomeReady
  /-- The next access of a thread. -/
  | thread (t : τ) (a : CallAnswer)
  /-- The next access of the host. -/
  | host (a : HostAnswer)

variable [DecidableEq τ] [DecidableEq π]

/-- A step of the process. -/
def State.step (s : State τ π) : Action τ → Option (State τ π)
  | .exitRoutine t code =>
      if s.threads t = .idle then some (s.goto t (.claim (code.setWidth 32))) else none
  | .prepareForFini t => if s.threads t = .idle then some (s.goto t .storeNative) else none
  | .becomeReady => some { s with pythonReady := true }
  | .thread t a => s.callStep t a (s.threads t)
  | .host a => s.hostStep r a s.host

end PinBridge.Exit
