import Mathlib.Data.Finset.Basic
import PinBridge.Scripts.Handlers
import PinBridge.Scripts.Knobs

/-!
# Routing events to handlers

The scripting thread pages three lanes of event records and gives each plugin
its share in a dispatch (`DispatchSnapshot.dispatch`).  A dispatch works on
a snapshot of the plugin.  It offers the events one by one, first to the fixed
callbacks of the plugin (`routeEvent`), then to its `pb.on` handlers in their
order (`routeNamedHandlers`).  A callback that fails ends the dispatch.

Some events are published to two lanes, and their handlers have to see one of
the copies.  `Handler.accept` is the whole decision of a handler on an event,
with the state it keeps to tell a copy: a window of generations, a highest
generation, or a flag.

Callbacks are arbitrary functions on an environment (`Callbacks`).  What they do
to the registry is seen by the next dispatch only.
-/

namespace PinBridge

/-! ## Kinds and lanes -/

/-- `EVENT_MODULE_LOAD`. -/
def eventModuleLoad : UInt32 := 7

/-- `EVENT_MODULE_UNLOAD`. -/
def eventModuleUnload : UInt32 := 8

/-- `EVENT_PROCESS_START`. -/
def eventProcessStart : UInt32 := 17

/-- `EVENT_PROCESS_EXIT`. -/
def eventProcessExit : UInt32 := 18

/-- `EVENT_OUT_OF_MEMORY`. -/
def eventOutOfMemory : UInt32 := 23

/-- `CONTEXT_CHANGE_EXCEPTION`. -/
def contextChangeException : UInt64 := 4

/-- `PROCESS_EXIT_SOURCE_API`. -/
def processExitSourceApi : UInt64 := 1

/-- `PROCESS_EXIT_SOURCE_PREPARE_FINI`. -/
def processExitSourcePrepareFini : UInt64 := 2

/-- The event is an exception. -/
def Event.isException (e : Event) : Bool :=
  e.kind = eventContextChange && e.arg0 = contextChangeException

/-- A module was loaded or unloaded. -/
def Event.isModule (e : Event) : Bool := e.kind = eventModuleLoad || e.kind = eventModuleUnload

/-- A record of a Hook. -/
def Event.isHook (e : Event) : Bool :=
  e.kind = Native.eventHookRegs || e.kind = Native.eventHookReturn

/-- `EventSelector::matches`. -/
def Native.EventSelector.accepts (s : Native.EventSelector) (e : Event) : Bool :=
  match s with
  | .processExit =>
      e.kind = eventProcessExit && (e.arg1 = processExitSourceApi ||
        (e.arg1 = processExitSourcePrepareFini && e.arg2 = 0))
  | .processPrepareFini => e.kind = eventProcessExit && e.arg1 = processExitSourcePrepareFini
  | .kind k => e.kind = k
  | .exception => e.isException

/-- `EventSelector::is_sticky`. -/
def Native.EventSelector.isSticky (s : Native.EventSelector) : Bool :=
  s = .kind eventProcessStart || s = .processExit || s = .processPrepareFini

namespace Routing

open Native (EventSelector eventHookRegs eventHookReturn)

/-- Where an event comes from. -/
inductive EventLane where
  | synthetic
  | priority
  | observation
  | main
  deriving DecidableEq, Repr

/-! ## Windows of generations -/

/-- `GENERATION_WINDOW_BITS`. -/
def generationWindowBits : Nat := 65536

/-- The generations seen lately. -/
structure GenerationWindow where
  /-- Older generations are not for the handler. -/
  ignoreThrough : Nat
  /-- The highest generation seen. -/
  highest : Nat
  /-- The seen generations, by their remainder. -/
  bits : Nat → Bool

/-- `GenerationWindow::new`. -/
def GenerationWindow.new (ignoreThrough : Nat) : GenerationWindow where
  ignoreThrough
  highest := ignoreThrough
  bits _ := false

/-- Forget the bits of the generations after `highest`, up to `generation`. -/
def GenerationWindow.advance (w : GenerationWindow) (generation : Nat) : GenerationWindow :=
  let advance := generation - w.highest
  let bits :=
    if generationWindowBits ≤ advance then fun _ => false
    else
      (List.range' (w.highest + 1) advance).foldl
        (fun bits value => Function.update bits (value % generationWindowBits) false) w.bits
  { w with highest := generation, bits }

/-- `GenerationWindow::accept`.  `none` when the generation is refused. -/
def GenerationWindow.accept (w : GenerationWindow) (generation : Nat) : Option GenerationWindow :=
  if generation = 0 ∨ generation ≤ w.ignoreThrough then none
  else if generation ≤ w.highest ∧ generationWindowBits ≤ w.highest - generation then none
  else
    let w := if w.highest < generation then w.advance generation else w
    let bit := generation % generationWindowBits
    if w.bits bit then none else some { w with bits := Function.update w.bits bit true }

/-! ## Handlers -/

/-- A `pb.on` handler. -/
structure EventSubscription where
  /-- What it selects. -/
  selector : EventSelector
  /-- It is to be called once. -/
  once : Bool
  /-- Its place among the handlers. -/
  order : Nat
  /-- The main lane when it was registered. -/
  mainStartAfter : Nat
  /-- The priority lane when it was registered. -/
  priorityStartAfter : Nat
  /-- The observation lane when it was registered. -/
  observationStartAfter : Nat
  /-- The address of a Hook observer. -/
  hookAddress : Option UInt64
  /-- The syscalls it is for, all of them when there is no list. -/
  syscallNumbers : Option (Finset UInt32)
  /-- The syscall generations it has seen. -/
  syscallGenerations : Option GenerationWindow
  /-- The context generations it has seen. -/
  contextGenerations : Option GenerationWindow
  /-- The sticky state was delivered. -/
  stickyDelivered : Bool
  /-- The latest allocation failure it has seen. -/
  oomGeneration : Nat
  /-- The latest module edge it has seen. -/
  mirrorGeneration : Nat

/-- A handler as a dispatch sees it. -/
structure Handler extends EventSubscription where
  /-- Its identity. -/
  id : Nat

/-- `after_handler_registration`. -/
def Handler.afterRegistration (h : Handler) (lane : EventLane) (e : Event) : Bool :=
  if lane = .synthetic ∨ e.sequence = 0 then true
  else
    match lane with
    | .synthetic => true
    | .priority => h.priorityStartAfter < e.sequence.toNat
    | .observation => h.observationStartAfter < e.sequence.toNat
    | .main => h.mainStartAfter < e.sequence.toNat

/-- The syscall of an event is wanted and not a copy. -/
def Handler.acceptSyscall (h : Handler) (e : Event) : Option Handler :=
  if h.selector = .kind eventSyscall ∧ e.kind = eventSyscall then
    if h.syscallNumbers.any (e.arg0.toUInt32 ∉ ·) then none
    else if e.address = 0 then some h
    else
      (h.syscallGenerations.bind (·.accept e.address.toNat)).map fun generations =>
        { h with syscallGenerations := some generations }
  else some h

/-- The allocation failure of an event is not a copy. -/
def Handler.acceptOom (h : Handler) (e : Event) : Option Handler :=
  if h.selector = .kind eventOutOfMemory ∧ e.kind = eventOutOfMemory ∧ e.arg1 ≠ 0 then
    if h.oomGeneration < e.arg1.toNat then some { h with oomGeneration := e.arg1.toNat } else none
  else some h

/-- The context change of an event is not a copy. -/
def Handler.acceptContext (h : Handler) (e : Event) : Option Handler :=
  if (h.selector = .exception ∨ h.selector = .kind eventContextChange) ∧
      e.kind = eventContextChange ∧ e.arg3 ≠ 0 then
    (h.contextGenerations.bind (·.accept e.arg3.toNat)).map fun generations =>
      { h with contextGenerations := some generations }
  else some h

/-- The module edge of an event is not a copy. -/
def Handler.acceptModule (h : Handler) (e : Event) : Option Handler :=
  if (h.selector = .kind eventModuleLoad ∨ h.selector = .kind eventModuleUnload) ∧
      e.isModule = true ∧ e.arg3 ≠ 0 then
    if h.mirrorGeneration < e.arg3.toNat then some { h with mirrorGeneration := e.arg3.toNat }
    else none
  else some h

/-- The Hook address of an event is not the one of an observer. -/
def Handler.otherHook (h : Handler) (e : Event) : Bool :=
  (h.selector = .kind eventHookRegs || h.selector = .kind eventHookReturn) &&
    h.hookAddress.any (· ≠ e.address)

/-- Whether an event is one of those a handler is for. -/
def Handler.hears (h : Handler) (lane : EventLane) (e : Event) : Bool :=
  h.afterRegistration lane e && h.selector.accepts e &&
    !(h.selector.isSticky && h.stickyDelivered) && !h.otherHook e

/-- Remember the delivery of a sticky event. -/
def Handler.deliver (h : Handler) : Handler :=
  if h.selector.isSticky then { h with stickyDelivered := true } else h

/-- Whether a handler is called for an event.  If so, the handler with its new
state. -/
def Handler.accept (h : Handler) (lane : EventLane) (e : Event) : Option Handler :=
  if h.hears lane e then
    ((((h.acceptSyscall e).bind (·.acceptOom e)).bind (·.acceptContext e)).bind
      (·.acceptModule e)).map Handler.deliver
  else none

/-! ## Calling handlers -/

/-- What is called. -/
inductive Callee where
  | named (id : Nat)
  | onException
  | onSyscall
  | onModuleLoad
  | onModuleUnload
  deriving DecidableEq, Repr

variable {σ : Type*}

/-- The callbacks of a plugin.  They change an environment and say whether they
succeeded. -/
structure Callbacks (σ : Type*) where
  /-- Call a callback with an event. -/
  call : σ → Callee → Event → σ × Bool
  /-- The callbacks of a stop, `on_bp_hit` and `on_stop`. -/
  stop : σ → σ × Bool
  /-- `on_event_batch`. -/
  batch : σ → σ × Bool

/-- The environment, and what a dispatch remembers of its calls. -/
structure Routed (σ : Type*) where
  /-- The environment. -/
  env : σ
  /-- The handlers to remove. -/
  removals : List Nat
  /-- The handlers that got a sticky event. -/
  stickyDeliveries : List Nat
  /-- A callback has failed. -/
  failed : Bool

/-- Nothing is called yet. -/
def Routed.init (env : σ) : Routed σ := ⟨env, [], [], false⟩

/-- Remember an id once. -/
def remember (id : Nat) (ids : List Nat) : List Nat := if id ∈ ids then ids else ids ++ [id]

/-- The environment after a callback. -/
def Routed.after (r : Routed σ) (result : σ × Bool) : Routed σ :=
  { r with env := result.1, failed := !result.2 }

/-- Call a handler. -/
def Routed.call (c : Callbacks σ) (h : Handler) (e : Event) (r : Routed σ) : Routed σ :=
  let r := {
    r with
    removals := if h.once then remember h.id r.removals else r.removals
    stickyDeliveries :=
      if h.selector.isSticky then remember h.id r.stickyDeliveries else r.stickyDeliveries }
  r.after (c.call r.env (.named h.id) e)

/-- `route_named_handlers`. -/
def routeNamedHandlers (c : Callbacks σ) (lane : EventLane) (e : Event) :
    Routed σ → List Handler → Routed σ × List Handler :=
  Handlers.routeHandlers (fun _ h => h.accept lane e) (fun h r => r.call c h e) Routed.failed

theorem routeNamedHandlers_cons (c : Callbacks σ) (lane : EventLane) (e : Event) (r : Routed σ)
    (h : Handler) (hs : List Handler) :
    routeNamedHandlers c lane e r (h :: hs) =
      match h.accept lane e with
      | none =>
          let (r, hs) := routeNamedHandlers c lane e r hs
          (r, h :: hs)
      | some h =>
          let r := r.call c h e
          if r.failed then (r, h :: hs)
          else
            let (r, hs) := routeNamedHandlers c lane e r hs
            (r, h :: hs) := by
  rw [routeNamedHandlers, Handlers.routeHandlers]
  cases h.accept lane e <;> rfl

/-! ## The fixed callbacks -/

/-- The fixed callbacks of a plugin and what they have seen. -/
structure Legacy where
  /-- `on_exception` is defined. -/
  onException : Bool
  /-- `on_syscall` is defined. -/
  onSyscall : Bool
  /-- `on_module_load` is defined. -/
  onModuleLoad : Bool
  /-- `on_module_unload` is defined. -/
  onModuleUnload : Bool
  /-- The exception codes wanted. -/
  excCodes : Option (Finset UInt32)
  /-- The syscalls wanted. -/
  syscallNumbers : Option (Finset UInt32)
  /-- The exceptions seen. -/
  exceptionGenerations : GenerationWindow
  /-- The syscalls seen. -/
  syscallGenerations : GenerationWindow
  /-- The latest module edge seen. -/
  moduleGeneration : Nat

/-- The callbacks after an event, or `none` when it is a copy. -/
def Legacy.see (l : Legacy) (e : Event) : Option Legacy :=
  if e.isException then
    if e.arg3 = 0 then some l
    else
      (l.exceptionGenerations.accept e.arg3.toNat).map fun generations =>
        { l with exceptionGenerations := generations }
  else if e.kind = eventSyscall then
    if e.address = 0 then some l
    else
      (l.syscallGenerations.accept e.address.toNat).map fun generations =>
        { l with syscallGenerations := generations }
  else if e.isModule then
    if e.arg3 = 0 then some l
    else if l.moduleGeneration < e.arg3.toNat then some { l with moduleGeneration := e.arg3.toNat }
    else none
  else some l

/-- The callback for an event. -/
def Legacy.callee (l : Legacy) (e : Event) : Option Callee :=
  if e.isException then
    if l.onException && !l.excCodes.any (e.arg1.toUInt32 ∉ ·) then some .onException else none
  else if e.kind = eventSyscall then
    if l.onSyscall && !l.syscallNumbers.any (e.arg0.toUInt32 ∉ ·) then some .onSyscall else none
  else if e.kind = eventModuleLoad then if l.onModuleLoad then some .onModuleLoad else none
  else if e.kind = eventModuleUnload then if l.onModuleUnload then some .onModuleUnload else none
  else none

/-- `route_event`. -/
def routeEvent (c : Callbacks σ) (e : Event) (r : Routed σ) (l : Legacy) : Routed σ × Legacy :=
  match l.see e with
  | none => (r, l)
  | some l =>
      match l.callee e with
      | none => (r, l)
      | some callee => (r.after (c.call r.env callee e), l)

/-! ## Dispatching -/

/-- What a dispatch works on. -/
structure DispatchSnapshot where
  /-- The place in the main lane. -/
  cursor : Nat
  /-- The place in the priority lane. -/
  priorityCursor : Nat
  /-- The place in the observation lane. -/
  observationCursor : Nat
  /-- The fixed callbacks. -/
  legacy : Legacy
  /-- The `pb.on` handlers in their order. -/
  handlers : List Handler

/-- The place in a lane. -/
def DispatchSnapshot.place (s : DispatchSnapshot) : EventLane → Nat
  | .synthetic => 0
  | .priority => s.priorityCursor
  | .observation => s.observationCursor
  | .main => s.cursor

/-- Move to a place in a lane. -/
def DispatchSnapshot.moveTo (s : DispatchSnapshot) (place : Nat) : EventLane → DispatchSnapshot
  | .synthetic => s
  | .priority => { s with priorityCursor := place }
  | .observation => { s with observationCursor := place }
  | .main => { s with cursor := place }

/-- Offer an event to the `pb.on` handlers. -/
def DispatchSnapshot.offer (c : Callbacks σ) (lane : EventLane) (e : Event) (r : Routed σ)
    (s : DispatchSnapshot) : Routed σ × DispatchSnapshot :=
  let (r, handlers) := routeNamedHandlers c lane e r s.handlers
  (r, { s with handlers })

/-- Do a part of a dispatch unless a callback has failed. -/
def unlessFailed (part : Routed σ → DispatchSnapshot → Routed σ × DispatchSnapshot)
    (r : Routed σ) (s : DispatchSnapshot) : Routed σ × DispatchSnapshot :=
  if r.failed then (r, s) else part r s

/-- Whether the handlers do not get an event of a lane.  They get the Hook
records of the observation lane only. -/
def withheld (lane : EventLane) (e : Event) : Bool := lane = .main && e.isHook

/-- Route an event that is new to the plugin. -/
def DispatchSnapshot.event (c : Callbacks σ) (lane : EventLane) (e : Event) (r : Routed σ)
    (s : DispatchSnapshot) : Routed σ × DispatchSnapshot :=
  let s := s.moveTo e.sequence.toNat lane
  let (r, legacy) := routeEvent c e r s.legacy
  let s := { s with legacy }
  if withheld lane e then (r, s) else unlessFailed (DispatchSnapshot.offer c lane e) r s

/-- Route the events of a page that are new to the plugin. -/
def DispatchSnapshot.page (c : Callbacks σ) (lane : EventLane) :
    List Event → Routed σ → DispatchSnapshot → Routed σ × DispatchSnapshot
  | [], r, s => (r, s)
  | e :: es, r, s =>
      if e.sequence.toNat ≤ s.place lane then DispatchSnapshot.page c lane es r s
      else
        let (r, s) := s.event c lane e r
        if r.failed then (r, s) else DispatchSnapshot.page c lane es r s

/-- Offer the events that are in no lane. -/
def DispatchSnapshot.synthetic (c : Callbacks σ) :
    List Event → Routed σ → DispatchSnapshot → Routed σ × DispatchSnapshot
  | [], r, s => (r, s)
  | e :: es, r, s =>
      let (r, s) := s.offer c .synthetic e r
      if r.failed then (r, s) else DispatchSnapshot.synthetic c es r s

/-- What a tick has paged, and the states that handlers are told late. -/
structure TickShared where
  /-- The application has started, is asked to exit, prepares to exit. -/
  lifecycle : List Event
  /-- The page of the priority lane. -/
  priorityEvents : List Event
  /-- The page of the observation lane. -/
  observationEvents : List Event
  /-- The latest allocation failure. -/
  oom : Option Event
  /-- The page of the main lane. -/
  events : List Event

/-- The routing of `dispatch_one`. -/
def DispatchSnapshot.dispatch (c : Callbacks σ) (shared : TickShared) (env : σ)
    (s : DispatchSnapshot) : Routed σ × DispatchSnapshot :=
  let (r, s) := s.synthetic c shared.lifecycle (.init env)
  let (r, s) := unlessFailed (DispatchSnapshot.page c .priority shared.priorityEvents) r s
  let (r, s) := unlessFailed (DispatchSnapshot.page c .observation shared.observationEvents) r s
  let (r, s) := unlessFailed (DispatchSnapshot.synthetic c shared.oom.toList) r s
  let (r, s) := unlessFailed (fun r s => (r.after (c.stop r.env), s)) r s
  let (r, s) := unlessFailed (DispatchSnapshot.page c .main shared.events) r s
  unlessFailed (fun r s => (r.after (c.batch r.env), s)) r s

end Routing

end PinBridge
