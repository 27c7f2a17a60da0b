import Mathlib.Data.List.Sort
import PinBridge.Lib.Table
import PinBridge.Scripts.Routing

/-!
# The plugins of the scripting thread

Every loaded plugin holds its `pb.on` handlers, its interceptors and its
breakpoint handlers in tables (`Plugin`).  Handlers and interceptors are filed
under identities that are never given twice.  A breakpoint handler is filed
under the native breakpoint it belongs to, and it takes an order number that is
never given twice either.

The callbacks of a plugin change the tables of that plugin only
(`Request.apply`).  The scripting thread itself adds plugins, moves them to
another name and drains their tables.  A plugin that replaces another one is
kept under a private name until it takes over.
-/

namespace PinBridge.Host

open Native (EventSelector)
open Routing (EventSubscription GenerationWindow Legacy)

/-! ## Subscriptions -/

/-- What an interceptor decides on. -/
inductive DecisionSelector where
  | childFollow
  | hookEntry
  | hookReturn
  | syscallEntry
  | syscallExit
  | exceptionHandle
  | debuggerBreakpoint
  | debuggerSingleStep
  | debuggerAsyncBreak
  deriving DecidableEq, Repr

/-- A `pb.intercept` handler. -/
structure DecisionSubscription where
  /-- What it decides on. -/
  selector : DecisionSelector
  /-- It is to be called once. -/
  once : Bool
  /-- The address of a Hook. -/
  address : Option UInt64
  /-- The thread it is for, all of them when there is none. -/
  threadId : Option UInt32
  /-- The syscalls it is for. -/
  numbers : Option (Finset UInt32)
  /-- The exception codes it is for. -/
  codes : Option (Finset UInt32)

/-- A `pb.breakpoint` handler. -/
structure BreakpointSubscription where
  /-- It is to be called once. -/
  once : Bool
  /-- The thread it is for, all of them when there is none. -/
  threadId : Option UInt32
  /-- Its place among the handlers. -/
  order : Nat

/-! ## Plugins -/

/-- The state of a plugin. -/
inductive PluginState where
  | staging
  | running
  | replacing
  | error
  deriving DecidableEq, Repr

/-- A loaded plugin. -/
structure Plugin where
  /-- Its state. -/
  state : PluginState
  /-- Its tables were drained after an error. -/
  quarantined : Bool
  /-- The fixed callbacks. -/
  legacy : Legacy
  /-- The `pb.on` handlers. -/
  events : Table Nat EventSubscription
  /-- The interceptors. -/
  decisions : Table Nat DecisionSubscription
  /-- The breakpoint handlers, by native breakpoint. -/
  breakpoints : Table UInt32 BreakpointSubscription
  /-- The place in the main lane. -/
  cursor : Nat
  /-- The place in the priority lane. -/
  priorityCursor : Nat
  /-- The place in the observation lane. -/
  observationCursor : Nat
  /-- The latest stop its breakpoint handlers were called for. -/
  lastBreakpointGen : Nat

/-- A plugin without callbacks that has seen nothing. -/
def Plugin.blank : Plugin where
  state := .running
  quarantined := false
  legacy := {
    onException := false
    onSyscall := false
    onModuleLoad := false
    onModuleUnload := false
    excCodes := none
    syscallNumbers := none
    exceptionGenerations := .new 0
    syscallGenerations := .new 0
    moduleGeneration := 0 }
  events := ∅
  decisions := ∅
  breakpoints := ∅
  cursor := 0
  priorityCursor := 0
  observationCursor := 0
  lastBreakpointGen := 0

/-- The name a plugin is filed under.  A replacement has a private one. -/
inductive PluginKey where
  | named (name : String)
  | replacement (suffix : Nat) (name : String)
  deriving DecidableEq, Repr

/-- The loaded plugins. -/
abbrev Registry : Type := Table PluginKey Plugin

/-- Clear the tables of a plugin, as `drain_runtime_ownership` does. -/
def Plugin.drain (p : Plugin) : Plugin := { p with events := ∅, decisions := ∅, breakpoints := ∅ }

/-! ## Requests of callbacks -/

/-- The next identities. -/
structure Ids where
  /-- `NEXT_SUBSCRIPTION_ID`. -/
  event : Nat
  /-- `NEXT_ID`. -/
  decision : Nat
  /-- `NEXT_ORDER`. -/
  order : Nat
  deriving DecidableEq, Repr

/-- Where the native side is when a handler is registered. -/
structure Boundaries where
  /-- `ring_total`. -/
  main : Nat
  /-- The records of the priority lane. -/
  priority : Nat
  /-- The records of the observation lane. -/
  observation : Nat
  /-- The generation of syscalls. -/
  syscall : Nat
  /-- The generation of context changes. -/
  context : Nat
  /-- The generation of module edges. -/
  module : Nat
  /-- The number of the latest allocation failure. -/
  oom : Nat

/-- `EventSubscription::new`. -/
def newEventSubscription (id : Nat) (selector : EventSelector) (once : Bool)
    (hookAddress : Option UInt64) (syscallNumbers : Option (Finset UInt32)) (now : Boundaries) :
    EventSubscription where
  selector
  once
  order := id
  mainStartAfter := now.main
  priorityStartAfter := now.priority
  observationStartAfter := now.observation
  hookAddress
  syscallNumbers
  syscallGenerations :=
    if selector = .kind eventSyscall then some (.new now.syscall) else none
  contextGenerations :=
    if selector = .exception ∨ selector = .kind eventContextChange then some (.new now.context)
    else none
  stickyDelivered := false
  oomGeneration := if selector = .kind eventOutOfMemory then now.oom else 0
  mirrorGeneration :=
    if selector = .kind eventModuleLoad ∨ selector = .kind eventModuleUnload then now.module else 0

/-- A request of a callback that changes the tables of its plugin. -/
inductive Request where
  | on (selector : EventSelector) (once : Bool) (hookAddress : Option UInt64)
      (syscallNumbers : Option (Finset UInt32)) (now : Boundaries)
  | off (id : Nat)
  | breakpoint (native : UInt32) (once : Bool) (threadId : Option UInt32)
  | breakpointRemove (native : UInt32)
  | intercept (subscription : DecisionSubscription)
  | unintercept (id : Nat)

/-- The plugin and the next identities after a request. -/
def Request.apply (ids : Ids) (p : Plugin) : Request → Ids × Plugin
  | .on selector once hookAddress numbers now =>
      ({ ids with event := ids.event + 1 },
        { p with
          events := p.events.insert ids.event
            (newEventSubscription ids.event selector once hookAddress numbers now) })
  | .off id => (ids, { p with events := p.events.erase id })
  | .breakpoint native once threadId =>
      ({ ids with order := ids.order + 1 },
        { p with breakpoints := p.breakpoints.insert native ⟨once, threadId, ids.order⟩ })
  | .breakpointRemove native => (ids, { p with breakpoints := p.breakpoints.erase native })
  | .intercept subscription =>
      ({ ids with decision := ids.decision + 1 },
        { p with decisions := p.decisions.insert ids.decision subscription })
  | .unintercept id => (ids, { p with decisions := p.decisions.erase id })

/-! ## Handlers and their places -/

/-- The identity of a handler. -/
inductive HandlerId where
  | event (id : Nat)
  | decision (id : Nat)
  | breakpoint (order : Nat)
  deriving DecidableEq, Repr

/-- A place in the tables of a plugin. -/
inductive Slot where
  | event (id : Nat)
  | decision (id : Nat)
  | breakpoint (native : UInt32)
  deriving DecidableEq, Repr

/-- The handler at a place and whether it is to be called once. -/
def Plugin.handler (p : Plugin) : Slot → Option (HandlerId × Bool)
  | .event id => (p.events.lookup id).map fun s => (.event id, s.once)
  | .decision id => (p.decisions.lookup id).map fun s => (.decision id, s.once)
  | .breakpoint native => (p.breakpoints.lookup native).map fun s => (.breakpoint s.order, s.once)

/-- The handler at a place of a plugin. -/
def Registry.handler (r : Registry) (x : PluginKey × Slot) : Option (HandlerId × Bool) :=
  (r.lookup x.1).bind fun p => p.handler x.2

/-- The handler that a request registers, with its place. -/
def Request.posts (ids : Ids) : Request → Option (Slot × HandlerId × Bool)
  | .on _ once _ _ _ => some (.event ids.event, .event ids.event, once)
  | .breakpoint native once _ => some (.breakpoint native, .breakpoint ids.order, once)
  | .intercept subscription =>
      some (.decision ids.decision, .decision ids.decision, subscription.once)
  | .off _ | .breakpointRemove _ | .unintercept _ => none

/-- The identity was given. -/
def HandlerId.Issued (ids : Ids) : HandlerId → Prop
  | .event id => id < ids.event
  | .decision id => id < ids.decision
  | .breakpoint order => order < ids.order

/-- A handler that is there after a request was there before or is registered
by it. -/
theorem Request.handler_apply {ids : Ids} {p : Plugin} {r : Request} {slot : Slot}
    {post : HandlerId × Bool} (h : (r.apply ids p).2.handler slot = some post) :
    p.handler slot = some post ∨ r.posts ids = some (slot, post) := by
  cases r with
  | on selector once hookAddress numbers now =>
      cases slot with
      | event id =>
          simp only [Request.apply, Plugin.handler] at h
          by_cases hid : id = ids.event
          · rw [hid, AList.lookup_insert, Option.map_some, Option.some.injEq] at h
            exact .inr (by rw [Request.posts, ← h, hid]; rfl)
          · rw [AList.lookup_insert_ne hid] at h
            exact .inl h
      | decision id => exact .inl h
      | breakpoint native => exact .inl h
  | off id =>
      cases slot with
      | event id' =>
          obtain ⟨s, hs, hpost⟩ := Option.map_eq_some_iff.mp h
          exact .inl (Option.map_eq_some_iff.mpr ⟨s, Table.lookup_of_erase hs, hpost⟩)
      | decision id => exact .inl h
      | breakpoint native => exact .inl h
  | breakpoint native once threadId =>
      cases slot with
      | event id => exact .inl h
      | decision id => exact .inl h
      | breakpoint native' =>
          simp only [Request.apply, Plugin.handler] at h
          by_cases hid : native' = native
          · rw [hid, AList.lookup_insert, Option.map_some, Option.some.injEq] at h
            exact .inr (by rw [Request.posts, ← h, hid])
          · rw [AList.lookup_insert_ne hid] at h
            exact .inl h
  | breakpointRemove native =>
      cases slot with
      | event id => exact .inl h
      | decision id => exact .inl h
      | breakpoint native' =>
          obtain ⟨s, hs, hpost⟩ := Option.map_eq_some_iff.mp h
          exact .inl (Option.map_eq_some_iff.mpr ⟨s, Table.lookup_of_erase hs, hpost⟩)
  | intercept subscription =>
      cases slot with
      | event id => exact .inl h
      | decision id =>
          simp only [Request.apply, Plugin.handler] at h
          by_cases hid : id = ids.decision
          · rw [hid, AList.lookup_insert, Option.map_some, Option.some.injEq] at h
            exact .inr (by rw [Request.posts, ← h, hid])
          · rw [AList.lookup_insert_ne hid] at h
            exact .inl h
      | breakpoint native => exact .inl h
  | unintercept id =>
      cases slot with
      | event id => exact .inl h
      | decision id' =>
          obtain ⟨s, hs, hpost⟩ := Option.map_eq_some_iff.mp h
          exact .inl (Option.map_eq_some_iff.mpr ⟨s, Table.lookup_of_erase hs, hpost⟩)
      | breakpoint native => exact .inl h

/-- A request registers a handler under an identity that was not given yet. -/
theorem Request.posts_fresh {ids : Ids} {p : Plugin} {r : Request} {slot : Slot} {k : HandlerId}
    {once : Bool} (h : r.posts ids = some (slot, k, once)) :
    ¬ k.Issued ids ∧ k.Issued (r.apply ids p).1 := by
  cases r with
  | on => cases h; exact ⟨Nat.lt_irrefl _, Nat.lt_succ_self _⟩
  | breakpoint => cases h; exact ⟨Nat.lt_irrefl _, Nat.lt_succ_self _⟩
  | intercept => cases h; exact ⟨Nat.lt_irrefl _, Nat.lt_succ_self _⟩
  | off | breakpointRemove | unintercept => cases h

/-- An identity stays given. -/
theorem Request.issued_apply {ids : Ids} {k : HandlerId} (h : k.Issued ids) (p : Plugin)
    (r : Request) : k.Issued (r.apply ids p).1 := by
  cases r with
  | on => cases k with
    | event => exact Nat.lt_succ_of_lt h
    | decision | breakpoint => exact h
  | breakpoint => cases k with
    | breakpoint => exact Nat.lt_succ_of_lt h
    | decision | event => exact h
  | intercept => cases k with
    | decision => exact Nat.lt_succ_of_lt h
    | event | breakpoint => exact h
  | off | breakpointRemove | unintercept => exact h

end PinBridge.Host
