import PinBridge.Lib.Ledger
import PinBridge.Lib.Transition
import PinBridge.Scripts.Dispatch
import PinBridge.Scripts.Handlers
import PinBridge.Scripts.Registry

/-!
# Handlers that are called once

A handler can be registered with `once=True`.  Three loops of the scripting
thread call handlers.  The loops over the breakpoint handlers of a stop
(`State.dispatchBound`) and over the interceptors of a request
(`State.intercept`) withdraw such a handler right after calling it.  The
dispatch of a plugin (`State.dispatchOne`) calls the `pb.on` handlers of
a snapshot, for every event of several pages, and withdraws them at the end.

A snapshot holds a handler once, so the first two loops call it once.  The
third one calls it for every event it accepts.  `once_when_sole` has the
condition on the events under which no handler registered for one call gets
a second one, over runs of dispatches, stops, requests, loads, replacements,
errors and unloads in any order.
-/

namespace PinBridge.Host

open Routing (Callbacks Callee DispatchSnapshot Handler Legacy Routed TickShared)
open Transition (run Always Guarded)

/-! ## States -/

/-- The registry, and a history of its handlers. -/
structure State where
  /-- The plugins. -/
  registry : Registry
  /-- The next identities. -/
  ids : Ids
  /-- The handlers registered with `once=True`. -/
  onces : List HandlerId
  /-- The calls of handlers. -/
  calls : List HandlerId

/-- No plugin is loaded yet. -/
def State.init : State := ⟨∅, ⟨1, 1, 1⟩, [], []⟩

/-- The handlers for one call after a request. -/
def Request.addOnce (ids : Ids) (onces : List HandlerId) (r : Request) : List HandlerId :=
  match r.posts ids with
  | some (_, k, true) => k :: onces
  | _ => onces

/-- A callback of a plugin makes a request. -/
def State.request (key : PluginKey) (s : State) (r : Request) : State :=
  match s.registry.lookup key with
  | none => s
  | some p =>
      { s with
        registry := s.registry.insert key (r.apply s.ids p).2
        ids := (r.apply s.ids p).1
        onces := r.addOnce s.ids s.onces }

/-- A callback of a plugin makes its requests. -/
def State.script (s : State) (key : PluginKey) (requests : List Request) : State :=
  requests.foldl (State.request key) s

/-- Change a plugin. -/
def State.modify (s : State) (key : PluginKey) (f : Plugin → Plugin) : State :=
  { s with registry := s.registry.modify key f }

/-- What happens when a handler is to be called. -/
structure Answer where
  /-- The event was built, so the callback is called. -/
  built : Bool
  /-- The requests of the callback. -/
  requests : List Request
  /-- The callback succeeds. -/
  ok : Bool

/-- A callback that does nothing. -/
def Answer.quiet : Answer := ⟨true, [], true⟩

/-- Call a handler of a plugin. -/
def State.call (s : State) (key : PluginKey) (k : HandlerId) (a : Answer) : State :=
  if a.built then { s with calls := k :: s.calls }.script key a.requests else s

/-! ## The dispatch of a plugin -/

/-- The callbacks of a plugin, with the answers to come. -/
def callbacks (key : PluginKey) : Callbacks (State × List Answer) where
  call env callee _ :=
    let a := env.2.headD .quiet
    match callee with
    | .named id => ((env.1.call key (.event id) a, env.2.tail), a.built && a.ok)
    | _ => ((env.1.script key a.requests, env.2.tail), a.ok)
  stop env :=
    let a := env.2.headD .quiet
    ((env.1.script key a.requests, env.2.tail), a.ok)
  batch env :=
    let a := env.2.headD .quiet
    ((env.1.script key a.requests, env.2.tail), a.ok)

/-- The handlers of a plugin by their order. -/
def Plugin.handlers (p : Plugin) : List Handler :=
  (p.events.entries.map fun x => (⟨x.2, x.1⟩ : Handler)).insertionSort fun h h' =>
    h.order ≤ h'.order

/-- What a dispatch of the plugin works on. -/
def Plugin.snapshot (p : Plugin) : DispatchSnapshot where
  cursor := p.cursor
  priorityCursor := p.priorityCursor
  observationCursor := p.observationCursor
  legacy := p.legacy
  handlers := p.handlers

/-- Write back what a handler has seen. -/
def Plugin.keep (stickyDeliveries : List Nat) (p : Plugin) (h : Handler) : Plugin :=
  { p with
    events := p.events.modify h.id fun s =>
      { s with
        syscallGenerations := h.syscallGenerations
        contextGenerations := h.contextGenerations
        stickyDelivered := s.stickyDelivered || h.id ∈ stickyDeliveries
        oomGeneration := max s.oomGeneration h.oomGeneration
        mirrorGeneration := max s.mirrorGeneration h.mirrorGeneration } }

/-- The write-back of `dispatch_one`. -/
def Plugin.writeBack (p : Plugin) (r : Routed (State × List Answer)) (s : DispatchSnapshot) :
    Plugin :=
  let p := {
    p with
    cursor := s.cursor
    priorityCursor := s.priorityCursor
    observationCursor := s.observationCursor
    legacy := {
      p.legacy with
      exceptionGenerations := s.legacy.exceptionGenerations
      syscallGenerations := s.legacy.syscallGenerations
      moduleGeneration := max p.legacy.moduleGeneration s.legacy.moduleGeneration } }
  let p := s.handlers.foldl (Plugin.keep r.stickyDeliveries) p
  let p := { p with events := r.removals.foldl (fun events id => events.erase id) p.events }
  if r.failed then { p with state := .error } else p

/-- `dispatch_one`. -/
def State.dispatchOne (s : State) (key : PluginKey) (shared : TickShared)
    (answers : List Answer) : State :=
  match s.registry.lookup key with
  | none => s
  | some p =>
      if p.state ≠ .running then s
      else
        let (r, snapshot) := p.snapshot.dispatch (callbacks key) shared (s, answers)
        r.env.1.modify key fun p => p.writeBack r snapshot

/-! ## Loops that withdraw at once -/

/-- A handler with its plugin, as the other two loops copy it. -/
structure Bound where
  /-- The plugin. -/
  plugin : PluginKey
  /-- The handler. -/
  id : HandlerId
  /-- Its place in the tables. -/
  slot : Slot
  /-- It is to be called once. -/
  once : Bool
  /-- Its place among the handlers. -/
  order : Nat

/-- The text of a key. -/
def PluginKey.text : PluginKey → String
  | .named name => name
  | .replacement 1 name => "\u0001replacement:" ++ name
  | .replacement suffix name => "\u0001replacement:" ++ toString suffix ++ ":" ++ name

/-- `sort_handlers`. -/
def sortHandlers (hs : List Bound) : List Bound :=
  Handlers.sortHandlers (fun h => h.plugin.text) Bound.order hs

/-- Withdraw a handler. -/
def Plugin.withdraw (p : Plugin) : Slot → Plugin
  | .event id => { p with events := p.events.erase id }
  | .decision id => { p with decisions := p.decisions.erase id }
  | .breakpoint native => { p with breakpoints := p.breakpoints.erase native }

/-- Call a handler and withdraw it if it is to be called once. -/
def State.callBound (update : Plugin → Plugin) (s : State) (h : Bound) (a : Answer) : State :=
  (s.call h.plugin h.id a).modify h.plugin fun p =>
    let p := update p
    let p := if a.built && a.ok then p else { p with state := .error }
    if h.once then p.withdraw h.slot else p

/-- Call handlers one after another. -/
def State.callAll (update : Plugin → Plugin) : State → List Bound → List Answer → State
  | s, [], _ => s
  | s, h :: hs, answers =>
      State.callAll update (s.callBound update h (answers.headD .quiet)) hs answers.tail

/-- `PB_INVALID_THREAD_ID`. -/
def invalidThreadId : UInt32 := 0xffffffff

/-- What a tick has read about the latest stop. -/
structure Stop where
  /-- The application is stopped. -/
  stopped : Bool
  /-- The generation. -/
  generation : Nat
  /-- The thread that has stopped. -/
  threadId : UInt32
  /-- The address it has stopped at. -/
  address : UInt64
  /-- The native breakpoints with their addresses. -/
  entries : List (UInt32 × UInt64)

/-- The native breakpoint of a stop. -/
def Stop.native (stop : Stop) : Option UInt32 :=
  if !stop.stopped ∨ stop.threadId = invalidThreadId ∨ stop.generation = 0 then none
  else (stop.entries.find? fun x => x.2 = stop.address).map Prod.fst

/-- The breakpoint handler of a plugin for a stop at a native breakpoint. -/
def Plugin.boundTo (stop : Stop) (native : UInt32) (key : PluginKey) (p : Plugin) :
    Option Bound :=
  if p.state ≠ .running ∨ stop.generation ≤ p.lastBreakpointGen then none
  else
    (p.breakpoints.lookup native).bind fun b =>
      if b.threadId.any (· ≠ stop.threadId) then none
      else
        some {
          plugin := key
          id := .breakpoint b.order
          slot := .breakpoint native
          once := b.once
          order := b.order }

/-- `dispatch_bound_breakpoints`. -/
def State.dispatchBound (s : State) (stop : Stop) (answers : List Answer) : State :=
  match stop.native with
  | none => s
  | some native =>
      let handlers := s.registry.entries.filterMap fun x => x.2.boundTo stop native x.1
      s.callAll (fun p => { p with lastBreakpointGen := stop.generation })
        (sortHandlers handlers) answers

/-- A request to decide on. -/
structure InterceptRequest where
  /-- What is to be decided. -/
  selector : DecisionSelector
  /-- The address. -/
  address : UInt64
  /-- The thread. -/
  threadId : UInt32
  /-- The syscall. -/
  number : UInt32
  /-- The exception code. -/
  code : UInt32
  /-- The Hook interceptors in the published index. -/
  listed : PluginKey → Nat → Bool

/-- Whether an interceptor decides on a request.  A new process is not of a
thread, and Hooks are looked up in the published index. -/
def DecisionSubscription.wants (r : InterceptRequest) (key : PluginKey) (id : Nat)
    (d : DecisionSubscription) : Bool :=
  d.selector = r.selector &&
    match r.selector with
    | .childFollow => true
    | .hookEntry | .hookReturn =>
        r.listed key id && d.address = some r.address && !d.threadId.any (· ≠ r.threadId)
    | .syscallEntry | .syscallExit =>
        !d.threadId.any (· ≠ r.threadId) && !d.numbers.any (r.number ∉ ·)
    | .exceptionHandle => !d.threadId.any (· ≠ r.threadId) && !d.codes.any (r.code ∉ ·)
    | .debuggerBreakpoint | .debuggerSingleStep | .debuggerAsyncBreak =>
        !d.threadId.any (· ≠ r.threadId)

/-- The interceptors of a plugin for a request. -/
def Plugin.interceptors (r : InterceptRequest) (key : PluginKey) (p : Plugin) : List Bound :=
  if p.state ≠ .running then []
  else
    p.decisions.entries.filterMap fun x =>
      if x.2.wants r key x.1 then
        some {
          plugin := key
          id := .decision x.1
          slot := .decision x.1
          once := x.2.once
          order := x.1 }
      else none

/-- The dispatch of a request to the interceptors. -/
def State.intercept (s : State) (r : InterceptRequest) (answers : List Answer) : State :=
  s.callAll id (sortHandlers (s.registry.entries.flatMap fun x => x.2.interceptors r x.1)) answers

/-! ## The life of plugins -/

/-- What happens next. -/
inductive Action where
  | load (key : PluginKey) (p : Plugin)
  | script (key : PluginKey) (requests : List Request)
  | update (key : PluginKey) (state : PluginState) (legacy : Legacy)
  | commit (name : String) (suffix : Nat)
  | quarantine (key : PluginKey)
  | unload (key : PluginKey)
  | dispatchOne (key : PluginKey) (shared : TickShared) (answers : List Answer)
  | dispatchBound (stop : Stop) (answers : List Answer)
  | intercept (r : InterceptRequest) (answers : List Answer)

/-- A replacement takes over the name. -/
def Registry.commit (r : Registry) (name : String) (suffix : Nat) (p : Plugin) : Registry :=
  (r.erase (.replacement suffix name)).insert (.named name) p

/-- One action.  A plugin is added with empty tables under a key that is free.
The top level of a plugin, its `pb_init` and its `on_unload` are scripts, and
a failed plugin is unloaded or left in an error state. -/
def State.step (s : State) : Action → Option State
  | .load key p =>
      match s.registry.lookup key with
      | some _ => none
      | none => some { s with registry := s.registry.insert key p.drain }
  | .script key requests => some (s.script key requests)
  | .update key state legacy => some (s.modify key fun p => { p with state, legacy })
  | .commit name suffix =>
      (s.registry.lookup (.replacement suffix name)).map fun p =>
        { s with registry := s.registry.commit name suffix p }
  | .quarantine key =>
      some (s.modify key fun p =>
        if p.state = .error ∧ !p.quarantined then { p.drain with quarantined := true } else p)
  | .unload key => some { s with registry := s.registry.erase key }
  | .dispatchOne key shared answers => some (s.dispatchOne key shared answers)
  | .dispatchBound stop answers => some (s.dispatchBound stop answers)
  | .intercept r answers => some (s.intercept r answers)

/-! ## What callbacks do -/

/-- The handlers of a state as a ledger. -/
def State.ledger (s : State) : Ledger (PluginKey × Slot) HandlerId where
  posted x := (s.registry.lookup x.1).bind fun p => p.handler x.2
  issued := {k | k.Issued s.ids}
  onces := {k | k ∈ s.onces}
  calls := s.calls

theorem State.posted_eq_some {s : State} {key : PluginKey} {slot : Slot}
    {post : HandlerId × Bool} : s.ledger.posted (key, slot) = some post ↔
      ∃ p, s.registry.lookup key = some p ∧ p.handler slot = some post :=
  Option.bind_eq_some_iff

/-- The handlers registered for one call are called once. -/
def State.AtMostOnce (s : State) : Prop := ∀ k ∈ s.onces, s.calls.count k ≤ 1

theorem Request.mem_addOnce {ids : Ids} {onces : List HandlerId} {r : Request} {k : HandlerId} :
    k ∈ r.addOnce ids onces ↔ k ∈ onces ∨ ∃ slot, r.posts ids = some (slot, k, true) := by
  rw [Request.addOnce]
  split
  next slot k' hposts =>
    rw [List.mem_cons, hposts]
    constructor
    · rintro (rfl | hk)
      · exact .inr ⟨slot, rfl⟩
      · exact .inl hk
    · rintro (hk | ⟨slot', heq⟩)
      · exact .inr hk
      · cases heq
        exact .inl rfl
  next hnone =>
    refine ⟨.inl, fun hk => hk.resolve_right ?_⟩
    rintro ⟨slot, heq⟩
    exact hnone slot k heq

theorem State.request_calls (key : PluginKey) (s : State) (r : Request) :
    (s.request key r).calls = s.calls := by
  rw [State.request]
  split <;> rfl

theorem State.request_eq {s : State} {key : PluginKey} {p : Plugin}
    (hp : s.registry.lookup key = some p) (r : Request) :
    s.request key r = { s with
      registry := s.registry.insert key (r.apply s.ids p).2
      ids := (r.apply s.ids p).1
      onces := r.addOnce s.ids s.onces } := by
  rw [State.request, hp]

/-- A handler that is posted after a request was posted before, or the request
has posted it. -/
theorem State.posted_request {s : State} {key : PluginKey} {p : Plugin}
    (hp : s.registry.lookup key = some p) {r : Request} {x : PluginKey × Slot}
    {post : HandlerId × Bool} (hx : (s.request key r).ledger.posted x = some post) :
    s.ledger.posted x = some post ∨ x.1 = key ∧ r.posts s.ids = some (x.2, post) := by
  obtain ⟨key', slot⟩ := x
  rw [State.request_eq hp] at hx
  obtain ⟨p', hp', hslot⟩ := State.posted_eq_some.mp hx
  by_cases hkey : key' = key
  · subst hkey
    rw [AList.lookup_insert, Option.some.injEq] at hp'
    subst hp'
    rcases Request.handler_apply hslot with hold | hnew
    · exact .inl (State.posted_eq_some.mpr ⟨p, hp, hold⟩)
    · exact .inr ⟨rfl, hnew⟩
  · rw [AList.lookup_insert_ne hkey] at hp'
    exact .inl (State.posted_eq_some.mpr ⟨p', hp', hslot⟩)

/-- A request withdraws handlers and registers new ones. -/
theorem State.grows_request {s : State} (h : s.ledger.Filed) (key : PluginKey) (r : Request) :
    s.ledger.Grows (s.request key r).ledger := by
  cases hp : s.registry.lookup key with
  | none =>
      rw [State.request, hp]
      exact h.grows_refl
  | some p =>
      have hids : (s.request key r).ids = (r.apply s.ids p).1 := by rw [State.request_eq hp]
      have honces : ∀ {k : HandlerId}, k ∈ (s.request key r).onces ↔
          k ∈ s.onces ∨ ∃ slot, r.posts s.ids = some (slot, k, true) := by
        rw [State.request_eq hp]
        exact Request.mem_addOnce
      refine {
        posted := fun {x k b} hx => ?_, unique := fun {x y k b b'} hk hx hy => ?_,
        issued := fun k hk => ?_, onces := fun {k} hk => ?_, onces_issued := fun k hk => ?_ }
      · rcases State.posted_request hp hx with hold | ⟨-, hnew⟩
        · exact .inl hold
        · obtain ⟨hk, hk'⟩ := Request.posts_fresh (p := p) hnew
          refine .inr ⟨hk, ?_, ?_⟩
          · show k.Issued (s.request key r).ids
            rwa [hids]
          · refine Iff.trans ⟨?_, ?_⟩ honces.symm
            · rintro rfl
              exact .inr ⟨x.2, hnew⟩
            · rintro (honce | ⟨slot, hposts⟩)
              · exact absurd (h.onces_issued honce) hk
              · rw [hnew] at hposts
                cases hposts
                rfl
      · have hx' := (State.posted_request hp hx).resolve_left fun hold => hk (h.posted_issued hold)
        have hy' := (State.posted_request hp hy).resolve_left fun hold => hk (h.posted_issued hold)
        have hslot := hx'.2.symm.trans hy'.2
        simp only [Option.some.injEq, Prod.mk.injEq] at hslot
        exact Prod.ext (hx'.1.trans hy'.1.symm) hslot.1
      · show k.Issued (s.request key r).ids
        rw [hids]
        exact Request.issued_apply hk p r
      · refine honces.trans ⟨fun hk' => hk'.resolve_right ?_, .inl⟩
        rintro ⟨slot, hposts⟩
        exact (Request.posts_fresh (p := p) hposts).1 hk
      · show k.Issued (s.request key r).ids
        rw [hids]
        rcases honces.mp hk with hk | ⟨slot, hposts⟩
        · exact Request.issued_apply (h.onces_issued hk) p r
        · exact (Request.posts_fresh hposts).2

theorem State.script_calls (s : State) (key : PluginKey) (requests : List Request) :
    (s.script key requests).calls = s.calls := by
  induction requests generalizing s with
  | nil => rfl
  | cons r requests ih => exact (ih _).trans (s.request_calls key r)

theorem State.grows_script {s : State} (h : s.ledger.Filed) (key : PluginKey)
    (requests : List Request) : s.ledger.Grows (s.script key requests).ledger := by
  induction requests generalizing s with
  | nil => exact h.grows_refl
  | cons r requests ih =>
      have hg := s.grows_request h key r
      exact hg.trans (ih (hg.filed h))

/-- Changing a plugin without posting anything. -/
theorem State.posted_modify {s : State} {key : PluginKey} {f : Plugin → Plugin}
    (hf : ∀ {p slot post}, (f p).handler slot = some post → p.handler slot = some post)
    {x : PluginKey × Slot} {post : HandlerId × Bool}
    (hx : (s.modify key f).ledger.posted x = some post) : s.ledger.posted x = some post := by
  obtain ⟨key', slot⟩ := x
  obtain ⟨p, hp, hslot⟩ := State.posted_eq_some.mp hx
  have hp' : (s.registry.modify key f).lookup key' = some p := hp
  rw [Table.lookup_modify] at hp'
  split at hp'
  next hkey =>
    obtain ⟨q, hq, rfl⟩ := Option.map_eq_some_iff.mp hp'
    exact State.posted_eq_some.mpr ⟨q, hkey ▸ hq, hf hslot⟩
  next => exact State.posted_eq_some.mpr ⟨p, hp', hslot⟩

/-- A place that a change clears is empty. -/
theorem State.not_posted_modify {s : State} {key : PluginKey} {f : Plugin → Plugin} {slot : Slot}
    (hf : ∀ p, (f p).handler slot = none) (post : HandlerId × Bool) :
    (s.modify key f).ledger.posted (key, slot) ≠ some post := by
  intro hx
  obtain ⟨p, hp, hslot⟩ := State.posted_eq_some.mp hx
  have hp' : (s.registry.modify key f).lookup key = some p := hp
  rw [Table.lookup_modify, if_pos rfl] at hp'
  obtain ⟨q, -, rfl⟩ := Option.map_eq_some_iff.mp hp'
  rw [hf] at hslot
  cases hslot

theorem State.script_withCalls (s : State) (calls : List HandlerId) (key : PluginKey)
    (requests : List Request) :
    State.script { s with calls } key requests = { s.script key requests with calls } := by
  induction requests generalizing s with
  | nil => rfl
  | cons r requests ih =>
      have hr : State.request key { s with calls } r = { State.request key s r with calls } := by
        simp only [State.request]
        split <;> rfl
      show State.script (State.request key { s with calls } r) key requests = _
      rw [hr]
      exact ih _

theorem State.call_calls (s : State) (key : PluginKey) (k : HandlerId) (a : Answer) :
    (s.call key k a).calls = if a.built then k :: s.calls else s.calls := by
  rw [State.call]
  split
  · exact State.script_calls _ _ _
  · rfl

theorem State.grows_call {s : State} (h : s.ledger.Filed) (key : PluginKey) (k : HandlerId)
    (a : Answer) : s.ledger.Grows (s.call key k a).ledger := by
  rw [State.call]
  split
  · rw [State.script_withCalls]
    exact (s.grows_script h key a.requests).withdraw rfl rfl id
  · exact h.grows_refl

/-! ## Loops that withdraw at once -/

theorem Plugin.handler_withdraw (p : Plugin) (slot : Slot) :
    (p.withdraw slot).handler slot = none := by
  cases slot <;>
    simp only [Plugin.withdraw, Plugin.handler, AList.lookup_erase, Option.map_none]

theorem Plugin.handler_of_withdraw {p : Plugin} {slot slot' : Slot} {post : HandlerId × Bool}
    (h : (p.withdraw slot).handler slot' = some post) : p.handler slot' = some post := by
  cases slot <;> cases slot' <;> first
    | exact h
    | (obtain ⟨a, ha, hpost⟩ := Option.map_eq_some_iff.mp h
       exact Option.map_eq_some_iff.mpr ⟨a, Table.lookup_of_erase ha, hpost⟩)

/-- What a loop relies on for a handler it has copied and not called yet. -/
structure State.Copied (s : State) (h : Bound) : Prop where
  /-- Its identity was given. -/
  issued : h.id ∈ s.ledger.issued
  /-- The copy knows whether it is to be called once. -/
  once : h.once = true ↔ h.id ∈ s.onces
  /-- It is where it was copied from, if it is still there. -/
  place : ∀ {x : PluginKey × Slot} {b : Bool}, s.ledger.posted x = some (h.id, b) →
    x = (h.plugin, h.slot)
  /-- It was not called before. -/
  unused : h.once = true → s.calls.count h.id = 0

theorem State.copied_of_posted {s : State} (hs : s.ledger.Sound) {h : Bound}
    (hx : s.ledger.posted (h.plugin, h.slot) = some (h.id, h.once)) : s.Copied h where
  issued := hs.posted_issued hx
  once := hs.posted_once hx
  place hy := hs.unique hy hx
  unused honce := hs.unused (honce ▸ hx)

section

variable {update : Plugin → Plugin}
  (hupdate : ∀ {p slot post}, (update p).handler slot = some post → p.handler slot = some post)
include hupdate

theorem State.grows_callBound {s : State} (hs : s.ledger.Filed) (h : Bound) (a : Answer) :
    s.ledger.Grows (s.callBound update h a).ledger := by
  refine (s.grows_call hs h.plugin h.id a).withdraw rfl rfl ?_
  refine State.posted_modify ?_
  intro p slot post hpost
  have herror : ∀ {q : Plugin}, (if a.built && a.ok then q else { q with state := .error }).handler
      slot = some post → q.handler slot = some post := by
    intro q hq
    split at hq <;> exact hq
  dsimp only at hpost
  split at hpost
  · exact hupdate (herror (Plugin.handler_of_withdraw hpost))
  · exact hupdate (herror hpost)

theorem State.sound_callBound {s : State} (hs : s.ledger.Sound) {h : Bound} (hc : s.Copied h)
    (a : Answer) : (s.callBound update h a).ledger.Sound := by
  have hg := s.grows_callBound hupdate hs.toFiled h a
  have hcalls : (s.callBound update h a).ledger.calls =
      if a.built then h.id :: s.calls else s.calls := s.call_calls h.plugin h.id a
  refine hs.transact hg (fun {k} hk => ?_) (fun {k} hk => ?_)
  · rw [hcalls] at hk
    split at hk
    · rcases List.mem_cons.mp hk with rfl | hk
      · exact hc.issued
      · exact hs.calls_issued hk
    · exact hs.calls_issued hk
  · by_cases hid : k = h.id
    · subst hid
      have honce := hc.once.mpr hk
      refine .inr ⟨?_, fun x b hx => ?_⟩
      · rw [hcalls]
        split
        · rw [List.count_cons_self, hc.unused honce]
        · rw [hc.unused honce]
          exact Nat.zero_le 1
      · obtain rfl := hc.place (hg.posted_of_issued hc.issued hx)
        refine State.not_posted_modify (fun p => ?_) _ hx
        rw [if_pos honce]
        exact Plugin.handler_withdraw _ _
    · refine .inl ?_
      rw [hcalls]
      split
      · exact List.count_cons_of_ne (Ne.symm hid)
      · rfl

theorem State.Copied.callBound {s : State} (hs : s.ledger.Sound) {h g : Bound} (hc : s.Copied g)
    (hne : h.id ≠ g.id) (a : Answer) : (s.callBound update h a).Copied g := by
  have hg := s.grows_callBound hupdate hs.toFiled h a
  refine ⟨hg.issued hc.issued, hc.once.trans (hg.onces hc.issued).symm,
    fun hx => hc.place (hg.posted_of_issued hc.issued hx), fun honce => ?_⟩
  have hcalls : (s.callBound update h a).calls =
      if a.built then h.id :: s.calls else s.calls := s.call_calls h.plugin h.id a
  rw [hcalls]
  split
  · rw [List.count_cons_of_ne hne]
    exact hc.unused honce
  · exact hc.unused honce

/-- Calling copied handlers, each at most once, keeps the ledger sound. -/
theorem State.sound_callAll {s : State} (hs : s.ledger.Sound) {hs' : List Bound}
    (hcopied : ∀ h ∈ hs', s.Copied h) (hne : hs'.Pairwise fun h g => h.id ≠ g.id)
    (answers : List Answer) : (s.callAll update hs' answers).ledger.Sound := by
  induction hs' generalizing s answers with
  | nil => exact hs
  | cons h hs' ih =>
      obtain ⟨hhead, hne⟩ := List.pairwise_cons.mp hne
      refine ih (s.sound_callBound hupdate hs (hcopied h List.mem_cons_self) _) ?_ hne _
      intro g hg
      exact (hcopied g (List.mem_cons_of_mem h hg)).callBound hupdate hs (hhead g hg) _

/-- A loop over handlers copied from different places. -/
theorem State.sound_sorted {s : State} (hs : s.ledger.Sound) {hs' : List Bound}
    (hposted : ∀ h ∈ hs', s.ledger.posted (h.plugin, h.slot) = some (h.id, h.once))
    (hplace : hs'.Pairwise fun h g => (h.plugin, h.slot) ≠ (g.plugin, g.slot))
    (answers : List Answer) : (s.callAll update (sortHandlers hs') answers).ledger.Sound := by
  have hperm : (sortHandlers hs').Perm hs' := Handlers.sortHandlers_perm _ _ _
  have hne : hs'.Pairwise fun h g => h.id ≠ g.id := by
    refine hplace.imp_of_mem fun {h g} hh hg hne heq => hne ?_
    exact hs.unique (hposted h hh) (by rw [hposted g hg, heq])
  refine s.sound_callAll hupdate hs (fun h hh => ?_) ?_ answers
  · exact s.copied_of_posted hs (hposted h (hperm.mem_iff.mp hh))
  · exact (hperm.pairwise_iff fun h => h.symm).mpr hne

end

/-- The entries of the registry are under different keys. -/
theorem Registry.pairwise_entries (r : Registry) : r.entries.Pairwise fun x y => x.1 ≠ y.1 :=
  List.nodupKeys_iff_pairwise.mp r.nodupKeys

theorem Plugin.boundTo_eq_some {stop : Stop} {native : UInt32} {key : PluginKey} {p : Plugin}
    {h : Bound} (hh : p.boundTo stop native key = some h) :
    h.plugin = key ∧ p.handler h.slot = some (h.id, h.once) := by
  rw [Plugin.boundTo] at hh
  split at hh
  · cases hh
  · obtain ⟨b, hb, hh⟩ := Option.bind_eq_some_iff.mp hh
    split at hh
    · cases hh
    · cases hh
      refine ⟨rfl, ?_⟩
      show (p.breakpoints.lookup native).map _ = _
      rw [hb]
      rfl

theorem State.sound_dispatchBound {s : State} (hs : s.ledger.Sound) (stop : Stop)
    (answers : List Answer) : (s.dispatchBound stop answers).ledger.Sound := by
  rw [State.dispatchBound]
  split
  next => exact hs
  next native hnative =>
    have hupdate : ∀ {p : Plugin} {slot : Slot} {post : HandlerId × Bool},
        Plugin.handler { p with lastBreakpointGen := stop.generation } slot = some post →
          p.handler slot = some post := fun h => h
    refine s.sound_sorted hupdate hs (fun h hh => ?_) ?_ answers
    · obtain ⟨x, hx, hh⟩ := List.mem_filterMap.mp hh
      obtain ⟨hkey, hslot⟩ := Plugin.boundTo_eq_some hh
      exact State.posted_eq_some.mpr ⟨x.2, hkey ▸ AList.mem_lookup_iff.mpr hx, hslot⟩
    · refine List.pairwise_filterMap.mpr ?_
      refine s.registry.pairwise_entries.imp fun {x y} hne h hh g hg heq => hne ?_
      rw [← (Plugin.boundTo_eq_some hh).1, ← (Plugin.boundTo_eq_some hg).1]
      exact congrArg Prod.fst heq

theorem Plugin.mem_interceptors {r : InterceptRequest} {key : PluginKey} {p : Plugin} {h : Bound}
    (hh : h ∈ p.interceptors r key) :
    h.plugin = key ∧ p.handler h.slot = some (h.id, h.once) := by
  rw [Plugin.interceptors] at hh
  split at hh
  · cases hh
  · obtain ⟨x, hx, hh⟩ := List.mem_filterMap.mp hh
    split at hh
    · cases hh
      refine ⟨rfl, ?_⟩
      show (p.decisions.lookup x.1).map _ = _
      rw [AList.mem_lookup_iff.mpr hx]
      rfl
    · cases hh

/-- The interceptors of a plugin are in different places. -/
theorem Plugin.pairwise_interceptors (r : InterceptRequest) (key : PluginKey) (p : Plugin) :
    (p.interceptors r key).Pairwise fun h g => (h.plugin, h.slot) ≠ (g.plugin, g.slot) := by
  rw [Plugin.interceptors]
  split
  · exact List.Pairwise.nil
  · refine List.pairwise_filterMap.mpr ?_
    refine (List.nodupKeys_iff_pairwise.mp p.decisions.nodupKeys).imp ?_
    intro x y hne h hh g hg heq
    split at hh
    · split at hg
      · cases hh
        cases hg
        exact hne (Slot.decision.inj (congrArg Prod.snd heq))
      · cases hg
    · cases hh

theorem State.sound_intercept {s : State} (hs : s.ledger.Sound) (r : InterceptRequest)
    (answers : List Answer) : (s.intercept r answers).ledger.Sound := by
  refine s.sound_sorted (fun h => h) hs (fun h hh => ?_) ?_ answers
  · obtain ⟨x, hx, hh⟩ := List.mem_flatMap.mp hh
    obtain ⟨hkey, hslot⟩ := Plugin.mem_interceptors hh
    exact State.posted_eq_some.mpr ⟨x.2, hkey ▸ AList.mem_lookup_iff.mpr hx, hslot⟩
  · refine List.pairwise_flatMap.mpr ⟨fun x _ => Plugin.pairwise_interceptors r x.1 x.2, ?_⟩
    refine s.registry.pairwise_entries.imp fun {x y} hne h hh g hg heq => hne ?_
    rw [← (Plugin.mem_interceptors hh).1, ← (Plugin.mem_interceptors hg).1]
    exact congrArg Prod.fst heq

/-! ## The dispatch of a plugin -/

theorem Plugin.handler_keep (stickyDeliveries : List Nat) (p : Plugin) (h : Handler)
    (slot : Slot) : (p.keep stickyDeliveries h).handler slot = p.handler slot := by
  cases slot with
  | event id =>
      show ((p.events.modify h.id _).lookup id).map _ = _
      rw [Table.lookup_modify]
      split
      next hid =>
        rw [hid, Option.map_map]
        rfl
      next => rfl
  | decision id => rfl
  | breakpoint native => rfl

theorem Plugin.handler_foldl_keep (stickyDeliveries : List Nat) (p : Plugin) (hs : List Handler)
    (slot : Slot) :
    (hs.foldl (Plugin.keep stickyDeliveries) p).handler slot = p.handler slot := by
  induction hs generalizing p with
  | nil => rfl
  | cons h hs ih => exact (ih _).trans (p.handler_keep stickyDeliveries h slot)

/-- The write-back withdraws the handlers to remove and no other. -/
theorem Plugin.handler_writeBack (p : Plugin) (r : Routed (State × List Answer))
    (s : DispatchSnapshot) (slot : Slot) : (p.writeBack r s).handler slot =
      if ∃ id ∈ r.removals, slot = .event id then none else p.handler slot := by
  have hkeep := fun p => Plugin.handler_foldl_keep r.stickyDeliveries p s.handlers slot
  have hfail : ∀ {q : Plugin}, (if r.failed then { q with state := .error } else q).handler slot =
      q.handler slot := by
    intro q
    split <;> rfl
  rw [Plugin.writeBack]
  refine hfail.trans ?_
  cases slot with
  | event id =>
      refine (congrArg (Option.map _) (Table.lookup_foldl_erase _ r.removals id)).trans ?_
      by_cases hid : id ∈ r.removals
      · rw [if_pos hid, if_pos ⟨id, hid, rfl⟩]
        rfl
      · rw [if_neg hid, if_neg (by simpa using hid)]
        exact hkeep _
  | decision id =>
      rw [if_neg (by simp)]
      exact hkeep _
  | breakpoint native =>
      rw [if_neg (by simp)]
      exact hkeep _

/-- Where a dispatch is that has started in a state, with handlers of the given
tags. -/
structure State.Dispatching (s : State) (tags : List (Nat × Bool))
    (r : Routed (State × List Answer)) : Prop where
  /-- Handlers are withdrawn and registered. -/
  grows : s.ledger.Grows r.env.1.ledger
  /-- Nothing but the handlers is called. -/
  others : ∀ {k : HandlerId}, (∀ x ∈ tags, k ≠ .event x.1) →
    r.env.1.calls.count k = s.calls.count k
  /-- A handler for one call that is called is to be removed. -/
  removed : ∀ {id : Nat}, (id, true) ∈ tags →
    r.env.1.calls.count (.event id) = s.calls.count (.event id) ∨ id ∈ r.removals

theorem State.Dispatching.after_script {s : State} {tags : List (Nat × Bool)}
    {r : Routed (State × List Answer)} (hf : s.ledger.Filed) (h : s.Dispatching tags r)
    (key : PluginKey) (requests : List Request) (answers : List Answer) (ok : Bool) :
    s.Dispatching tags (r.after ((r.env.1.script key requests, answers), ok)) where
  grows := h.grows.trans (State.grows_script (h.grows.filed hf) key requests)
  others hk := (congrArg _ (State.script_calls _ key requests)).trans (h.others hk)
  removed hid := (h.removed hid).imp_left fun heq =>
    (congrArg _ (State.script_calls _ key requests)).trans heq

theorem Routing.mem_remember (id : Nat) (ids : List Nat) : id ∈ Routing.remember id ids := by
  rw [Routing.remember]
  split
  · assumption
  · exact List.mem_append_right _ (List.mem_singleton_self id)

theorem Routing.mem_remember_of_mem {id id' : Nat} {ids : List Nat} (h : id' ∈ ids) :
    id' ∈ Routing.remember id ids := by
  rw [Routing.remember]
  split
  · exact h
  · exact List.mem_append_left _ h

theorem State.dispatching_call {s : State} {tags : List (Nat × Bool)} (hf : s.ledger.Filed)
    (hnodup : (tags.map Prod.fst).Nodup) (key : PluginKey) {r : Routed (State × List Answer)}
    {h : Handler} {e : Event} (htag : h.tag ∈ tags) (hd : s.Dispatching tags r) :
    s.Dispatching tags (r.call (callbacks key) h e) := by
  have hcalls : (r.call (callbacks key) h e).env.1.calls =
      if (r.env.2.headD .quiet).built then .event h.id :: r.env.1.calls else r.env.1.calls :=
    State.call_calls _ key _ _
  have hcount : ∀ {k : HandlerId}, k ≠ .event h.id →
      (r.call (callbacks key) h e).env.1.calls.count k = r.env.1.calls.count k := by
    intro k hk
    rw [hcalls]
    split
    · exact List.count_cons_of_ne (Ne.symm hk)
    · rfl
  have hmem : ∀ {id}, id ∈ r.removals → id ∈ (r.call (callbacks key) h e).removals := by
    intro id hid
    show id ∈ if h.once then _ else _
    split
    · exact Routing.mem_remember_of_mem hid
    · exact hid
  refine {
    grows := hd.grows.trans (State.grows_call (hd.grows.filed hf) key _ _), others := ?_,
    removed := ?_ }
  · intro k hk
    rw [hcount (hk h.tag htag)]
    exact hd.others hk
  · intro id hid
    by_cases heq : id = h.id
    · subst heq
      have htags : (h.id, true) = h.tag := List.inj_on_of_nodup_map hnodup hid htag rfl
      have honce : h.once = true := (congrArg Prod.snd htags).symm
      right
      show h.id ∈ if h.once then _ else _
      rw [if_pos honce]
      exact Routing.mem_remember _ _
    · rw [hcount (fun h => heq (HandlerId.event.inj h))]
      exact (hd.removed hid).imp_right hmem

/-- Every call of a dispatch keeps it on its way. -/
theorem State.kept_dispatching {s : State} {tags : List (Nat × Bool)} (hf : s.ledger.Filed)
    (hnodup : (tags.map Prod.fst).Nodup) (key : PluginKey) :
    Routing.Kept (callbacks key) tags (s.Dispatching tags) where
  named htag hd := State.dispatching_call hf hnodup key htag hd
  fixed := by
    intro r callee e hcallee hd
    cases callee with
    | named id => exact absurd rfl (hcallee id)
    | onException | onSyscall | onModuleLoad | onModuleUnload =>
        exact hd.after_script hf key _ _ _
  stop hd := hd.after_script hf key _ _ _
  batch hd := hd.after_script hf key _ _ _

/-- How often a `pb.on` handler was called. -/
def State.callsOf (id : Nat) (env : State × List Answer) : Nat := env.1.calls.count (.event id)

theorem measured_callsOf (key : PluginKey) (id : Nat) :
    Routing.Measured (callbacks key) (State.callsOf id) id where
  call env callee e := by
    cases callee with
    | named id' =>
        show ((env.1.call key (.event id') _).calls).count _ ≤ _
        rw [State.call_calls]
        split
        · rw [List.count_cons]
          refine Nat.add_le_add_left ?_ _
          split
          next heq =>
            rw [HandlerId.event.inj (beq_iff_eq.mp heq), if_pos rfl]
          next => exact Nat.zero_le _
        · exact Nat.le_add_right _ _
    | onException | onSyscall | onModuleLoad | onModuleUnload =>
        exact (congrArg _ (State.script_calls _ key _)).le
  stop env := (congrArg _ (State.script_calls _ key _)).le
  batch env := (congrArg _ (State.script_calls _ key _)).le

theorem Plugin.perm_handlers (p : Plugin) :
    p.handlers.Perm (p.events.entries.map fun x => (⟨x.2, x.1⟩ : Handler)) :=
  List.perm_insertionSort _ _

theorem Plugin.mem_handlers {p : Plugin} {h : Handler} :
    h ∈ p.handlers ↔ p.events.lookup h.id = some h.toEventSubscription := by
  rw [p.perm_handlers.mem_iff, List.mem_map]
  constructor
  · rintro ⟨x, hx, rfl⟩
    exact AList.mem_lookup_iff.mpr hx
  · intro hlookup
    exact ⟨⟨h.id, h.toEventSubscription⟩, AList.mem_lookup_iff.mp hlookup, rfl⟩

theorem Plugin.distinct_snapshot (p : Plugin) : p.snapshot.Distinct := by
  have hids : (p.handlers.map Handler.id).Perm p.events.keys := by
    refine (p.perm_handlers.map _).trans ?_
    rw [List.map_map]
    exact List.Perm.refl _
  exact hids.nodup_iff.mpr p.events.keys_nodup

/-- The condition on the events of a dispatch: a handler for one call accepts
one of them at most. -/
def Plugin.Sole (p : Plugin) (shared : TickShared) : Prop :=
  ∀ h ∈ p.handlers, h.once = true → h.accepted (p.snapshot.offers shared) ≤ 1

instance (p : Plugin) (shared : TickShared) : Decidable (p.Sole shared) :=
  inferInstanceAs (Decidable (∀ h ∈ p.handlers, h.once = true →
    h.accepted (p.snapshot.offers shared) ≤ 1))

theorem State.sound_dispatchOne {s : State} (hs : s.ledger.Sound) (key : PluginKey)
    (shared : TickShared) (answers : List Answer)
    (hsole : ∀ p, s.registry.lookup key = some p → p.state = .running → p.Sole shared) :
    (s.dispatchOne key shared answers).ledger.Sound := by
  rw [State.dispatchOne]
  split
  next => exact hs
  next p hp =>
    split
    next => exact hs
    next hrunning =>
      have hnodup : ((p.handlers.map Handler.tag).map Prod.fst).Nodup := by
        rw [← Routing.map_id_eq]
        exact p.distinct_snapshot
      have htag : ∀ {k : HandlerId}, (∀ x ∈ p.handlers.map Handler.tag, k ≠ .event x.1) ∨
          ∃ h ∈ p.handlers, k = .event h.id := by
        intro k
        by_cases hk : ∃ h ∈ p.handlers, k = .event h.id
        · exact .inr hk
        · refine .inl fun x hx hkx => hk ?_
          obtain ⟨h, hh, rfl⟩ := List.mem_map.mp hx
          exact ⟨h, hh, hkx⟩
      have hposted : ∀ {h : Handler}, h ∈ p.handlers →
          s.ledger.posted (key, .event h.id) = some (.event h.id, h.once) := fun hh =>
        State.posted_eq_some.mpr ⟨p, hp, by
          rw [Plugin.handler, Plugin.mem_handlers.mp hh]
          rfl⟩
      -- where the calls have led, before the write-back
      have hd : s.Dispatching (p.handlers.map Handler.tag)
          (p.snapshot.dispatch (callbacks key) shared (s, answers)).1 := by
        refine Routing.dispatch_invariant (s := p.snapshot)
          (State.kept_dispatching hs.toFiled hnodup key) ?_
        exact ⟨hs.grows_refl, fun _ => rfl, fun _ => .inl rfl⟩
      have hle : ∀ {h : Handler}, h ∈ p.handlers → h.once = true →
          (p.snapshot.dispatch (callbacks key) shared (s, answers)).1.env.1.calls.count
            (.event h.id) ≤ 1 := by
        intro h hh honce
        have hbound := Routing.dispatch_measure_le (measured_callsOf key h.id) shared (s, answers)
          p.distinct_snapshot hh rfl
        have hunused : State.callsOf h.id (s, answers) = 0 := hs.unused (honce ▸ hposted hh)
        rw [hunused, Nat.zero_add] at hbound
        exact hbound.trans (hsole p hp (not_not.mp hrunning) h hh honce)
      generalize p.snapshot.dispatch (callbacks key) shared (s, answers) = x at hd hle
      have hg : s.ledger.Grows (x.1.env.1.modify key fun p => p.writeBack x.1 x.2).ledger := by
        refine hd.grows.withdraw rfl rfl (State.posted_modify ?_)
        intro p slot post hpost
        rw [Plugin.handler_writeBack] at hpost
        split at hpost
        · cases hpost
        · exact hpost
      refine hs.transact hg (fun {k} hk => ?_) (fun {k} hk => ?_)
      · rcases htag (k := k) with hothers | ⟨h, hh, rfl⟩
        · refine hs.calls_issued (List.count_pos_iff.mp ?_)
          have hpos : 0 < x.1.env.1.calls.count k := List.count_pos_iff.mpr hk
          rwa [hd.others hothers] at hpos
        · exact hs.posted_issued (hposted hh)
      · rcases htag (k := k) with hothers | ⟨h, hh, rfl⟩
        · exact .inl (hd.others hothers)
        · have honce : h.once = true := (hs.posted_once (hposted hh)).mpr hk
          have hmem : (h.id, true) ∈ p.handlers.map Handler.tag :=
            List.mem_map.mpr ⟨h, hh, by rw [Handler.tag, honce]⟩
          refine (hd.removed hmem).imp_right fun hremoved => ⟨hle hh honce, ?_⟩
          intro place b hplace
          -- it was at one place, and the write-back clears that one
          have hold := hg.posted_of_issued (hs.posted_issued (hposted hh)) hplace
          obtain rfl := hs.unique hold (hposted hh)
          refine State.not_posted_modify (fun q => ?_) _ hplace
          rw [Plugin.handler_writeBack, if_pos ⟨h.id, hremoved, rfl⟩]

/-! ## Runs -/

theorem Plugin.handler_drain (p : Plugin) (slot : Slot) : p.drain.handler slot = none := by
  cases slot <;> rfl

theorem State.sound_init : State.init.ledger.Sound where
  unique hx _ := by cases hx
  posted_issued hx := by cases hx
  posted_once hx := by cases hx
  onces_issued _ hk := by cases hk
  calls_issued hk := by cases hk
  unused hx := by cases hx
  once hk := by cases hk

/-- Changing the registry without posting anything. -/
theorem State.sound_of_posted {s t : State} (hs : s.ledger.Sound) (hids : t.ids = s.ids)
    (honces : t.onces = s.onces) (hcalls : t.calls = s.calls)
    (hposted : ∀ {x : PluginKey × Slot} {post : HandlerId × Bool}, t.ledger.posted x = some post →
      s.ledger.posted x = some post) : t.ledger.Sound :=
  hs.grow (hs.grows_refl.withdraw (congrArg (fun ids => {k | HandlerId.Issued ids k}) hids)
    (congrArg (fun onces => {k | k ∈ onces}) honces) hposted) hcalls

theorem State.sound_load {s : State} (hs : s.ledger.Sound) {key : PluginKey} (p : Plugin) :
    (State.ledger { s with registry := s.registry.insert key p.drain }).Sound := by
  refine State.sound_of_posted hs rfl rfl rfl ?_
  rintro ⟨key', slot⟩ post hx
  obtain ⟨q, hq, hslot⟩ := State.posted_eq_some.mp hx
  by_cases hkey : key' = key
  · rw [hkey, AList.lookup_insert, Option.some.injEq] at hq
    subst hq
    rw [Plugin.handler_drain] at hslot
    cases hslot
  · rw [AList.lookup_insert_ne hkey] at hq
    exact State.posted_eq_some.mpr ⟨q, hq, hslot⟩

theorem State.sound_unload {s : State} (hs : s.ledger.Sound) (key : PluginKey) :
    (State.ledger { s with registry := s.registry.erase key }).Sound := by
  refine State.sound_of_posted hs rfl rfl rfl ?_
  rintro ⟨key', slot⟩ post hx
  obtain ⟨q, hq, hslot⟩ := State.posted_eq_some.mp hx
  exact State.posted_eq_some.mpr ⟨q, Table.lookup_of_erase hq, hslot⟩

/-- A replacement takes its handlers with it. -/
theorem State.sound_commit {s : State} (hs : s.ledger.Sound) {name : String} {suffix : Nat}
    {p : Plugin} (hp : s.registry.lookup (.replacement suffix name) = some p) :
    (State.ledger { s with registry := s.registry.commit name suffix p }).Sound := by
  refine hs.move (fun x => if x.1 = .named name then (.replacement suffix name, x.2) else x)
    rfl rfl rfl ?_ ?_
  · rintro ⟨key, slot⟩ post hx
    obtain ⟨q, hq, hslot⟩ := State.posted_eq_some.mp hx
    have hq' : ((s.registry.erase _).insert _ _).lookup key = some q := hq
    by_cases hkey : key = .named name
    · rw [hkey, AList.lookup_insert, Option.some.injEq] at hq'
      subst hq'
      rw [if_pos hkey]
      exact State.posted_eq_some.mpr ⟨_, hp, hslot⟩
    · rw [AList.lookup_insert_ne hkey] at hq'
      rw [if_neg hkey]
      exact State.posted_eq_some.mpr ⟨q, Table.lookup_of_erase hq', hslot⟩
  · -- the private name is free after the move
    have hfree : ∀ {slot post}, (State.ledger { s with
        registry := s.registry.commit name suffix p }).posted
          (.replacement suffix name, slot) ≠ some post := by
      intro slot post hx
      obtain ⟨q, hq, -⟩ := State.posted_eq_some.mp hx
      have hq' : ((s.registry.erase _).insert _ _).lookup _ = some q := hq
      rw [AList.lookup_insert_ne (by simp), AList.lookup_erase] at hq'
      cases hq'
    rintro ⟨key, slot⟩ ⟨key', slot'⟩ post post' hx hy heq
    dsimp only at heq
    split at heq
    next hkey =>
      split at heq
      next hkey' =>
        rw [hkey, hkey', (Prod.mk.inj heq).2]
      next =>
        rw [← heq] at hy
        exact absurd hy hfree
    next =>
      split at heq
      next =>
        rw [heq] at hx
        exact absurd hx hfree
      next => exact heq

/-- The condition on an action. -/
def State.Sole (s : State) : Action → Prop
  | .dispatchOne key shared _ =>
      ∀ p, s.registry.lookup key = some p → p.state = .running → p.Sole shared
  | _ => True

theorem State.sound_step {s t : State} {a : Action} (hs : s.ledger.Sound) (hsole : s.Sole a)
    (h : s.step a = some t) : t.ledger.Sound := by
  cases a with
  | load key p =>
      rw [State.step] at h
      split at h
      · cases h
      · cases h
        exact State.sound_load hs p
  | script key requests =>
      cases h
      exact hs.grow (State.grows_script hs.toFiled key requests) (s.script_calls key requests)
  | update key state legacy =>
      cases h
      exact State.sound_of_posted hs rfl rfl rfl
        (State.posted_modify (f := fun p => { p with state, legacy }) fun h => h)
  | commit name suffix =>
      obtain ⟨p, hp, rfl⟩ := Option.map_eq_some_iff.mp h
      exact State.sound_commit hs hp
  | quarantine key =>
      cases h
      refine State.sound_of_posted hs rfl rfl rfl (State.posted_modify ?_)
      intro p slot post hpost
      split at hpost
      · have hnone : p.drain.handler slot = some post := hpost
        rw [Plugin.handler_drain] at hnone
        cases hnone
      · exact hpost
  | unload key =>
      cases h
      exact State.sound_unload hs key
  | dispatchOne key shared answers =>
      cases h
      exact State.sound_dispatchOne hs key shared answers hsole
  | dispatchBound stop answers =>
      cases h
      exact State.sound_dispatchBound hs stop answers
  | intercept r answers =>
      cases h
      exact State.sound_intercept hs r answers

/-- No handler registered with `once=True` is called twice in a run in which
every dispatch offers it one event that it accepts at most. -/
theorem once_when_sole {as : List Action} (h : Guarded State.step State.Sole .init as) :
    Always State.step State.AtMostOnce .init as := by
  have hsound : Always State.step (fun s => s.ledger.Sound) .init as :=
    Guarded.always State.sound_step h State.sound_init
  intro pre t hpre hrun k hk
  exact (hsound pre t hpre hrun).once hk

/-! ## A thread that starts twice -/

/-- `EVENT_THREAD_START`. -/
def eventThreadStart : UInt32 := 15

/-- The start of a thread, as the record of a place in the priority lane. -/
def threadStart (sequence : UInt64) (threadId : UInt32) : Event :=
  { Event.empty with sequence, kind := eventThreadStart, threadId }

/-- A tick that has paged records of the priority lane only. -/
def TickShared.ofPriority (events : List Event) : TickShared where
  lifecycle := []
  priorityEvents := events
  observationEvents := []
  oom := none
  events := []

/-- A plugin waits once for the start of a thread, and a tick pages records. -/
def waitOnce (events : List Event) : List Action := [
  .load (.named "a.py") .blank,
  .script (.named "a.py") [.on (.kind eventThreadStart) true none none ⟨0, 0, 0, 0, 0, 0, 0⟩],
  .dispatchOne (.named "a.py") (TickShared.ofPriority events) []]

/-- Two threads start between two ticks, and both starts are given to a handler
that was registered with `once=True`. -/
theorem once_called_twice : ¬ ∀ as, Always State.step State.AtMostOnce .init as := by
  intro h
  have hmost := (h (waitOnce [threadStart 1 1, threadStart 2 2])).last rfl
  exact absurd (hmost (.event 1) (by decide)) (by decide)

/-- One thread has started, and the condition holds. -/
theorem once_when_sole_wait :
    Always State.step State.AtMostOnce .init (waitOnce [threadStart 1 1]) := by
  refine once_when_sole ⟨trivial, fun s hs => ⟨trivial, fun t ht => ⟨?_, fun _ _ => trivial⟩⟩⟩
  cases hs
  cases ht
  intro p hp _
  cases hp
  decide

end PinBridge.Host
