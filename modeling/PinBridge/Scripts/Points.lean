import Mathlib.Data.Finset.Card
import PinBridge.Breakpoints.Table
import PinBridge.Hooks.Arming
import PinBridge.Lib.Transition
import PinBridge.Scripts.Leases
import PinBridge.Scripts.Registry

/-!
# Points shared by scripts and others

Scripts subscribe to native breakpoints and Hooks, and so do a command line, a
user interface and legacy script calls, which send requests of their own
(`Action.externalSet` and the like).  The script host creates a point with the
first subscription and removes it with the last one, unless somebody else wants
it (`Points.wanted`).

The query server serves one request at a time, and a script operation makes
several of them.  So between two requests of one operation the requests of
others can be served.  `HostPc` is where the scripting thread is in an
operation.  A request may not be served, or be served and its answer be lost.
The `BP_SET` of somebody else is two steps of the query server: it sets the
breakpoint, and then it marks the lease.  In between the scripting thread goes
on, as long as it needs no request served.

The lease counts are exact in every run in which they do not overflow.  The
rest fails when somebody comes to want a point at the wrong time: its removal
is queued, or it is a Hook that scripts have created, which nothing marks, or
an operation on it is under way.  `points_kept` says what is enough for all of
it, over runs of everything in any order.
-/

namespace PinBridge.Host

open Transition (run Always Guarded)
open Breakpoints (maxBreakpoints)
open Hooks (maxHookPoints)

/-! ## What plugins hold -/

/-- The native breakpoints a plugin has handlers for. -/
def Plugin.breakpointIds (p : Plugin) : List UInt32 := p.breakpoints.gather fun id _ => [id]

/-- The Hooks of the subscriptions of a plugin, each as often as it has one. -/
def Plugin.hookAddresses (p : Plugin) : List UInt64 :=
  (p.decisions.gather fun _ d => d.address.toList) ++
    p.events.gather fun _ e => e.hookAddress.toList

/-- How many plugins have a handler for a breakpoint. -/
def Registry.breakpointUsers (r : Registry) (id : UInt32) : Nat :=
  (Table.gather (fun _ p => p.breakpointIds) r).count id

/-- How many subscriptions a Hook has. -/
def Registry.hookUsers (r : Registry) (address : UInt64) : Nat :=
  (Table.gather (fun _ p => p.hookAddresses) r).count address

/-- The Hook a request subscribes to. -/
def Request.hookAddress : Request → Option UInt64
  | .on _ _ address _ _ => address
  | .intercept d => d.address
  | .off _ | .breakpoint _ _ _ | .breakpointRemove _ | .unintercept _ => none

/-! ## States -/

/-- A `pb_breakpoint` under way. -/
structure Binding where
  /-- The plugin. -/
  key : PluginKey
  /-- The address. -/
  address : UInt64
  /-- The handler is to be called once. -/
  once : Bool
  /-- The thread of the handler. -/
  threadId : Option UInt32
  /-- There was a breakpoint at the address. -/
  existed : Bool
  deriving DecidableEq

/-- A subscription on a Hook under way. -/
structure Hooking where
  /-- The plugin. -/
  key : PluginKey
  /-- The address. -/
  address : UInt64
  /-- There was a Hook at the address. -/
  existed : Bool
  deriving DecidableEq

/-- Where the scripting thread is. -/
inductive HostPc where
  /-- Between two operations. -/
  | idle
  /-- `pb_breakpoint` has listed the breakpoints. -/
  | listed (b : Binding)
  /-- It has stored the address it is going to set. -/
  | armed (b : Binding)
  /-- It has the id of the breakpoint. -/
  | set (b : Binding) (id : UInt32)
  /-- It has cleared the address. -/
  | disarmed (b : Binding) (id : UInt32)
  /-- `pb_breakpoint_remove` is going to remove the breakpoint. -/
  | removing (id : UInt32)
  /-- `pb_on_event` or `pb_intercept` has listed the Hooks. -/
  | hookListed (h : Hooking) (request : Request)
  /-- It has filed the subscription. -/
  | hookFiled (h : Hooking) (slot : Slot)
  /-- It has set the Hook. -/
  | hookSet (h : Hooking) (slot : Slot)

/-- The scripting thread and the native side. -/
structure Points where
  /-- The plugins. -/
  registry : Registry
  /-- The next identities. -/
  ids : Ids
  /-- The breakpoint leases. -/
  breakpoints : Leases UInt32
  /-- The Hook leases. -/
  hooks : Leases UInt64
  /-- `SCRIPT_NATIVE_SET_ADDRESS`. -/
  scriptSet : UInt64
  /-- Where the scripting thread is. -/
  pc : HostPc
  /-- The address and the breakpoint that the query server has set for somebody
  else and is going to mark. -/
  server : Option (UInt64 × UInt32)
  /-- The native breakpoints with their addresses. -/
  native : Table UInt32 UInt64
  /-- The next native breakpoint id. -/
  nextNative : Nat
  /-- The native Hooks. -/
  nativeHooks : Finset UInt64
  /-- The breakpoints that others want. -/
  wanted : Finset UInt32
  /-- The Hooks that others want. -/
  wantedHooks : Finset UInt64
  /-- The host has removed a point that was still wanted. -/
  wronged : Bool

/-- Nothing is set. -/
def Points.init : Points where
  registry := ∅
  ids := ⟨1, 1, 1⟩
  breakpoints := .init
  hooks := .init
  scriptSet := 0
  pc := .idle
  server := none
  native := ∅
  nextNative := 1
  nativeHooks := ∅
  wanted := ∅
  wantedHooks := ∅
  wronged := false

/-! ## The native side -/

/-- The breakpoint at an address. -/
def Points.idAt (s : Points) (address : UInt64) : Option UInt32 :=
  (s.native.entries.find? fun x => x.2 = address).map Sigma.fst

/-- `bp::set`. -/
def Points.nativeSet (s : Points) (address : UInt64) : Points × Option UInt32 :=
  if address = 0 then (s, none)
  else
    match s.idAt address with
    | some id => (s, some id)
    | none =>
        if s.native.entries.length < maxBreakpoints then
          let id := UInt32.ofNat s.nextNative
          ({ s with native := s.native.insert id address, nextNative := s.nextNative + 1 }, some id)
        else (s, none)

/-- The host has a breakpoint removed.  The answer is whether there was one. -/
def Points.nativeRemove (s : Points) (id : UInt32) : Points × Bool :=
  if id ∈ s.native then
    ({ s with
        native := s.native.erase id
        wanted := s.wanted.erase id
        wronged := s.wronged || id ∈ s.wanted || s.registry.breakpointUsers id ≠ 0 }, true)
  else (s, false)

/-- `hooks::set`. -/
def Points.nativeHookSet (s : Points) (address : UInt64) : Points × Bool :=
  if address ∈ s.nativeHooks then (s, true)
  else if s.nativeHooks.card < maxHookPoints then
    ({ s with nativeHooks := insert address s.nativeHooks }, true)
  else (s, false)

/-- The host has a Hook removed. -/
def Points.nativeHookRemove (s : Points) (address : UInt64) : Points :=
  if address ∈ s.nativeHooks then
    { s with
      nativeHooks := s.nativeHooks.erase address
      wantedHooks := s.wantedHooks.erase address
      wronged := s.wronged || address ∈ s.wantedHooks || s.registry.hookUsers address ≠ 0 }
  else s

/-! ## Requests of others -/

/-- A `BP_SET` of somebody else sets the breakpoint. -/
def Points.externalSet (s : Points) (address : UInt64) : Points :=
  match s.nativeSet address with
  | (s, none) => s
  | (s, some id) => { s with server := some (address, id) }

/-- `note_external_breakpoint_set`, and the answer. -/
def Points.externalMark (s : Points) (address : UInt64) (id : UInt32) : Points :=
  let s := { s with server := none, wanted := insert id s.wanted }
  if s.scriptSet = address then s
  else { s with breakpoints := s.breakpoints.markExternalOwner id }

/-- A `BP_REMOVE` of somebody else. -/
def Points.externalRemove (s : Points) (id : UInt32) : Points :=
  { s with native := s.native.erase id, wanted := s.wanted.erase id }

/-- A `HOOK_SET` of somebody else.  A batch is several of them. -/
def Points.externalHookSet (s : Points) (address : UInt64) : Points :=
  match s.nativeHookSet address with
  | (s, false) => s
  | (s, true) => { s with wantedHooks := insert address s.wantedHooks }

/-- A `HOOK_REMOVE` of somebody else.  A `HOOK_CLEAR` is several of them. -/
def Points.externalHookRemove (s : Points) (address : UInt64) : Points :=
  { s with
    nativeHooks := s.nativeHooks.erase address
    wantedHooks := s.wantedHooks.erase address }

/-! ## Script operations -/

/-- The Hook of the subscription at a place of a plugin. -/
def Plugin.hookAt (p : Plugin) : Slot → Option UInt64
  | .event id => (p.events.lookup id).bind fun e => e.hookAddress
  | .decision id => (p.decisions.lookup id).bind fun d => d.address
  | .breakpoint _ => none

/-- `release_native_ownership`. -/
def Points.releaseOwnership (s : Points) (p : Plugin) : Points :=
  { s with
    breakpoints := p.breakpointIds.foldl Leases.drop s.breakpoints
    hooks := p.hookAddresses.foldl Leases.drop s.hooks }

/-- Apply a request to the tables of a plugin. -/
def Points.file (s : Points) (key : PluginKey) (p : Plugin) (r : Request) : Points :=
  { s with
    registry := s.registry.insert key (r.apply s.ids p).2
    ids := (r.apply s.ids p).1 }

/-- The request that takes the subscription at a place out. -/
def Slot.request : Slot → Request
  | .event id => .off id
  | .decision id => .unintercept id
  | .breakpoint native => .breakpointRemove native

/-- Take the subscription at a place out of the tables of a plugin. -/
def Points.unfile (s : Points) (key : PluginKey) (p : Plugin) (slot : Slot) : Points :=
  s.file key p slot.request

/-- A `pb.on` handler or an interceptor goes, by request or after its only
call, and the host releases its Hook. -/
def Points.withdraw (s : Points) (key : PluginKey) (p : Plugin) (slot : Slot) : Points :=
  match p.hookAt slot with
  | none => s.unfile key p slot
  | some address => { s.unfile key p slot with hooks := s.hooks.drop address }

/-- Remove a plugin and release what it holds. -/
def Points.retire (s : Points) (key : PluginKey) : Points :=
  match s.registry.lookup key with
  | none => s
  | some p => { s with registry := s.registry.erase key }.releaseOwnership p

/-- What the control plane does with a request. -/
structure Reply where
  /-- The request is served. -/
  served : Bool
  /-- The answer arrives. -/
  answered : Bool
  deriving DecidableEq, Repr

/-- `bp_set` of the scripting thread.  There is no answer to a request that
fails. -/
def Points.bpSet (s : Points) (address : UInt64) (reply : Reply) : Points × Option UInt32 :=
  if reply.served then
    let (s, id) := s.nativeSet address
    (s, if reply.answered then id else none)
  else (s, none)

/-- `bp_remove` of the scripting thread, with the answer whether it succeeded. -/
def Points.bpRemove (s : Points) (id : UInt32) (reply : Reply) : Points × Bool :=
  if reply.served then
    let (s, removed) := s.nativeRemove id
    (s, removed && reply.answered)
  else (s, false)

/-- `hook_set` of the scripting thread. -/
def Points.hookSet (s : Points) (address : UInt64) (reply : Reply) : Points × Bool :=
  if reply.served then
    let (s, ok) := s.nativeHookSet address
    (s, ok && reply.answered)
  else (s, false)

/-- `hook_remove` of the scripting thread. -/
def Points.hookRemove (s : Points) (address : UInt64) (reply : Reply) : Points × Bool :=
  if reply.served then (s.nativeHookRemove address, reply.answered) else (s, false)

/-! ## Steps -/

/-- What happens next. -/
inductive HostAction where
  /-- A request of a callback that concerns no point. -/
  | local (key : PluginKey) (r : Request)
  /-- A handler or an interceptor goes. -/
  | withdraw (key : PluginKey) (slot : Slot)
  /-- A breakpoint handler goes after its only call. -/
  | fire (key : PluginKey) (id : UInt32)
  /-- `pb_breakpoint` lists the breakpoints. -/
  | list (key : PluginKey) (address : UInt64) (once : Bool) (threadId : Option UInt32)
  /-- It stores the address. -/
  | arm
  /-- It sets the breakpoint. -/
  | bpSet (reply : Reply)
  /-- It clears the address. -/
  | disarm
  /-- It files the handler. -/
  | bind
  /-- `pb_breakpoint_remove` takes the handler out. -/
  | unbind (key : PluginKey) (id : UInt32)
  /-- It removes the breakpoint. -/
  | bpRemove (reply : Reply)
  /-- A subscription on a Hook lists the Hooks. -/
  | hookList (key : PluginKey) (r : Request)
  /-- It is filed. -/
  | hookFile
  /-- It sets the Hook. -/
  | hookSet (reply : Reply)
  /-- It takes the lease. -/
  | hookBind
  /-- A plugin is added. -/
  | load (key : PluginKey) (p : Plugin)
  /-- A plugin is in another state. -/
  | update (key : PluginKey) (state : PluginState)
  /-- The tables of a failed plugin are drained. -/
  | quarantine (key : PluginKey)
  /-- A plugin is unloaded, or a replacement is rolled back. -/
  | unload (key : PluginKey)
  /-- A replacement takes over. -/
  | commit (name : String) (suffix : Nat)
  /-- A queued breakpoint is removed, by `tick` or by `apply_stop_action`. -/
  | deferred (id : UInt32) (stopAction : Bool) (reply : Reply)
  /-- A queued Hook is removed. -/
  | deferredHook (address : UInt64) (reply : Reply)
  /-- Requests of others. -/
  | externalSet (address : UInt64)
  | externalMark
  | externalRemove (id : UInt32)
  | externalHookSet (address : UInt64)
  | externalHookRemove (address : UInt64)

/-- The query server serves a new request for an action. -/
def HostAction.served : HostAction → Bool
  | .list _ _ _ _ | .hookList _ _ | .externalSet _ | .externalRemove _ | .externalHookSet _
  | .externalHookRemove _ => true
  | .bpSet reply | .bpRemove reply | .hookSet reply | .deferred _ _ reply
  | .deferredHook _ reply => reply.served
  | .local _ _ | .withdraw _ _ | .fire _ _ | .arm | .disarm | .bind | .unbind _ _ | .hookFile
  | .hookBind | .load _ _ | .update _ _ | .quarantine _ | .unload _ | .commit _ _
  | .externalMark => false

/-- An operation that is one step. -/
def Points.operate (s : Points) : HostAction → Option Points
  | .local key r =>
      match s.registry.lookup key, r with
      | some p, .on _ _ none _ _ | some p, .intercept ⟨_, _, none, _, _, _⟩ => some (s.file key p r)
      | _, _ => none
  | .withdraw key slot =>
      match slot with
      | .breakpoint _ => none
      | _ => (s.registry.lookup key).map fun p => s.withdraw key p slot
  | .fire key id =>
      (s.registry.lookup key).map fun p =>
        if id ∈ p.breakpoints then
          { s.unfile key p (.breakpoint id) with breakpoints := s.breakpoints.drop id }
        else s
  | .list key address once threadId =>
      if key ∈ s.registry ∧ address ≠ 0 then
        some { s with pc := .listed ⟨key, address, once, threadId, (s.idAt address).isSome⟩ }
      else none
  | .unbind key id =>
      (s.registry.lookup key).map fun p =>
        if id ∈ p.breakpoints then
          let (breakpoints, remove) := s.breakpoints.release id
          { s.unfile key p (.breakpoint id) with
            breakpoints
            pc := if remove then .removing id else .idle }
        else s
  | .hookList key r =>
      match r.hookAddress with
      | none => none
      | some address =>
          if key ∈ s.registry then
            some { s with pc := .hookListed ⟨key, address, address ∈ s.nativeHooks⟩ r }
          else none
  | .load key p =>
      if key ∈ s.registry then none else some { s with registry := s.registry.insert key p.drain }
  | .update key state =>
      some { s with registry := s.registry.modify key fun p => { p with state } }
  | .quarantine key =>
      (s.registry.lookup key).map fun p =>
        if p.state = .error ∧ !p.quarantined then
          let drained := { p.drain with quarantined := true }
          { s with registry := s.registry.insert key drained }.releaseOwnership p
        else s
  | .unload key => some (s.retire key)
  | .commit name suffix =>
      (s.registry.lookup (.replacement suffix name)).map fun p =>
        let s := s.retire (.named name)
        { s with
          registry := (s.registry.erase (.replacement suffix name)).insert (.named name) p }
  | .deferred id stopAction reply =>
      if id ∈ s.breakpoints.pending then
        let (s, ok) := s.bpRemove id reply
        some (if stopAction || ok then { s with breakpoints := s.breakpoints.unqueue id } else s)
      else none
  | .deferredHook address reply =>
      if address ∈ s.hooks.pending then
        let (s, ok) := s.hookRemove address reply
        some (if ok then { s with hooks := s.hooks.unqueue address } else s)
      else none
  | _ => none

/-- The next part of an operation. -/
def Points.proceed (s : Points) : HostPc → HostAction → Option Points
  | .listed b, .arm => some { s with scriptSet := b.address, pc := .armed b }
  | .armed b, .bpSet reply =>
      match s.bpSet b.address reply with
      | (s, some id) => some { s with pc := .set b id }
      | (s, none) => some { s with scriptSet := 0, pc := .idle }
  | .set b id, .disarm => some { s with scriptSet := 0, pc := .disarmed b id }
  | .disarmed b id, .bind =>
      (s.registry.lookup b.key).map fun p =>
        let t := { s.file b.key p (.breakpoint id b.once b.threadId) with pc := .idle }
        if id ∈ p.breakpoints then t
        else { t with breakpoints := s.breakpoints.acquire id (!b.existed) }
  | .removing id, .bpRemove reply =>
      match s.bpRemove id reply with
      | (s, true) => some { s with pc := .idle }
      | (s, false) => some { s with breakpoints := s.breakpoints.queue id, pc := .idle }
  | .hookListed h r, .hookFile =>
      match s.registry.lookup h.key, r.posts s.ids with
      | some p, some (slot, _) => some { s.file h.key p r with pc := .hookFiled h slot }
      | _, _ => none
  | .hookFiled h slot, .hookSet reply =>
      match s.hookSet h.address reply with
      | (s, true) => some { s with pc := .hookSet h slot }
      | (s, false) =>
          (s.registry.lookup h.key).map fun p => { s.unfile h.key p slot with pc := .idle }
  | .hookSet h _, .hookBind =>
      some { s with hooks := s.hooks.acquire h.address (!h.existed), pc := .idle }
  | _, _ => none

/-- One action.  Others act at any time. -/
def Points.act (s : Points) : HostAction → Option Points
  | .externalSet address => some (s.externalSet address)
  | .externalMark => s.server.map fun set => s.externalMark set.1 set.2
  | .externalRemove id => some (s.externalRemove id)
  | .externalHookSet address => some (s.externalHookSet address)
  | .externalHookRemove address => some (s.externalHookRemove address)
  | a =>
      match s.pc with
      | .idle => s.operate a
      | pc => s.proceed pc a

/-- One action.  The query server serves no new request before it has marked the
breakpoint that it has set. -/
def Points.step (s : Points) (a : HostAction) : Option Points :=
  if s.server.isSome && a.served then none else s.act a

/-! ## Counting subscriptions -/

theorem Registry.breakpointUsers_insert {r : Registry} {key : PluginKey} {p : Plugin}
    (hp : r.lookup key = some p) (q : Plugin) (id : UInt32) :
    Registry.breakpointUsers (r.insert key q) id + p.breakpointIds.count id =
      r.breakpointUsers id + q.breakpointIds.count id := by
  have h := Table.count_gather_insert (fun _ p => p.breakpointIds) r key id q
  rwa [Table.share, hp] at h

theorem Registry.hookUsers_insert {r : Registry} {key : PluginKey} {p : Plugin}
    (hp : r.lookup key = some p) (q : Plugin) (address : UInt64) :
    Registry.hookUsers (r.insert key q) address + p.hookAddresses.count address =
      r.hookUsers address + q.hookAddresses.count address := by
  have h := Table.count_gather_insert (fun _ p => p.hookAddresses) r key address q
  rwa [Table.share, hp] at h

theorem Registry.breakpointUsers_add {r : Registry} {key : PluginKey} (hp : r.lookup key = none)
    (q : Plugin) (id : UInt32) :
    Registry.breakpointUsers (r.insert key q) id =
      r.breakpointUsers id + q.breakpointIds.count id := by
  have h := Table.count_gather_insert (fun _ p => p.breakpointIds) r key id q
  rwa [Table.share, hp] at h

theorem Registry.hookUsers_add {r : Registry} {key : PluginKey} (hp : r.lookup key = none)
    (q : Plugin) (address : UInt64) :
    Registry.hookUsers (r.insert key q) address =
      r.hookUsers address + q.hookAddresses.count address := by
  have h := Table.count_gather_insert (fun _ p => p.hookAddresses) r key address q
  rwa [Table.share, hp] at h

theorem Registry.breakpointUsers_erase {r : Registry} {key : PluginKey} {p : Plugin}
    (hp : r.lookup key = some p) (id : UInt32) :
    Registry.breakpointUsers (r.erase key) id + p.breakpointIds.count id =
      r.breakpointUsers id := by
  have h := Table.count_gather_erase (fun _ p => p.breakpointIds) r key id
  rwa [Table.share, hp] at h

theorem Registry.hookUsers_erase {r : Registry} {key : PluginKey} {p : Plugin}
    (hp : r.lookup key = some p) (address : UInt64) :
    Registry.hookUsers (r.erase key) address + p.hookAddresses.count address =
      r.hookUsers address := by
  have h := Table.count_gather_erase (fun _ p => p.hookAddresses) r key address
  rwa [Table.share, hp] at h

/-- A breakpoint that a plugin has a handler for has a user. -/
theorem Registry.breakpointUsers_pos {r : Registry} {key : PluginKey} {p : Plugin}
    (hp : r.lookup key = some p) {id : UInt32} (hid : id ∈ p.breakpoints) :
    0 < r.breakpointUsers id := by
  refine List.count_pos_iff.mpr (Table.mem_gather.mpr ⟨key, p, hp, ?_⟩)
  obtain ⟨b, hb⟩ := Option.isSome_iff_exists.mp (AList.lookup_isSome.mpr hid)
  exact Table.mem_gather.mpr ⟨id, b, hb, List.mem_singleton_self id⟩

/-- The identities of a plugin's subscriptions were given. -/
structure Plugin.Numbered (ids : Ids) (p : Plugin) : Prop where
  /-- The `pb.on` handlers. -/
  events : ∀ {id : Nat}, id ∈ p.events → id < ids.event
  /-- The interceptors. -/
  decisions : ∀ {id : Nat}, id ∈ p.decisions → id < ids.decision

theorem Plugin.Numbered.apply {ids : Ids} {p : Plugin} (h : p.Numbered ids) (r : Request) :
    (r.apply ids p).2.Numbered (r.apply ids p).1 := by
  cases r with
  | on =>
      refine ⟨fun hid => ?_, h.decisions⟩
      rcases (AList.mem_insert _).mp hid with rfl | hid
      · exact Nat.lt_succ_self _
      · exact Nat.lt_succ_of_lt (h.events hid)
  | off => exact ⟨fun hid => h.events (AList.mem_erase.mp hid).2, h.decisions⟩
  | breakpoint | breakpointRemove => exact ⟨h.events, h.decisions⟩
  | intercept =>
      refine ⟨h.events, fun hid => ?_⟩
      rcases (AList.mem_insert _).mp hid with rfl | hid
      · exact Nat.lt_succ_self _
      · exact Nat.lt_succ_of_lt (h.decisions hid)
  | unintercept => exact ⟨h.events, fun hid => h.decisions (AList.mem_erase.mp hid).2⟩

theorem Plugin.Numbered.mono {ids ids' : Ids} {p : Plugin} (h : p.Numbered ids)
    (he : ids.event ≤ ids'.event) (hd : ids.decision ≤ ids'.decision) : p.Numbered ids' :=
  ⟨fun hid => (h.events hid).trans_le he, fun hid => (h.decisions hid).trans_le hd⟩

theorem Request.ids_le (ids : Ids) (p : Plugin) (r : Request) :
    ids.event ≤ (r.apply ids p).1.event ∧ ids.decision ≤ (r.apply ids p).1.decision := by
  cases r <;> exact ⟨by simp [Request.apply], by simp [Request.apply]⟩

/-- The subscriptions on Hooks after the one at a place is taken out. -/
theorem Plugin.count_hookAddresses_unfile (ids : Ids) (p : Plugin) (slot : Slot) (a : UInt64) :
    (slot.request.apply ids p).2.hookAddresses.count a + (p.hookAt slot).toList.count a =
      p.hookAddresses.count a := by
  cases slot with
  | event id =>
      have herase := Table.count_gather_erase (fun _ e => e.hookAddress.toList) p.events id a
      have hshare : Table.share (fun _ e => e.hookAddress.toList) p.events id =
          (p.hookAt (.event id)).toList := by
        rw [Table.share, Plugin.hookAt]
        cases p.events.lookup id <;> rfl
      rw [hshare] at herase
      simp only [Plugin.hookAddresses, Slot.request, Request.apply, List.count_append]
      rw [Nat.add_assoc]
      exact congrArg _ herase
  | decision id =>
      have herase := Table.count_gather_erase (fun _ d => d.address.toList) p.decisions id a
      have hshare : Table.share (fun _ d => d.address.toList) p.decisions id =
          (p.hookAt (.decision id)).toList := by
        rw [Table.share, Plugin.hookAt]
        cases p.decisions.lookup id <;> rfl
      rw [hshare] at herase
      simp only [Plugin.hookAddresses, Slot.request, Request.apply, List.count_append]
      rw [Nat.add_right_comm]
      exact congrArg (· + _) herase
  | breakpoint native => simp [Plugin.hookAddresses, Slot.request, Request.apply, Plugin.hookAt]

/-! ## What always holds -/

/-- The breakpoint whose address is stored. -/
def HostPc.stored : HostPc → Option Binding
  | .armed b | .set b _ => some b
  | _ => none

/-- The breakpoint that an operation has listed and not set yet. -/
def HostPc.unset : HostPc → Option Binding
  | .listed b | .armed b => some b
  | _ => none

/-- The breakpoint that the host is working on: it was created and has no lease
yet, or is going to be removed. -/
def HostPc.created : HostPc → Option UInt32
  | .set b id | .disarmed b id => if b.existed then none else some id
  | .removing id => some id
  | _ => none

/-- The breakpoint that was set and has no lease of the operation yet. -/
def HostPc.unbound : HostPc → Option UInt32
  | .disarmed _ id => some id
  | _ => none

/-- The Hook that an operation is registering. -/
def HostPc.hooking : HostPc → Option Hooking
  | .hookListed h _ | .hookFiled h _ | .hookSet h _ => some h
  | _ => none

/-- The Hook that an operation has listed and not set yet. -/
def HostPc.unsetHook : HostPc → Option Hooking
  | .hookListed h _ | .hookFiled h _ => some h
  | _ => none

/-- The Hook that was created and has no lease yet. -/
def HostPc.createdHook : HostPc → Option UInt64
  | .hookSet h _ => if h.existed then none else some h.address
  | _ => none

/-- The Hook of the subscription that is filed and has no lease yet. -/
def HostPc.filed : HostPc → Option UInt64
  | .hookFiled h _ | .hookSet h _ => some h.address
  | _ => none

/-- A breakpoint that the query server is going to mark. -/
def Points.Marking (s : Points) (id : UInt32) : Prop := s.server.map Prod.snd = some id

/-- The leases fit the subscriptions and the native points, whatever the host
is working on.  `holders` are the Hook subscriptions that have their lease. -/
structure Points.Core (s : Points) (created : Option UInt32) (holders : UInt64 → Nat)
    (createdHook : Option UInt64) : Prop where
  /-- The breakpoint leases. -/
  breakpoints : s.breakpoints.Sound s.registry.breakpointUsers (· ∈ s.native) (· ∈ s.wanted)
    fun id => created = some id ∨ s.Marking id
  /-- The Hook leases. -/
  hooks : s.hooks.Sound holders (· ∈ s.nativeHooks) (· ∈ s.wantedHooks) (createdHook = some ·)
  /-- The ids in use were given. -/
  fresh : ∀ {id : UInt32}, id ∈ s.native ∨ s.breakpoints.Knows id → id.toNat < s.nextNative
  /-- The identities in use were given. -/
  numbered : ∀ {key : PluginKey} {p : Plugin}, s.registry.lookup key = some p → p.Numbered s.ids
  /-- The host has removed nothing that was wanted. -/
  unwronged : s.wronged = false
  /-- The breakpoint to mark is there. -/
  marking : ∀ {id : UInt32}, s.Marking id → id ∈ s.native

/-- What an operation under way relies on. -/
def Points.PcOk (s : Points) : HostPc → Prop
  | .idle => True
  | .listed b | .armed b =>
      b.key ∈ s.registry ∧ b.address ≠ 0 ∧ b.existed = (s.idAt b.address).isSome
  | .set b id | .disarmed b id =>
      b.key ∈ s.registry ∧ id.toNat < s.nextNative ∧
        (b.existed = false → id ∉ s.wanted ∧ s.breakpoints.table.lookup id = none)
  | .removing id =>
      id.toNat < s.nextNative ∧ id ∉ s.wanted ∧ s.breakpoints.table.lookup id = none
  | .hookListed h r =>
      h.key ∈ s.registry ∧ r.hookAddress = some h.address ∧
        h.existed = decide (h.address ∈ s.nativeHooks)
  | .hookFiled h slot =>
      (∃ p, s.registry.lookup h.key = some p ∧ p.hookAt slot = some h.address) ∧
        h.existed = decide (h.address ∈ s.nativeHooks)
  | .hookSet h _ => h.existed = false → h.address ∉ s.wantedHooks

/-- What holds in every state. -/
structure Points.Ok (s : Points) : Prop where
  /-- The leases fit. -/
  core : s.Core s.pc.created
    (fun a => s.registry.hookUsers a - s.pc.filed.toList.count a) s.pc.createdHook
  /-- A filed subscription is counted. -/
  filed : ∀ a, s.pc.filed.toList.count a ≤ s.registry.hookUsers a
  /-- The stored address is the one that is registered. -/
  scriptSet : s.scriptSet ≠ 0 → ∃ b ∈ s.pc.stored, b.address = s.scriptSet
  /-- The operation under way. -/
  pc : s.PcOk s.pc

/-! ## The condition -/

/-- The condition on an action.

No operation has listed the address of a breakpoint that somebody else sets in
vain.  When it is marked it is not queued, the host is not working on it, and it
is not one of the scripts if its address is stored at that moment.  A Hook that
somebody else sets has not been created by scripts that still subscribe to it
either.  Nobody else removes a point between its listing and its setting.  A
point that the scripts create is answered for.  A removal that is not repeated
is served.  The counters do not overflow. -/
def Points.Clear (s : Points) : HostAction → Prop
  | .externalSet address =>
      (∀ b ∈ s.pc.unset, b.address = address → b.existed = true) ∧
        (s.idAt address = none → s.nextNative < 2 ^ 32)
  | .externalMark =>
      ∀ set ∈ s.server,
        set.2 ∉ s.breakpoints.pending ∧ s.pc.created ≠ some set.2 ∧
          (s.scriptSet = set.1 →
            ∀ lease ∈ s.breakpoints.table.lookup set.2, lease.removeAtZero = false)
  | .externalRemove id => ∀ b ∈ s.pc.unset, s.native.lookup id ≠ some b.address
  | .externalHookSet address =>
      (s.nativeHookSet address).2 = true →
        (∀ h ∈ s.pc.unsetHook, h.address = address → h.existed = true) ∧
          address ∉ s.hooks.pending ∧ s.pc.createdHook ≠ some address ∧
            ∀ lease ∈ s.hooks.table.lookup address, lease.removeAtZero = false
  | .externalHookRemove address =>
      ∀ h ∈ s.pc.unsetHook, h.address = address → address ∉ s.nativeHooks
  | .bpSet reply =>
      reply.served = true → ∀ b ∈ s.pc.unset, s.idAt b.address = none →
        s.native.entries.length < maxBreakpoints →
          reply.answered = true ∧ s.nextNative < 2 ^ 32
  | .bind => ∀ id ∈ s.pc.unbound, s.registry.breakpointUsers id < maxSubscribers
  | .hookSet reply =>
      reply.served = true → ∀ h ∈ s.pc.unsetHook, h.address ∉ s.nativeHooks →
        s.nativeHooks.card < maxHookPoints → reply.answered = true
  | .hookBind => ∀ h ∈ s.pc.hooking, s.registry.hookUsers h.address ≤ maxSubscribers
  | .deferred id stopAction reply => stopAction = true → id ∈ s.native → reply.served = true
  | _ => True

instance (s : Points) (a : HostAction) : Decidable (s.Clear a) :=
  -- the ids and addresses are not gone through one by one
  let _ {α : Type} {p : α → Prop} [DecidablePred p] (o : Option α) : Decidable (∀ a ∈ o, p a) :=
    Option.decidableForallMem o
  match a with
  | .externalSet _ => inferInstanceAs (Decidable (_ ∧ _))
  | .externalMark => inferInstanceAs (Decidable (∀ set ∈ s.server, _ ∧ _ ∧ _))
  | .externalRemove _ => inferInstanceAs (Decidable (∀ b ∈ s.pc.unset, _))
  | .externalHookSet _ => inferInstanceAs (Decidable (_ → _ ∧ _ ∧ _ ∧ _))
  | .externalHookRemove _ => inferInstanceAs (Decidable (∀ h ∈ s.pc.unsetHook, _ → _))
  | .bpSet _ => inferInstanceAs (Decidable (_ → ∀ b ∈ s.pc.unset, _))
  | .bind => inferInstanceAs (Decidable (∀ id ∈ s.pc.unbound, _))
  | .hookSet _ => inferInstanceAs (Decidable (_ → ∀ h ∈ s.pc.unsetHook, _))
  | .hookBind => inferInstanceAs (Decidable (∀ h ∈ s.pc.hooking, _))
  | .deferred _ _ _ => inferInstanceAs (Decidable (_ → _ → _))
  | .local _ _ | .withdraw _ _ | .fire _ _ | .list _ _ _ _ | .arm | .disarm | .unbind _ _
  | .bpRemove _ | .hookList _ _ | .hookFile | .load _ _ | .update _ _ | .quarantine _
  | .unload _ | .commit _ _ | .deferredHook _ _ => inferInstanceAs (Decidable True)

/-! ## Steps between two operations -/

section

variable {s : Points} {created : Option UInt32} {holders holders' : UInt64 → Nat}
  {createdHook : Option UInt64}

theorem Points.Core.move (h : s.Core created holders createdHook) (pc : HostPc)
    (scriptSet : UInt64) : Points.Core { s with pc, scriptSet } created holders createdHook :=
  ⟨h.breakpoints, h.hooks, h.fresh, h.numbered, h.unwronged, h.marking⟩

/-- The identities stay given when a request is filed. -/
theorem Points.Core.numbered_file (h : s.Core created holders createdHook) {key : PluginKey}
    {p : Plugin} (hp : s.registry.lookup key = some p) (r : Request) {key' : PluginKey} {q : Plugin}
    (hq : (s.file key p r).registry.lookup key' = some q) : q.Numbered (s.file key p r).ids := by
  have hq' : AList.lookup key' (s.registry.insert key (r.apply s.ids p).2) = some q := hq
  by_cases hkey : key' = key
  · rw [hkey, AList.lookup_insert] at hq'
    cases hq'
    exact (h.numbered hp).apply r
  · rw [AList.lookup_insert_ne hkey] at hq'
    exact (h.numbered hq').mono (r.ids_le s.ids p).1 (r.ids_le s.ids p).2

/-- The tables of a plugin change, and with them the subscriptions on Hooks. -/
theorem Points.Core.file (h : s.Core created holders createdHook) {key : PluginKey} {p : Plugin}
    (hp : s.registry.lookup key = some p) (r : Request)
    (hids : ∀ id, (r.apply s.ids p).2.breakpointIds.count id = p.breakpointIds.count id)
    (hholders : ∀ a, holders' a = holders a) :
    (s.file key p r).Core created holders' createdHook where
  breakpoints := h.breakpoints.congr
    (fun id => by
      have hcount := Registry.breakpointUsers_insert hp (r.apply s.ids p).2 id
      rw [hids] at hcount
      exact Nat.add_right_cancel hcount)
    (fun _ => Iff.rfl) (fun _ => Iff.rfl) fun _ hb => hb
  hooks := h.hooks.congr hholders (fun _ => Iff.rfl) (fun _ => Iff.rfl) fun _ hb => hb
  fresh := h.fresh
  numbered := h.numbered_file hp r
  unwronged := h.unwronged
  marking := h.marking

/-- What a plugin holds is released. -/
theorem Points.Core.release (h : s.Core created holders createdHook) (p : Plugin) (r : Registry)
    (hnumbered : ∀ {key : PluginKey} {q : Plugin}, r.lookup key = some q → q.Numbered s.ids)
    (husers : ∀ id, r.breakpointUsers id + p.breakpointIds.count id =
      s.registry.breakpointUsers id)
    (hholders : ∀ a, holders' a + p.hookAddresses.count a = holders a) :
    (Points.releaseOwnership { s with registry := r } p).Core created holders' createdHook where
  breakpoints := h.breakpoints.drop_all husers
  hooks := h.hooks.drop_all hholders
  fresh hid := h.fresh (hid.imp_right Leases.Knows.of_drop_all)
  numbered := hnumbered
  unwronged := h.unwronged
  marking := h.marking

/-- A plugin is removed. -/
theorem Points.Core.retire (h : s.Core created s.registry.hookUsers createdHook)
    (key : PluginKey) : (s.retire key).Core created (s.retire key).registry.hookUsers
      createdHook := by
  rw [Points.retire]
  split
  next => exact h
  next p hp =>
    exact h.release p _ (fun hq => h.numbered (Table.lookup_of_erase hq))
      (Registry.breakpointUsers_erase hp) (Registry.hookUsers_erase hp)

/-- A handler or an interceptor goes. -/
theorem Points.Core.withdraw (h : s.Core created s.registry.hookUsers createdHook)
    {key : PluginKey} {p : Plugin} (hp : s.registry.lookup key = some p) {slot : Slot}
    (hslot : ∀ native, slot ≠ .breakpoint native) :
    (s.withdraw key p slot).Core created (s.withdraw key p slot).registry.hookUsers
      createdHook := by
  have hids : ∀ id, (slot.request.apply s.ids p).2.breakpointIds.count id =
      p.breakpointIds.count id := by
    cases slot with
    | event | decision => exact fun _ => rfl
    | breakpoint native => exact absurd rfl (hslot native)
  have husers : ∀ a, (s.unfile key p slot).registry.hookUsers a + (p.hookAt slot).toList.count a =
      s.registry.hookUsers a := by
    intro a
    have hinsert := Registry.hookUsers_insert hp (slot.request.apply s.ids p).2 a
    have hunfile := Plugin.count_hookAddresses_unfile s.ids p slot a
    have hreg : (s.unfile key p slot).registry.hookUsers a =
      Registry.hookUsers (s.registry.insert key (slot.request.apply s.ids p).2) a := rfl
    omega
  rw [Points.withdraw]
  split
  next hnone =>
    refine h.file hp slot.request hids fun a => ?_
    have ha := husers a
    rwa [hnone, Option.toList_none, List.count_nil, Nat.add_zero] at ha
  next address haddress =>
    have hcore : (s.file key p slot.request).Core created s.registry.hookUsers createdHook :=
      h.file hp slot.request hids fun _ => rfl
    have hcount : ∀ a, (p.hookAt slot).toList.count a = if a = address then 1 else 0 := by
      intro a
      rw [haddress, Option.toList_some, Table.count_singleton_eq]
    have hpos : s.registry.hookUsers address ≠ 0 := by
      have ha := husers address
      rw [hcount, if_pos rfl] at ha
      omega
    refine ⟨hcore.breakpoints, hcore.hooks.drop hpos fun a => ?_, hcore.fresh, hcore.numbered,
      hcore.unwronged, hcore.marking⟩
    have ha := husers a
    rw [hcount] at ha
    exact ha

/-- The handlers of a plugin after one for a breakpoint is taken out. -/
theorem Plugin.count_breakpointIds_erase (ids : Ids) (p : Plugin) {id : UInt32}
    (hid : id ∈ p.breakpoints) (j : UInt32) :
    ((Request.breakpointRemove id).apply ids p).2.breakpointIds.count j +
      (if j = id then 1 else 0) = p.breakpointIds.count j := by
  have herase := Table.count_gather_erase (fun id _ => [id]) p.breakpoints id j
  obtain ⟨b, hb⟩ := Option.isSome_iff_exists.mp (AList.lookup_isSome.mpr hid)
  rwa [Table.share, hb, Option.elim_some, Table.count_singleton_eq] at herase

/-- The subscriptions on breakpoints after a plugin's handler is taken out. -/
theorem Points.breakpointUsers_unfile {key : PluginKey} {p : Plugin}
    (hp : s.registry.lookup key = some p) {id : UInt32} (hid : id ∈ p.breakpoints) (j : UInt32) :
    (s.unfile key p (.breakpoint id)).registry.breakpointUsers j + (if j = id then 1 else 0) =
      s.registry.breakpointUsers j := by
  have hinsert := Registry.breakpointUsers_insert hp
    ((Request.breakpointRemove id).apply s.ids p).2 j
  have herase := Plugin.count_breakpointIds_erase s.ids p hid j
  have hreg : (s.unfile key p (.breakpoint id)).registry.breakpointUsers j =
    Registry.breakpointUsers (s.registry.insert key
      ((Request.breakpointRemove id).apply s.ids p).2) j := rfl
  omega

theorem Points.hookUsers_unfile_breakpoint {key : PluginKey} {p : Plugin}
    (hp : s.registry.lookup key = some p) (id : UInt32) (a : UInt64) :
    (s.unfile key p (.breakpoint id)).registry.hookUsers a = s.registry.hookUsers a :=
  Nat.add_right_cancel
    (Registry.hookUsers_insert hp ((Request.breakpointRemove id).apply s.ids p).2 a)

/-- A breakpoint handler goes after its only call. -/
theorem Points.Core.fire (h : s.Core created s.registry.hookUsers createdHook) {key : PluginKey}
    {p : Plugin} (hp : s.registry.lookup key = some p) {id : UInt32} (hid : id ∈ p.breakpoints) :
    Points.Core { s.unfile key p (.breakpoint id) with breakpoints := s.breakpoints.drop id }
      created (s.unfile key p (.breakpoint id)).registry.hookUsers createdHook where
  breakpoints := h.breakpoints.drop (Registry.breakpointUsers_pos hp hid).ne'
    (Points.breakpointUsers_unfile hp hid)
  hooks := h.hooks.congr (Points.hookUsers_unfile_breakpoint hp id) (fun _ => Iff.rfl)
    (fun _ => Iff.rfl) fun _ hb => hb
  fresh hj := h.fresh (hj.imp_right Leases.Knows.of_drop)
  numbered := h.numbered_file hp _
  unwronged := h.unwronged
  marking := h.marking

/-- A plugin with empty tables is added. -/
theorem Points.Core.load (h : s.Core created s.registry.hookUsers createdHook) {key : PluginKey}
    (hp : s.registry.lookup key = none) {p : Plugin} (hb : p.breakpointIds = [])
    (hh : p.hookAddresses = []) (hp' : p.Numbered s.ids) :
    Points.Core { s with registry := s.registry.insert key p } created
      (Registry.hookUsers (s.registry.insert key p)) createdHook where
  breakpoints := h.breakpoints.congr
    (fun id => by rw [Registry.breakpointUsers_add hp, hb]; rfl)
    (fun _ => Iff.rfl) (fun _ => Iff.rfl) fun _ hb => hb
  hooks := h.hooks.congr (fun a => by rw [Registry.hookUsers_add hp, hh]; rfl)
    (fun _ => Iff.rfl) (fun _ => Iff.rfl) fun _ hb => hb
  fresh := h.fresh
  numbered {key' q} hq := by
    by_cases hkey : key' = key
    · rw [hkey, AList.lookup_insert] at hq
      cases hq
      exact hp'
    · rw [AList.lookup_insert_ne hkey] at hq
      exact h.numbered hq
  unwronged := h.unwronged
  marking := h.marking

end

end PinBridge.Host
