import Mathlib.Data.Finset.Basic
import Mathlib.Data.Finset.Lattice.Basic
import PinBridge.Lib.Transition
import PinBridge.Trace.Event

/-!
# Native filters

What the running scripts subscribe to decides what the Agent has to observe.
`Registry.knobs` computes it from the subscriptions: the Hook interests, the
engines to enable and the syscall filter.  The scripting thread does so in a
tick (`State.tick`), after something has marked the native state dirty.

The tick takes the dirty mark first and applies the knobs later.  In between it
gives up when a script command waits or the control plane does not answer, and
it skips the knobs when a command has come to wait meanwhile.  Interests are
published directly.  The engines and the filter are requests, and a refused
request is not repeated.  Until the knobs are applied a `pb.on` for a Hook lets
every Hook event pass.

The Agent is fresh when applying the knobs again would change nothing
(`State.Fresh`).  Engines are enabled and never disabled here, so an engine
that no script wants any more stays as it is.  `fresh_when_clean_iff` says in
which runs the Agent is fresh whenever nothing is marked.
-/

namespace PinBridge.Native

open Transition (run Always Guarded)

/-! ## The registry -/

/-- `SYSCALL_NUMBER_LIMIT`. -/
def syscallNumberLimit : Nat := 4096

/-- A native syscall number. -/
abbrev SyscallNumber : Type := Fin syscallNumberLimit

/-- `EVENT_HOOK_REGS`. -/
def eventHookRegs : UInt32 := 1

/-- `EVENT_HOOK_RETURN`. -/
def eventHookReturn : UInt32 := 14

/-- What a handler selects. -/
inductive EventSelector where
  | kind (k : UInt32)
  | exception
  | processExit
  | processPrepareFini
  deriving DecidableEq, Repr

/-- A `pb.on` handler. -/
structure EventSubscription where
  /-- The events it is called for. -/
  selector : EventSelector
  /-- The address of a Hook observer. -/
  hookAddress : Option Nat
  /-- The syscalls it is called for, all of them when there is no list. -/
  syscallNumbers : Option (Finset SyscallNumber)
  deriving DecidableEq

/-- A loaded plugin. -/
structure Plugin where
  /-- Its state is `STATE_RUNNING`. -/
  running : Bool
  /-- Its handlers. -/
  events : List EventSubscription
  /-- The kinds of its watch. -/
  watch : Option UInt32
  /-- Whether it defines `on_syscall`. -/
  onSyscall : Bool
  /-- The syscalls `on_syscall` is called for. -/
  syscallNumbers : Option (Finset SyscallNumber)
  deriving DecidableEq

/-- The loaded plugins. -/
abbrev Registry : Type := List Plugin

/-! ## What the subscriptions need -/

/-- The values `recompute_native_knobs` gathers. -/
structure Knobs where
  /-- Some handler wants every Hook entry. -/
  hookEntryAll : Bool
  /-- Some handler wants every Hook return. -/
  hookReturnAll : Bool
  /-- The Hook addresses wanted, `true` for returns. -/
  hookObservationInterests : List (Nat × Bool)
  /-- Memory events are wanted. -/
  memory : Bool
  /-- Execution events are wanted. -/
  exec : Bool
  /-- Branch events are wanted. -/
  branch : Bool
  /-- Some syscalls are wanted. -/
  any : Bool
  /-- All syscalls are wanted. -/
  all : Bool
  /-- The syscalls wanted by number. -/
  union : Finset SyscallNumber
  deriving DecidableEq

/-- Nothing is wanted. -/
def Knobs.nothing : Knobs where
  hookEntryAll := false
  hookReturnAll := false
  hookObservationInterests := []
  memory := false
  exec := false
  branch := false
  any := false
  all := false
  union := ∅

/-- Add the telemetry and the Hooks of a handler. -/
def Knobs.addSubscription (k : Knobs) (subscription : EventSubscription) : Knobs :=
  match subscription.selector with
  | .kind kind =>
      if kind = eventMemory then { k with memory := true }
      else if kind = eventExec then { k with exec := true }
      else if kind = eventBranchEdge then { k with branch := true }
      else if kind = eventHookRegs then
        match subscription.hookAddress with
        | some address =>
            let interests := k.hookObservationInterests ++ [(address, false)]
            { k with hookObservationInterests := interests }
        | none => { k with hookEntryAll := true }
      else if kind = eventHookReturn then
        match subscription.hookAddress with
        | some address =>
            let interests := k.hookObservationInterests ++ [(address, true)]
            { k with hookObservationInterests := interests }
        | none => { k with hookReturnAll := true }
      else k
  | _ => k

/-- Whether a mask of kinds has a kind. -/
def watches (mask kind : UInt32) : Bool := mask &&& (1 <<< kind) ≠ 0

/-- Add the kinds of a watch. -/
def Knobs.addWatch (k : Knobs) : Option UInt32 → Knobs
  | none => k
  | some mask =>
      { k with
        memory := k.memory || watches mask eventMemory
        exec := k.exec || watches mask eventExec
        branch := k.branch || watches mask eventBranchEdge }

/-- Add the syscalls of a handler. -/
def Knobs.addSyscalls (k : Knobs) : Option (Finset SyscallNumber) → Knobs
  | none => { k with any := true, all := true }
  | some numbers => { k with any := true, union := k.union ∪ numbers }

/-- Add what a plugin wants. -/
def Knobs.addPlugin (k : Knobs) (p : Plugin) : Knobs :=
  if !p.running then k
  else
    let k := (p.events.foldl Knobs.addSubscription k).addWatch p.watch
    let k := if p.onSyscall then k.addSyscalls p.syscallNumbers else k
    let syscalls := p.events.filter fun s => s.selector = .kind eventSyscall
    syscalls.foldl (fun k s => k.addSyscalls s.syscallNumbers) k

/-- What the running plugins want. -/
def Registry.knobs (r : Registry) : Knobs := r.foldl Knobs.addPlugin .nothing

/-! ## The Agent -/

/-- The engines that a script can enable. -/
inductive Engine where
  | memory
  | exec
  | branch
  | syscall
  deriving DecidableEq, Repr

/-- The syscall filter: the listed numbers, or all of them, and the range of
callers, `0..0` for all. -/
structure Filter where
  /-- The listed numbers in mode 1. -/
  numbers : Option (Finset SyscallNumber)
  /-- The first caller address. -/
  scopeStart : Nat
  /-- The end of the caller addresses. -/
  scopeEnd : Nat
  deriving DecidableEq

/-- The filter that lets every syscall pass. -/
def Filter.everything : Filter := ⟨none, 0, 0⟩

/-- What the Agent observes. -/
structure Agent where
  /-- `OBSERVATION_ENABLED`: some Hook events are observed. -/
  hookObservation : Bool
  /-- Every Hook entry is observed. -/
  hookEntryAll : Bool
  /-- Every Hook return is observed. -/
  hookReturnAll : Bool
  /-- The observed Hooks. -/
  interests : Finset (Nat × Bool)
  /-- The enabled engines. -/
  engines : Engine → Bool
  /-- Syscalls go to the observation lane. -/
  observation : Bool
  /-- The syscall filter. -/
  filter : Filter

/-- An Agent that has started with some engines. -/
def Agent.init (engines : Engine → Bool) : Agent where
  hookObservation := false
  hookEntryAll := false
  hookReturnAll := false
  interests := ∅
  engines
  observation := false
  filter := .everything

/-- A request of the scripting thread. -/
inductive Request where
  | engineSet (engine : Engine) (on : Bool)
  | syscallFilter (filter : Filter)
  deriving DecidableEq

/-- The Agent after a request. -/
def Agent.accept (a : Agent) : Request → Agent
  | .engineSet engine on => { a with engines := Function.update a.engines engine on }
  | .syscallFilter filter => { a with filter }

/-- `hooks::set_observation_enabled`. -/
def Agent.setObservationEnabled (a : Agent) (enabled : Bool) : Agent :=
  { a with hookObservation := enabled, hookEntryAll := enabled, hookReturnAll := enabled }

/-- `publish_observation_interests`. -/
def Agent.publishObservationInterests (a : Agent) (entryAll returnAll : Bool)
    (interests : List (Nat × Bool)) : Agent :=
  { a with
    hookObservation := entryAll || returnAll || !interests.isEmpty
    hookEntryAll := entryAll
    hookReturnAll := returnAll
    interests := (interests.filter fun i => i.1 ≠ 0).toFinset }

/-- Send a request and ignore the answer. -/
def Agent.send (accepts : Request → Bool) (a : Agent) (r : Request) : Agent :=
  if accepts r then a.accept r else a

/-- The engines to enable. -/
def Knobs.engines (k : Knobs) : List Engine :=
  (if k.memory then [.memory] else []) ++ (if k.exec then [.exec] else []) ++
    (if k.branch then [.branch] else []) ++ (if k.any then [.syscall] else [])

/-- The syscall filter to set. -/
def Knobs.filter (k : Knobs) : Filter :=
  if k.all || !k.any then .everything else ⟨some k.union, 0, 0⟩

/-- The requests of a recomputation. -/
def Knobs.requests (k : Knobs) : List Request :=
  k.engines.map (Request.engineSet · true) ++ [.syscallFilter k.filter]

/-- Apply the knobs. -/
def Agent.recompute (accepts : Request → Bool) (a : Agent) (k : Knobs) : Agent :=
  let a := a.publishObservationInterests k.hookEntryAll k.hookReturnAll
    k.hookObservationInterests
  let a := (k.engines.map (Request.engineSet · true)).foldl (Agent.send accepts) a
  let a := { a with observation := k.any }
  a.send accepts (.syscallFilter k.filter)

/-! ## Ticks -/

/-- The scripting thread and the Agent. -/
structure State where
  /-- The loaded plugins. -/
  registry : Registry
  /-- `NATIVE_DIRTY`. -/
  dirty : Bool
  /-- What the Agent has accepted. -/
  agent : Agent

/-- No plugin is loaded yet. -/
def State.init (engines : Engine → Bool) : State where
  registry := []
  dirty := false
  agent := .init engines

/-- A change of the registry that calls `mark_native_dirty`. -/
structure Change where
  /-- The plugins after it. -/
  registry : Registry
  /-- It is, or contains, a `pb.on` for a Hook. -/
  hookOn : Bool
  deriving DecidableEq

/-- Change the registry and call `mark_native_dirty`. -/
def State.change (s : State) (c : Change) : State where
  registry := c.registry
  dirty := true
  agent := if c.hookOn then s.agent.setObservationEnabled true else s.agent

/-- What a tick meets. -/
structure Tick where
  /-- There is nothing to deliver and nothing to remove. -/
  idle : Bool
  /-- The changes until the knobs are read. -/
  before : List Change
  /-- A script command waits before the connection. -/
  firstWaiting : Bool
  /-- The control plane answers. -/
  connects : Bool
  /-- A script command waits before the knobs. -/
  secondWaiting : Bool
  /-- The requests that are accepted. -/
  accepts : Request → Bool
  /-- The changes after the knobs are read, by callbacks among others. -/
  after : List Change

/-- `tick`, as far as the native state is concerned. -/
def State.tick (s : State) (t : Tick) : State :=
  let knobsDirty := s.dirty
  let s := { s with dirty := false }
  if t.idle && !knobsDirty then s
  else
    let s := t.before.foldl State.change s
    if t.firstWaiting || !t.connects then s
    else
      let s :=
        if knobsDirty && !t.secondWaiting then
          { s with agent := s.agent.recompute t.accepts s.registry.knobs }
        else s
      t.after.foldl State.change s

/-- What happens next. -/
inductive Action where
  | change (c : Change)
  | tick (t : Tick)

/-- One action. -/
def State.step (s : State) : Action → Option State
  | .change c => some (s.change c)
  | .tick t => some (s.tick t)

/-! ## Freshness -/

/-- The Agent has what a request asks for. -/
def Agent.Has (a : Agent) : Request → Prop
  | .engineSet engine on => a.engines engine = on
  | .syscallFilter filter => a.filter = filter

/-- The Agent has what the registry needs. -/
structure State.Fresh (s : State) : Prop where
  /-- The handlers for Hooks. -/
  hookObservation : s.agent.hookObservation =
    (s.registry.knobs.hookEntryAll || s.registry.knobs.hookReturnAll ||
      !s.registry.knobs.hookObservationInterests.isEmpty)
  /-- The handlers for all Hook entries. -/
  entryAll : s.agent.hookEntryAll = s.registry.knobs.hookEntryAll
  /-- The handlers for all Hook returns. -/
  returnAll : s.agent.hookReturnAll = s.registry.knobs.hookReturnAll
  /-- The handlers for a Hook address. -/
  interests : s.agent.interests =
    (s.registry.knobs.hookObservationInterests.filter fun i => i.1 ≠ 0).toFinset
  /-- The handlers for syscalls. -/
  observation : s.agent.observation = s.registry.knobs.any
  /-- The engines and the filter. -/
  requests : ∀ r ∈ s.registry.knobs.requests, s.agent.Has r

/-- The Agent is fresh unless something is marked. -/
def State.Clean (s : State) : Prop := s.dirty = false → s.Fresh

/-- A tick that took the mark applies the knobs.  It is marked again, or it
comes to the knobs and every request is accepted or not needed, or nothing was
needed at all. -/
def State.Applies (s : State) : Action → Prop
  | .change _ => True
  | .tick t =>
      s.dirty = true → t.before = [] →
        if t.firstWaiting || !t.connects then s.Fresh
        else
          t.after = [] →
            if t.secondWaiting then s.Fresh
            else ∀ r ∈ s.registry.knobs.requests, t.accepts r = true ∨ s.agent.Has r

/-! ## Applying the knobs -/

/-- Enabling some engines leaves an engine off only when it was off and it is
not among them or was refused. -/
theorem Agent.engines_foldl_send (accepts : Request → Bool) (engines : List Engine) (a : Agent)
    (e : Engine) :
    ((engines.map (Request.engineSet · true)).foldl (Agent.send accepts) a).engines e =
      (a.engines e || (decide (e ∈ engines) && accepts (.engineSet e true))) := by
  induction engines generalizing a with
  | nil => simp
  | cons first engines ih =>
      rw [List.map_cons, List.foldl_cons, ih, Agent.send]
      rcases eq_or_ne e first with rfl | hne
      · cases haccepts : accepts (.engineSet e true) with
        | true => simp [Agent.accept]
        | false => simp
      · cases haccepts : accepts (.engineSet first true) with
        | true => simp [Agent.accept, hne]
        | false => simp [hne]

/-- Engine requests touch nothing but the engines. -/
theorem Agent.foldl_send_engines (accepts : Request → Bool) (engines : List Engine) (a : Agent) :
    (engines.map (Request.engineSet · true)).foldl (Agent.send accepts) a =
      { a with engines := ((engines.map (Request.engineSet · true)).foldl (Agent.send accepts)
        a).engines } := by
  induction engines generalizing a with
  | nil => rfl
  | cons first engines ih =>
      rw [List.map_cons, List.foldl_cons, ih]
      rw [Agent.send]
      split
      · rfl
      · rfl

theorem Agent.recompute_eq (accepts : Request → Bool) (a : Agent) (k : Knobs) :
    a.recompute accepts k = {
      hookObservation :=
        k.hookEntryAll || k.hookReturnAll || !k.hookObservationInterests.isEmpty
      hookEntryAll := k.hookEntryAll
      hookReturnAll := k.hookReturnAll
      interests := (k.hookObservationInterests.filter fun i => i.1 ≠ 0).toFinset
      engines := fun e =>
        a.engines e || (decide (e ∈ k.engines) && accepts (.engineSet e true))
      observation := k.any
      filter := if accepts (.syscallFilter k.filter) then k.filter else a.filter } := by
  have hengines := Agent.engines_foldl_send accepts k.engines (a.publishObservationInterests
    k.hookEntryAll k.hookReturnAll k.hookObservationInterests)
  rw [Agent.recompute, Agent.foldl_send_engines, funext hengines, Agent.send]
  split
  · rfl
  · rfl

/-- After the knobs were applied the Agent is fresh exactly when each request
was accepted or not needed. -/
theorem Agent.has_recompute_iff (accepts : Request → Bool) (a : Agent) (k : Knobs) :
    (∀ r ∈ k.requests, (a.recompute accepts k).Has r) ↔
      ∀ r ∈ k.requests, accepts r = true ∨ a.Has r := by
  refine forall₂_congr fun r hr => ?_
  rw [Agent.recompute_eq]
  rcases List.mem_append.mp hr with hengine | hfilter
  · obtain ⟨e, he, rfl⟩ := List.mem_map.mp hengine
    show (a.engines e || (decide (e ∈ k.engines) && accepts (.engineSet e true))) = true ↔
      _ ∨ a.engines e = true
    simp [he, or_comm]
  · rw [List.mem_singleton.mp hfilter]
    show (if accepts (.syscallFilter k.filter) then k.filter else a.filter) = k.filter ↔
      _ ∨ a.filter = k.filter
    cases accepts (.syscallFilter k.filter) with
    | true => simp
    | false => simp

theorem State.dirty_foldl_change {s : State} (h : s.dirty = true) (changes : List Change) :
    (changes.foldl State.change s).dirty = true := by
  induction changes generalizing s with
  | nil => exact h
  | cons c changes ih => exact ih (s := s.change c) rfl

/-- A marked state is clean. -/
theorem State.Clean.of_dirty {s : State} (h : s.dirty = true) : s.Clean := fun hclean =>
  absurd (h.symm.trans hclean) (by decide)

/-- Changes mark the state. -/
theorem State.clean_foldl_change (s : State) (c : Change) (changes : List Change) :
    ((c :: changes).foldl State.change s).Clean :=
  .of_dirty (State.dirty_foldl_change (s := s.change c) rfl changes)

theorem State.clean_iff_fresh {s : State} (h : s.dirty = false) : s.Clean ↔ s.Fresh :=
  ⟨fun hclean => hclean h, fun hfresh _ => hfresh⟩

/-- Freshness does not depend on the mark. -/
theorem State.clean_unmarked_iff (s : State) :
    State.Clean { s with dirty := false } ↔ s.Fresh := by
  rw [State.clean_iff_fresh rfl]
  constructor
  · intro h
    exact ⟨h.hookObservation, h.entryAll, h.returnAll, h.interests, h.observation, h.requests⟩
  · intro h
    exact ⟨h.hookObservation, h.entryAll, h.returnAll, h.interests, h.observation, h.requests⟩

theorem State.fresh_recompute_iff (s : State) (accepts : Request → Bool) :
    State.Fresh { s with agent := s.agent.recompute accepts s.registry.knobs } ↔
      ∀ r ∈ s.registry.knobs.requests, accepts r = true ∨ s.agent.Has r := by
  rw [← Agent.has_recompute_iff]
  constructor
  · intro h
    exact h.requests
  · intro h
    refine ⟨?_, ?_, ?_, ?_, ?_, h⟩ <;> dsimp only <;> rw [Agent.recompute_eq]

theorem State.clean_tick_iff {s : State} (hclean : s.Clean) (t : Tick) :
    (s.tick t).Clean ↔ s.Applies (.tick t) := by
  obtain ⟨idle, before, firstWaiting, connects, secondWaiting, accepts, after⟩ := t
  cases hdirty : s.dirty with
  | false =>
      have hs : { s with dirty := false } = s := by rw [← hdirty]
      refine iff_of_true ?_ fun htrue => absurd (hdirty.symm.trans htrue) (by decide)
      rw [State.tick]
      simp only [hdirty, hs, Bool.not_false, Bool.and_true, Bool.false_and, Bool.false_eq_true,
        if_false]
      have hchanges (changes : List Change) (u : State) (hu : u.Clean) :
          (changes.foldl State.change u).Clean := by
        cases changes with
        | nil => exact hu
        | cons c changes => exact u.clean_foldl_change c changes
      split
      · exact hclean
      · split
        · exact hchanges before s hclean
        · exact hchanges after _ (hchanges before s hclean)
  | true =>
      rw [State.tick, State.Applies]
      simp only [hdirty, Bool.not_true, Bool.and_false, Bool.false_eq_true, if_false,
        Bool.true_and, forall_const]
      cases before with
      | cons c changes =>
          refine iff_of_true ?_ nofun
          have hmarked := State.dirty_foldl_change (s := State.change { s with dirty := false }
            c) rfl changes
          rw [List.foldl_cons]
          split
          · exact .of_dirty hmarked
          · refine .of_dirty (State.dirty_foldl_change ?_ after)
            split
            · exact hmarked
            · exact hmarked
      | nil =>
          simp only [List.foldl_nil, forall_const]
          split
          · exact s.clean_unmarked_iff
          · cases after with
            | cons c changes =>
                exact iff_of_true (State.clean_foldl_change _ c changes) nofun
            | nil =>
                simp only [List.foldl_nil, forall_const]
                cases secondWaiting with
                | true => exact s.clean_unmarked_iff
                | false =>
                    simp only [Bool.not_false, if_true, Bool.false_eq_true, if_false]
                    rw [State.clean_iff_fresh rfl]
                    exact State.fresh_recompute_iff { s with dirty := false } accepts

/-! ## Runs -/

/-- Every sequence of changes and ticks can happen. -/
theorem State.exists_run (s : State) (actions : List Action) :
    ∃ t, run State.step s actions = some t := by
  induction actions generalizing s with
  | nil => exact ⟨s, rfl⟩
  | cons a actions ih =>
      cases a with
      | change c => exact ih (s.change c)
      | tick t => exact ih (s.tick t)

/-- A started Agent has what no plugins need. -/
theorem State.fresh_init (engines : Engine → Bool) : (State.init engines).Fresh where
  hookObservation := rfl
  entryAll := rfl
  returnAll := rfl
  interests := rfl
  observation := rfl
  requests r hr := by
    rw [List.mem_singleton.mp hr]
    rfl

/-- Between ticks, and unless something is marked, the Agent always has what
the current registry needs exactly when every tick that took the mark applied
the knobs. -/
theorem fresh_when_clean_iff (engines : Engine → Bool) (actions : List Action) :
    Always State.step State.Clean (State.init engines) actions ↔
      Guarded State.step State.Applies (State.init engines) actions := by
  obtain ⟨u, hrun⟩ := State.exists_run (State.init engines) actions
  refine Guarded.always_iff (I := fun _ => True) (fun _ _ => trivial) ?_ trivial
    (fun _ => State.fresh_init engines) hrun
  intro s a t _ hclean hstep
  cases a with
  | change c =>
      cases hstep
      exact iff_of_true (.of_dirty rfl) trivial
  | tick tick =>
      cases hstep
      exact State.clean_tick_iff hclean tick

/-- A plugin that wants all branches. -/
def branchPlugin : Plugin where
  running := true
  events := [⟨.kind eventBranchEdge, none, none⟩]
  watch := none
  onSyscall := false
  syscallNumbers := none

/-- The plugin is loaded, and the tick after that finds the control plane
busy. -/
def refusedTick : List Action :=
  [.change ⟨[branchPlugin], false⟩,
    .tick {
      idle := true
      before := []
      firstWaiting := false
      connects := false
      secondWaiting := false
      accepts := fun _ => true
      after := [] }]

/-- The mark is gone and the branch engine is still off. -/
theorem knobs_lost :
    ∃ t, run State.step (State.init fun _ => false) refusedTick = some t ∧ t.dirty = false ∧
      t.registry.knobs.branch = true ∧ t.agent.engines .branch = false ∧
      ¬Always State.step State.Clean (State.init fun _ => false) refusedTick := by
  refine ⟨⟨[branchPlugin], false, .init fun _ => false⟩, rfl, rfl, rfl, rfl, fun halways => ?_⟩
  have hfresh := halways.last (t := ⟨[branchPlugin], false, .init fun _ => false⟩) rfl rfl
  have hhas := hfresh.requests (.engineSet .branch true) (by decide)
  exact nomatch hhas

end PinBridge.Native
