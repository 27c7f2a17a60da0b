import PinBridge.Hooks.Hub
import PinBridge.Scripts.Knobs

/-!
# The syscall configuration

Two parties decide which syscalls the Agent records.  The Hub's tool
`syscall_config_set` sets the engine and then the filter, by number and by
caller, and keeps a copy of what it has set, which `syscall_config_get` reports.
The scripting thread enables the engine when a script wants syscalls and sets
the filter to what the scripts want, whenever it applies the knobs.  It neither
asks the Hub nor tells it.

A client gives up when no answer comes in time, and the Agent can still come to
its request later.  So a call of the tool can fail although one of its requests
takes effect, and a tick's request can take effect after the tick.

So the Hub's copy says what is recorded until somebody else comes to set the
engine or the filter.  `Syscalls.engineBy` and `Syscalls.filterBy` remember who
has set them, and `config_kept` says over every run what is recorded then.
-/

namespace PinBridge.Native

open Transition (run Always)
open Hooks (HubError)

/-! ## The tool -/

/-- A syscall number is on a list. -/
def listed (numbers : Finset SyscallNumber) (number : Nat) : Bool :=
  if h : number < syscallNumberLimit then ⟨number, h⟩ ∈ numbers else false

/-- A syscall number and the address of its caller pass a filter
(`capture_allowed`). -/
def Filter.captureAllowed (f : Filter) (number instructionPointer : Nat) : Bool :=
  if f.scopeEnd ≠ 0 ∧ (instructionPointer < f.scopeStart ∨ f.scopeEnd ≤ instructionPointer) then
    false
  else
    match f.numbers with
    | some numbers => listed numbers number
    | none => true

/-- The Agent records a syscall. -/
def Agent.records (a : Agent) (number instructionPointer : Nat) : Bool :=
  a.engines .syscall && a.filter.captureAllowed number instructionPointer

/-- The callers that a configuration is for. -/
structure SyscallScope where
  /-- `all`, `module` or `rva`. -/
  scope : String
  /-- The name of the module. -/
  module : Option String
  /-- Its first address. -/
  moduleBase : Nat
  /-- Its end. -/
  moduleEnd : Nat
  /-- The begin of the range in the module. -/
  rvaBegin : Nat
  /-- Its end. -/
  rvaEnd : Nat
  /-- The first caller address. -/
  scopeStart : Nat
  /-- The end of the caller addresses. -/
  scopeEnd : Nat
  deriving DecidableEq, Repr

/-- Every caller. -/
def SyscallScope.all : SyscallScope := ⟨"all", none, 0, 0, 0, 0, 0, 0⟩

/-- The copy the Hub keeps. -/
structure SyscallConfig where
  /-- The engine is enabled. -/
  enabled : Bool
  /-- The numbers selected, all of them when there are none. -/
  numbers : Finset SyscallNumber
  /-- The callers. -/
  scope : SyscallScope
  deriving DecidableEq

/-- `SyscallConfig::default`. -/
def SyscallConfig.default : SyscallConfig := ⟨true, ∅, .all⟩

/-- A configuration describes a syscall. -/
def SyscallConfig.describes (c : SyscallConfig) (number instructionPointer : Nat) : Bool :=
  c.enabled &&
    (c.numbers = ∅ || listed c.numbers number) &&
    (c.scope.scopeEnd = 0 ||
      (c.scope.scopeStart ≤ instructionPointer && instructionPointer < c.scope.scopeEnd))

/-- The filter that `AgentConnection::syscall_config_set` asks for. -/
def SyscallConfig.filter (c : SyscallConfig) : Filter where
  numbers := if c.numbers = ∅ then none else some c.numbers
  scopeStart := c.scope.scopeStart
  scopeEnd := c.scope.scopeEnd

/-- A loaded module, with its last address. -/
structure ModuleRow where
  /-- Its name. -/
  name : String
  /-- Its first address. -/
  base : Nat
  /-- Its last address. -/
  last : Nat
  deriving DecidableEq, Repr

/-- `module_key`. -/
def moduleKey (name : String) : List Char :=
  let reversed := name.toList.reverse.takeWhile fun c => c ≠ '\\' ∧ c ≠ '/'
  reversed.reverse.map Char.toLower

/-- `bounded_module_name`, of a name without blanks around it. -/
def boundedModuleName (name : String) : Except HubError String :=
  if name = "" then .error (.validation "module must not be empty")
  else if 1024 < name.utf8ByteSize then .error (.validation "module is too long")
  else .ok name

/-- The callers that the tool is asked for. -/
inductive ScopeRequest where
  | all
  | module (name : String)
  | rva (name : String) (rvaBegin rvaEnd : Nat)
  | other
  deriving DecidableEq, Repr

/-- Look up the module of a request. -/
def findModule (modules : List ModuleRow) (name : String) : Except HubError ModuleRow :=
  match modules.find? fun row => moduleKey row.name = moduleKey name with
  | none => .error (.validation s!"module is not loaded: {name}")
  | some row =>
      if row.last + 1 = 2 ^ 64 then .error (.validation "module end overflows the address space")
      else if row.last + 1 ≤ row.base then .error (.agent "Agent returned an invalid module range")
      else .ok row

/-- `resolve_syscall_scope`.  There is no list of modules when the Agent does not
answer. -/
def resolveSyscallScope (modules : Option (List ModuleRow)) :
    ScopeRequest → Except HubError SyscallScope
  | .all => .ok .all
  | .other => .error (.validation "syscall scope must be all, module, or rva")
  | .module name => do
      let name ← boundedModuleName name
      let some modules := modules | .error .request
      let row ← findModule modules name
      let moduleEnd := row.last + 1
      .ok ⟨"module", some row.name, row.base, moduleEnd, 0, moduleEnd - row.base, row.base,
        moduleEnd⟩
  | .rva name rvaBegin rvaEnd => do
      let name ← boundedModuleName name
      let some modules := modules | .error .request
      let row ← findModule modules name
      let moduleEnd := row.last + 1
      if rvaEnd ≤ rvaBegin then
        .error (.validation "syscall RVA end must be greater than RVA begin")
      else if moduleEnd - row.base < rvaEnd then
        let size := String.ofList (Nat.toDigits 16 (moduleEnd - row.base))
        .error (.validation s!"syscall RVA range exceeds module size 0x{size}")
      else
        .ok ⟨"rva", some row.name, row.base, moduleEnd, rvaBegin, rvaEnd, row.base + rvaBegin,
          row.base + rvaEnd⟩

/-- The numbers of a call. -/
def selectNumbers (values : List Nat) : Except HubError (Finset SyscallNumber) :=
  if 4096 < values.length then
    .error (.validation "syscall number selection exceeds 4096 entries")
  else if values.all (· < syscallNumberLimit) then
    .ok (values.filterMap fun value =>
      if h : value < syscallNumberLimit then some ⟨value, h⟩ else none).toFinset
  else .error (.validation "syscall number must be in the native 0x000..0xfff range")

/-- The scope of a filter request is nothing or a range. -/
def Filter.wellFormed (f : Filter) : Bool :=
  decide (f.scopeStart = 0 ↔ f.scopeEnd = 0) && (f.scopeEnd = 0 || f.scopeStart < f.scopeEnd)

/-- A call of `syscall_config_set`.  The flags say which of the two requests
are answered, and not by a refusal. -/
structure ConfigSet where
  /-- `enabled`. -/
  enabled : Bool
  /-- `numbers`. -/
  values : List Nat
  /-- The callers. -/
  scope : ScopeRequest
  /-- The answer to the question for the modules. -/
  modules : Option (List ModuleRow)
  /-- The engine request is answered. -/
  engineOk : Bool
  /-- The filter request is answered. -/
  filterOk : Bool

/-- The configuration of a call. -/
def ConfigSet.next (c : ConfigSet) : Except HubError SyscallConfig := do
  let numbers ← selectNumbers c.values
  let scope ← resolveSyscallScope c.modules c.scope
  .ok ⟨c.enabled, numbers, scope⟩

/-! ## Both parties -/

/-- Who has sent a request. -/
inductive Sender where
  /-- A call of `syscall_config_set`. -/
  | call
  /-- A tick that applies knobs. -/
  | scripts (k : Knobs)
  deriving DecidableEq

/-- Who has set something. -/
inductive Setter where
  /-- The last completed call of `syscall_config_set`, or the start. -/
  | call
  /-- A tick that applied knobs. -/
  | scripts (k : Knobs)
  /-- A call of `syscall_config_set` that did not complete. -/
  | givenUp
  deriving DecidableEq

/-- The scripting thread with the Agent, and the Hub. -/
structure Syscalls where
  /-- The scripting thread and the Agent. -/
  scripts : State
  /-- `syscall_config`. -/
  config : SyscallConfig
  /-- Requests without an answer, which can still take effect. -/
  unanswered : List (Sender × Request)
  /-- Who has set the syscall engine. -/
  engineBy : Setter
  /-- Who has set the filter. -/
  filterBy : Setter

/-- The syscall engine is enabled from the start. -/
def Syscalls.init : Syscalls where
  scripts := .init fun e => e = .syscall
  config := .default
  unanswered := []
  engineBy := .call
  filterBy := .call

/-- The knobs that a tick applies. -/
def State.applied (s : State) (t : Tick) : Option Knobs :=
  if s.dirty && !(t.firstWaiting || !t.connects) && !t.secondWaiting then
    some (t.before.foldl State.change s).registry.knobs
  else none

/-- Who has set something after a request of a sender has taken effect on it.  A
call that completes comes to own it later. -/
def Setter.next (setter : Setter) (changes : Bool) : Sender → Setter
  | .scripts k => .scripts k
  | .call => if changes then .givenUp else setter

/-- A request takes effect. -/
def Syscalls.takeEffect (s : Syscalls) (sent : Sender × Request) : Syscalls :=
  let t := { s with
    scripts := { s.scripts with agent := s.scripts.agent.accept sent.2 } }
  match sent.2 with
  | .engineSet .syscall on =>
      { t with engineBy := s.engineBy.next (s.scripts.agent.engines .syscall != on) sent.1 }
  | .engineSet _ _ => t
  | .syscallFilter filter =>
      { t with filterBy := s.filterBy.next (s.scripts.agent.filter != filter) sent.1 }

/-- `syscall_config_set`. -/
def Syscalls.configSet (s : Syscalls) (c : ConfigSet) : Syscalls :=
  match c.next with
  | .error _ => s
  | .ok config =>
      let engine := (Sender.call, Request.engineSet .syscall c.enabled)
      let filter := (Sender.call, Request.syscallFilter config.filter)
      if !c.engineOk then { s with unanswered := s.unanswered ++ [engine] }
      else
        let s := s.takeEffect engine
        if !config.filter.wellFormed then s
        else if !c.filterOk then { s with unanswered := s.unanswered ++ [filter] }
        else { s.takeEffect filter with config, engineBy := .call, filterBy := .call }

/-- The requests of a tick that take effect, and those that are not answered. -/
def Syscalls.tick (s : Syscalls) (t : Tick) : Syscalls :=
  let scripts := s.scripts.tick t
  match s.scripts.applied t with
  | none => { s with scripts }
  | some k =>
      { s with
        scripts
        unanswered := s.unanswered ++
          (k.requests.filter fun r => !t.accepts r).map (Sender.scripts k, ·)
        engineBy := if k.any && t.accepts (.engineSet .syscall true) then .scripts k else s.engineBy
        filterBy := if t.accepts (.syscallFilter k.filter) then .scripts k else s.filterBy }

/-- What happens next. -/
inductive ConfigAction where
  | configSet (c : ConfigSet)
  | change (c : Change)
  | tick (t : Tick)
  /-- The Agent comes to a request that nobody waits for any more. -/
  | late (i : Nat)

/-- One action. -/
def Syscalls.step (s : Syscalls) : ConfigAction → Option Syscalls
  | .configSet c => some (s.configSet c)
  | .change c => some { s with scripts := s.scripts.change c }
  | .tick t => some (s.tick t)
  | .late i =>
      match s.unanswered[i]? with
      | none => none
      | some sent => some { s.takeEffect sent with unanswered := s.unanswered.eraseIdx i }

/-! ## What is recorded -/

/-- What the Hub reports is recorded, and nothing else is when no script wants
syscalls. -/
def Syscalls.Reported (s : Syscalls) : Prop :=
  (∀ number address, s.config.describes number address = true →
    s.scripts.agent.records number address = true) ∧
  (s.scripts.registry.knobs.any = false → ∀ number address,
    s.scripts.agent.records number address = s.config.describes number address)

/-- What is recorded, and how far the Hub's report is right. -/
structure Syscalls.Kept (s : Syscalls) : Prop where
  /-- What the Hub reports is recorded, unless a call that did not complete has
  changed something or the filter is one of scripts that want some syscalls by
  number. -/
  contained : s.engineBy ≠ .givenUp → s.filterBy ≠ .givenUp →
    (∀ k, s.filterBy = .scripts k → k.all = true ∨ k.any = false) →
      ∀ number address, s.config.describes number address = true →
        s.scripts.agent.records number address = true
  /-- Nothing else is recorded as long as both are what the last completed call
  has set. -/
  exact : s.engineBy = .call → s.filterBy = .call → ∀ number address,
    s.scripts.agent.records number address = s.config.describes number address
  /-- With the filter of a tick, what the scripts wanted is recorded, or
  everything when they wanted nothing, from every caller. -/
  scripted : ∀ k, s.filterBy = .scripts k → s.engineBy ≠ .givenUp → ∀ number address,
    s.scripts.agent.records number address =
      ((s.engineBy ≠ .call || s.config.enabled) &&
        (k.all || !k.any || listed k.union number))

/-- The flag and the filter are what the last party has set. -/
structure Syscalls.Set (s : Syscalls) : Prop where
  /-- The engine, set by a call. -/
  engine_call : s.engineBy = .call → s.scripts.agent.engines .syscall = s.config.enabled
  /-- The engine, set by a tick. -/
  engine_scripts : ∀ k, s.engineBy = .scripts k → s.scripts.agent.engines .syscall = true
  /-- The filter, set by a call. -/
  filter_call : s.filterBy = .call → s.scripts.agent.filter = s.config.filter
  /-- The filter, set by a tick. -/
  filter_scripts : ∀ k, s.filterBy = .scripts k → s.scripts.agent.filter = k.filter
  /-- A tick sends no other requests. -/
  unanswered : ∀ k r, (.scripts k, r) ∈ s.unanswered → r ∈ k.requests

/-! ## Filters -/

/-- The filter of a configuration lets pass what the configuration describes. -/
theorem SyscallConfig.captureAllowed_filter (c : SyscallConfig) (number address : Nat) :
    c.describes number address = (c.enabled && c.filter.captureAllowed number address) := by
  rw [SyscallConfig.describes, Bool.and_assoc]
  congr 1
  rw [Filter.captureAllowed, SyscallConfig.filter]
  by_cases hend : c.scope.scopeEnd = 0
  · simp only [hend, ne_eq, not_true_eq_false, false_and, if_false, decide_true, Bool.true_or,
      Bool.and_true]
    by_cases hnumbers : c.numbers = ∅
    · simp [hnumbers]
    · simp [hnumbers]
  · by_cases hscope : address < c.scope.scopeStart ∨ c.scope.scopeEnd ≤ address
    · rw [if_pos ⟨hend, hscope⟩]
      simp only [hend, decide_false, Bool.false_or, Bool.and_eq_false_iff, decide_eq_false_iff_not]
      exact .inr (by omega)
    · rw [if_neg fun h => hscope h.2]
      have hin : c.scope.scopeStart ≤ address ∧ address < c.scope.scopeEnd := by omega
      by_cases hnumbers : c.numbers = ∅
      · simp [hin, hnumbers]
      · simp [hin, hnumbers]

/-- The filter of scripts. -/
theorem Knobs.captureAllowed_filter (k : Knobs) (number address : Nat) :
    k.filter.captureAllowed number address = (k.all || !k.any || listed k.union number) := by
  rw [Knobs.filter]
  split
  next h => rw [h]; rfl
  next h =>
    rw [Bool.not_eq_true] at h
    rw [h]
    rfl

/-! ## Ticks -/

/-- Changes leave the engines and the filter alone. -/
theorem State.agent_foldl_change (s : State) (changes : List Change) :
    (changes.foldl State.change s).agent.engines = s.agent.engines ∧
      (changes.foldl State.change s).agent.filter = s.agent.filter := by
  induction changes generalizing s with
  | nil => exact ⟨rfl, rfl⟩
  | cons c changes ih =>
      obtain ⟨hengines, hfilter⟩ := ih (s.change c)
      have hchange : (s.change c).agent.engines = s.agent.engines ∧
          (s.change c).agent.filter = s.agent.filter := by
        rw [State.change]
        dsimp only
        split <;> exact ⟨rfl, rfl⟩
      exact ⟨hengines.trans hchange.1, hfilter.trans hchange.2⟩

/-- The registry after some changes does not depend on the mark. -/
theorem State.registry_foldl_change {s u : State} (h : u.registry = s.registry)
    (changes : List Change) :
    (changes.foldl State.change u).registry = (changes.foldl State.change s).registry := by
  induction changes generalizing s u with
  | nil => exact h
  | cons c changes ih => exact ih rfl

/-- A tick applies the knobs or leaves the engines and the filter alone. -/
theorem State.agent_tick (s : State) (t : Tick) :
    (s.tick t).agent.engines =
        (s.applied t).elim s.agent.engines
          (fun k e =>
            s.agent.engines e || (decide (e ∈ k.engines) && t.accepts (.engineSet e true))) ∧
      (s.tick t).agent.filter =
        (s.applied t).elim s.agent.filter
          (fun k => if t.accepts (.syscallFilter k.filter) then k.filter else s.agent.filter) := by
  have hbefore := State.agent_foldl_change { s with dirty := false } t.before
  have hregistry : (t.before.foldl State.change { s with dirty := false }).registry =
      (t.before.foldl State.change s).registry :=
    State.registry_foldl_change (s := s) (u := { s with dirty := false }) rfl _
  rw [State.tick, State.applied]
  split
  next hidle =>
    rw [Bool.and_eq_true, Bool.not_eq_true'] at hidle
    rw [hidle.2]
    exact ⟨rfl, rfl⟩
  next =>
    dsimp only
    cases hwait : t.firstWaiting || !t.connects with
    | true =>
        rw [Bool.not_true, Bool.and_false]
        exact hbefore
    | false =>
        rw [if_neg Bool.false_ne_true, (State.agent_foldl_change _ t.after).1,
          (State.agent_foldl_change _ t.after).2, Bool.not_false, Bool.and_true]
        cases s.dirty && !t.secondWaiting with
        | true =>
            rw [if_pos rfl, if_pos rfl, Option.elim_some, Option.elim_some, ← hregistry,
              Agent.recompute_eq]
            dsimp only
            rw [hbefore.1, hbefore.2]
            exact ⟨rfl, rfl⟩
        | false =>
            rw [if_neg Bool.false_ne_true, if_neg Bool.false_ne_true]
            exact hbefore

/-! ## Steps -/

theorem Syscalls.set_init : Syscalls.init.Set :=
  ⟨fun _ => rfl, nofun, fun _ => rfl, nofun, fun _ _ h => absurd h List.not_mem_nil⟩

/-- What is set says what is recorded. -/
theorem Syscalls.Set.kept {s : Syscalls} (h : s.Set) : s.Kept := by
  refine ⟨fun hengine hfilter hall number address hdescribes => ?_,
    fun hengine hfilter number address => ?_, fun k hfilter hengine number address => ?_⟩
  · rw [SyscallConfig.captureAllowed_filter, Bool.and_eq_true] at hdescribes
    rw [Agent.records, Bool.and_eq_true]
    constructor
    · cases hby : s.engineBy with
      | call => exact (h.engine_call hby).trans hdescribes.1
      | scripts k => exact h.engine_scripts k hby
      | givenUp => exact absurd hby hengine
    · cases hby : s.filterBy with
      | call =>
          rw [h.filter_call hby]
          exact hdescribes.2
      | scripts k =>
          rw [h.filter_scripts k hby, Knobs.captureAllowed_filter]
          rcases hall k hby with hall | hany
          · rw [hall]
            rfl
          · rw [hany, Bool.not_false, Bool.or_true]
            rfl
      | givenUp => exact absurd hby hfilter
  · rw [Agent.records, h.engine_call hengine, h.filter_call hfilter,
      SyscallConfig.captureAllowed_filter]
  · rw [Agent.records, h.filter_scripts k hfilter, Knobs.captureAllowed_filter]
    congr 1
    cases hby : s.engineBy with
    | call => simpa using h.engine_call hby
    | scripts k => simpa using h.engine_scripts k hby
    | givenUp => exact absurd hby hengine

theorem ConfigSet.enabled_next (c : ConfigSet) {config : SyscallConfig}
    (h : c.next = .ok config) : config.enabled = c.enabled := by
  rw [ConfigSet.next] at h
  cases hnumbers : selectNumbers c.values with
  | error e =>
      rw [hnumbers] at h
      cases h
  | ok numbers =>
      rw [hnumbers] at h
      cases hscope : resolveSyscallScope c.modules c.scope with
      | error e =>
          rw [hscope] at h
          cases h
      | ok scope =>
          rw [hscope] at h
          cases h
          rfl

theorem Knobs.mem_engines (k : Knobs) : Engine.syscall ∈ k.engines ↔ k.any = true := by
  simp [Knobs.engines]

/-- Engines are requested to be on, and the filter is that of the knobs. -/
theorem Knobs.mem_requests {k : Knobs} {r : Request} (h : r ∈ k.requests) :
    (∃ e, r = .engineSet e true) ∨ r = .syscallFilter k.filter := by
  rcases List.mem_append.mp h with h | h
  · obtain ⟨e, -, rfl⟩ := List.mem_map.mp h
    exact .inl ⟨e, rfl⟩
  · exact .inr (List.mem_singleton.mp h)

@[simp] theorem Agent.engines_accept (a : Agent) (on : Bool) :
    (a.accept (.engineSet .syscall on)).engines .syscall = on := by
  simp [Agent.accept]

section

variable {s : Syscalls}

/-- A request that a call gave up does not count as the call's. -/
theorem Setter.next_call {setter : Setter} {changes : Bool}
    (h : setter.next changes .call = .call) : setter = .call ∧ changes = false := by
  rw [Setter.next] at h
  split at h
  next => cases h
  next hchanges => exact ⟨h, Bool.eq_false_of_not_eq_true hchanges⟩

theorem Setter.next_scripts {setter : Setter} {changes : Bool} {k : Knobs}
    (h : setter.next changes .call = .scripts k) : setter = .scripts k ∧ changes = false := by
  rw [Setter.next] at h
  split at h
  next => cases h
  next hchanges => exact ⟨h, Bool.eq_false_of_not_eq_true hchanges⟩

/-- A request that takes effect is set by its sender. -/
theorem Syscalls.Set.takeEffect (h : s.Set) {sent : Sender × Request}
    (hsent : ∀ k, sent.1 = .scripts k → sent.2 ∈ k.requests) : (s.takeEffect sent).Set := by
  obtain ⟨sender, request⟩ := sent
  cases request with
  | engineSet engine on =>
      cases engine with
      | syscall =>
          refine ⟨fun hby => ?_, fun k hby => ?_, h.filter_call, h.filter_scripts, h.unanswered⟩
          · rw [Syscalls.takeEffect]
            cases sender with
            | call =>
                obtain ⟨hby, hsame⟩ := Setter.next_call hby
                rw [bne_eq_false_iff_eq] at hsame
                exact (s.scripts.agent.engines_accept on).trans (hsame ▸ h.engine_call hby)
            | scripts k => cases hby
          · rw [Syscalls.takeEffect]
            cases sender with
            | call =>
                obtain ⟨hby, hsame⟩ := Setter.next_scripts hby
                rw [bne_eq_false_iff_eq] at hsame
                exact (s.scripts.agent.engines_accept on).trans (hsame ▸ h.engine_scripts k hby)
            | scripts k' =>
                rcases Knobs.mem_requests (hsent k' rfl) with ⟨e, he⟩ | he
                · cases he
                  exact s.scripts.agent.engines_accept true
                · cases he
      | memory | exec | branch =>
          have hengine (e : Engine) (he : Engine.syscall ≠ e) :
              (s.scripts.agent.accept (.engineSet e on)).engines .syscall =
                s.scripts.agent.engines .syscall := Function.update_of_ne he _ _
          exact ⟨fun hby => (hengine _ (by decide)).trans (h.engine_call hby),
            fun k hby => (hengine _ (by decide)).trans (h.engine_scripts k hby),
            h.filter_call, h.filter_scripts, h.unanswered⟩
  | syscallFilter filter =>
      refine ⟨h.engine_call, h.engine_scripts, fun hby => ?_, fun k hby => ?_, h.unanswered⟩
      · rw [Syscalls.takeEffect]
        cases sender with
        | call =>
            obtain ⟨hby, hsame⟩ := Setter.next_call hby
            rw [bne_eq_false_iff_eq] at hsame
            exact hsame.symm.trans (h.filter_call hby)
        | scripts k => cases hby
      · rw [Syscalls.takeEffect]
        cases sender with
        | call =>
            obtain ⟨hby, hsame⟩ := Setter.next_scripts hby
            rw [bne_eq_false_iff_eq] at hsame
            exact hsame.symm.trans (h.filter_scripts k hby)
        | scripts k' =>
            cases hby
            rcases Knobs.mem_requests (hsent k rfl) with ⟨e, he⟩ | he
            · cases he
            · cases he
              rfl

/-- A call's request adds nothing about ticks. -/
theorem Syscalls.Set.giveUp (h : s.Set) (r : Request) :
    Syscalls.Set { s with unanswered := s.unanswered ++ [(.call, r)] } := by
  refine { h with unanswered := fun k r' hmem => ?_ }
  rcases List.mem_append.mp hmem with hmem | hmem
  · exact h.unanswered k r' hmem
  · cases List.mem_singleton.mp hmem

theorem Syscalls.Set.configSet (h : s.Set) (c : ConfigSet) : (s.configSet c).Set := by
  rw [Syscalls.configSet]
  split
  next => exact h
  next config hnext =>
    have hengine : (s.takeEffect (.call, .engineSet .syscall c.enabled)).Set :=
      h.takeEffect nofun
    dsimp only
    split
    · exact h.giveUp _
    · split
      · exact hengine
      · split
        · exact hengine.giveUp _
        · -- both requests are answered, and the Hub takes its copy
          refine ⟨fun _ => ?_, nofun, fun _ => rfl, nofun, h.unanswered⟩
          rw [c.enabled_next hnext]
          exact s.scripts.agent.engines_accept c.enabled

/-- A tick sets what is accepted to what the scripts want. -/
theorem Syscalls.Set.tick (h : s.Set) (t : Tick) : (s.tick t).Set := by
  obtain ⟨hengines, hfilter⟩ := s.scripts.agent_tick t
  rw [Syscalls.tick]
  split
  next hnone =>
    rw [hnone] at hengines hfilter
    refine ⟨fun hby => ?_, fun k hby => ?_, fun hby => ?_, fun k hby => ?_, h.unanswered⟩
    · rw [hengines]
      exact h.engine_call hby
    · rw [hengines]
      exact h.engine_scripts k hby
    · rw [hfilter]
      exact h.filter_call hby
    · rw [hfilter]
      exact h.filter_scripts k hby
  next k hsome =>
    rw [hsome, Option.elim_some] at hengines hfilter
    have hengine : (s.scripts.tick t).agent.engines .syscall =
        (s.scripts.agent.engines .syscall ||
          (k.any && t.accepts (.engineSet .syscall true))) := by
      rw [hengines, Bool.eq_iff_iff]
      simp [k.mem_engines]
    refine ⟨fun hby => ?_, fun k' hby => ?_, fun hby => ?_, fun k' hby => ?_, fun k' r hmem => ?_⟩
    · dsimp only at hby ⊢
      split at hby
      next => cases hby
      next hnot =>
        rw [hengine, Bool.eq_false_of_not_eq_true hnot, Bool.or_false]
        exact h.engine_call hby
    · dsimp only at hby ⊢
      rw [hengine]
      split at hby
      next henables => rw [henables, Bool.or_true]
      next => rw [h.engine_scripts k' hby, Bool.true_or]
    · dsimp only at hby ⊢
      split at hby
      next => cases hby
      next hnot =>
        rw [hfilter, if_neg hnot]
        exact h.filter_call hby
    · dsimp only at hby ⊢
      split at hby
      next haccepts =>
        cases hby
        rw [hfilter, if_pos haccepts]
      next hnot =>
        rw [hfilter, if_neg hnot]
        exact h.filter_scripts k' hby
    · rcases List.mem_append.mp hmem with hmem | hmem
      · exact h.unanswered k' r hmem
      · obtain ⟨r', hr', heq⟩ := List.mem_map.mp hmem
        cases heq
        exact (List.mem_filter.mp hr').1

theorem Syscalls.Set.step {t : Syscalls} (h : s.Set) {a : ConfigAction}
    (ht : s.step a = some t) : t.Set := by
  cases a with
  | configSet c =>
      cases ht
      exact h.configSet c
  | change c =>
      cases ht
      obtain ⟨hengines, hfilter⟩ := s.scripts.agent_foldl_change [c]
      refine ⟨fun hby => ?_, fun k hby => ?_, fun hby => ?_, fun k hby => ?_, h.unanswered⟩
      · exact (congrFun hengines _).trans (h.engine_call hby)
      · exact (congrFun hengines _).trans (h.engine_scripts k hby)
      · exact hfilter.trans (h.filter_call hby)
      · exact hfilter.trans (h.filter_scripts k hby)
  | tick t =>
      cases ht
      exact h.tick t
  | late i =>
      rw [Syscalls.step] at ht
      split at ht
      next => cases ht
      next sent hsent =>
        cases ht
        have hmem : sent ∈ s.unanswered := List.mem_of_getElem? hsent
        have heffect : (s.takeEffect sent).Set :=
          h.takeEffect fun k hk => h.unanswered k sent.2 (hk ▸ hmem)
        exact { heffect with
          unanswered := fun k r hr => h.unanswered k r (List.mem_of_mem_eraseIdx hr) }

end

/-! ## Runs -/

/-- Who has set the engine and the filter says over every run what is recorded,
and how far the Hub's report is right. -/
theorem config_kept (as : List ConfigAction) :
    Always Syscalls.step Syscalls.Kept .init as := by
  intro pre t hpre hrun
  have hset := Transition.run_invariant (fun hs ht => Syscalls.Set.step hs ht) Syscalls.set_init hrun
  exact hset.kept

/-! ## A script that wants one syscall -/

/-- A plugin whose `on_syscall` is for one syscall. -/
def onePlugin (number : SyscallNumber) : Plugin where
  running := true
  events := []
  watch := none
  onSyscall := true
  syscallNumbers := some {number}

/-- A tick without events in which every request is accepted. -/
def quietTick : Tick where
  idle := true
  before := []
  firstWaiting := false
  connects := true
  secondWaiting := false
  accepts _ := true
  after := []

/-- The plugin is loaded, and its filter replaces the Hub's, which lets every
syscall pass. -/
theorem config_narrowed : ¬ ∀ as, Always Syscalls.step Syscalls.Reported .init as := by
  intro h
  have hreported :=
    ((h [.change ⟨[onePlugin ⟨5, by decide⟩], false⟩, .tick quietTick]).last rfl).1 6 0 rfl
  exact Bool.false_ne_true hreported

end PinBridge.Native
