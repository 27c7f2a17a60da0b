import PinBridge.Control.Gate
import PinBridge.Hub.Journal
import PinBridge.Lib.Sizes

/-!
# The audit trail

`HubService::call` checks the audit arguments, begins an operation in the journal, runs the tool
under the gate and finishes the operation when the tool has returned.  Reads of the system, and
the tools that read the journal itself, are not recorded.

The journal is locked for each of these steps alone, so calls of any number of threads interleave
between them.  `log` keeps every operation, the evicted ones included, and `trail` pairs every
operation of the Agent with the id under which it was issued.

`audit_complete` says what the trail is worth: whatever the AI asks of the Agent, and every change
anybody makes, is issued under an operation that names the caller and the tool and is open until
the call of the Agent returns.  An operation is open exactly as long as its call.  When the client
of the Agent gives up, that may be shorter than the Agent works.
-/

namespace PinBridge.Audit

open Activities
open Control (AgentMethod Caller CallPc ChannelActor ControlMode Issue ModeChange Tool)
open Transition (run Always)
open Utf8 (Text size)
open scoped Sizes

/-! ## Names -/

/-- `actor`. -/
def actor (caller : Caller) : Text :=
  match caller.actor with
  | .human => "human".toList
  | .ai => "ai".toList
  | .system => "system".toList

/-- The name of a tool in `TOOL_NAMES`. -/
def toolName : Tool → String
  | .controlStatus => "control_status"
  | .controlHandoffToAi => "control_handoff_to_ai"
  | .controlTakeoverManual => "control_takeover_manual"
  | .controlPauseAutomation => "control_pause_automation"
  | .sessionStatus => "session_status"
  | .sessionSetAgentPort => "session_set_agent_port"
  | .targetPause => "target_pause"
  | .targetResume => "target_resume"
  | .targetStepInto => "target_step_into"
  | .targetStepOver => "target_step_over"
  | .breakpointSet => "breakpoint_set"
  | .breakpointRemove => "breakpoint_remove"
  | .breakpointList => "breakpoint_list"
  | .breakpointInventory => "breakpoint_inventory"
  | .registersGet => "registers_get"
  | .registerSet => "register_set"
  | .memoryRead => "memory_read"
  | .memoryWrite => "memory_write"
  | .disassemble => "disassemble"
  | .modulesList => "modules_list"
  | .moduleExports => "module_exports"
  | .hookTargetsQuery => "hook_targets_query"
  | .hookMonitorApply => "hook_monitor_apply"
  | .hookSet => "hook_set"
  | .hookFunctionSet => "hook_function_set"
  | .hookSignatureSet => "hook_signature_set"
  | .hookSignatureRemove => "hook_signature_remove"
  | .hookRemove => "hook_remove"
  | .hookClear => "hook_clear"
  | .hookList => "hook_list"
  | .hookInventory => "hook_inventory"
  | .hookMonitor => "hook_monitor"
  | .hookEventsQuery => "hook_events_query"
  | .hookEventsExport => "hook_events_export"
  | .eventIndexQuery => "event_index_query"
  | .eventIndexExport => "event_index_export"
  | .traceScopeQuery => "trace_scope_query"
  | .traceRecordStart => "trace_record_start"
  | .traceRecordStatus => "trace_record_status"
  | .traceRecordStop => "trace_record_stop"
  | .traceIndexQuery => "trace_index_query"
  | .traceIndexExport => "trace_index_export"
  | .hookModule => "hook_module"
  | .hookRangePreview => "hook_range_preview"
  | .hookRangeSet => "hook_range_set"
  | .syscallConfigGet => "syscall_config_get"
  | .syscallConfigSet => "syscall_config_set"
  | .syscallMonitor => "syscall_monitor"
  | .memoryMap => "memory_map"
  | .exceptionMonitor => "exception_monitor"
  | .exceptionPolicyGet => "exception_policy_get"
  | .exceptionPolicySet => "exception_policy_set"
  | .exceptionInventory => "exception_inventory"
  | .threadsList => "threads_list"
  | .addressResolve => "address_resolve"
  | .activityList => "activity_list"
  | .activityGet => "activity_get"
  | .scriptInject => "script_inject"
  | .scriptReplace => "script_replace"
  | .scriptStart => "script_start"
  | .scriptStop => "script_stop"
  | .scriptRemove => "script_remove"
  | .scriptList => "script_list"
  | .scriptGet => "script_get"
  | .scriptStatus => "script_status"
  | .scriptOutput => "script_output"
  | .eventsNewest => "events_newest"

/-- The outcome that `finish` is told. -/
inductive Outcome where
  | ok
  | error
  | denied
  /-- A takeover whose pause failed. -/
  | partly
  deriving DecidableEq, Repr

def Outcome.text : Outcome → Text
  | .ok => "ok".toList
  | .error => "error".toList
  | .denied => "denied".toList
  | .partly => "partial".toList

theorem Outcome.text_ne (outcome : Outcome) : outcome.text ≠ inProgress := by
  cases outcome <;> decide

/-! ## The audit arguments -/

/-- `valid_operation_id`. -/
def validOperationId (value : Text) : Bool :=
  size value = 19 && "op-".toList.isPrefixOf value && (value.drop 3).all fun c =>
    c.isDigit || ('a' ≤ c && c ≤ 'f') || ('A' ≤ c && c ≤ 'F')

/-- The purpose of `audit_args`. -/
def purposeOf : Option Json → Except Text (Option Text)
  | none => .ok none
  | some (.string value) =>
      if size value.toList ≤ 512 then .ok (some value.toList)
      else .error "purpose is too long".toList
  | some _ => .error "purpose must be string".toList

/-- The parent of `audit_args`. -/
def parentOf (journal : Journal) : Option Json → Except Text (Option Text)
  | none => .ok none
  | some (.string value) =>
      if size value.toList ≤ 32 ∧ validOperationId value.toList ∧ journal.contains value.toList then
        .ok (some value.toList)
      else .error "parent operation is invalid or unknown".toList
  | some _ => .error "parent_operation_id must be string".toList

/-- `audit_args`. -/
def auditArgs (journal : Journal) (args : String → Option Json) :
    Except Text (Option Text × Option Text) := do
  let purpose ← purposeOf (args "purpose")
  let parent ← parentOf journal (args "parent_operation_id")
  return (purpose, parent)

/-! ## The Hub with its journal -/

/-- A call whose audit arguments have passed. -/
structure Call where
  caller : Caller
  tool : Tool
  /-- The mode in the arguments. -/
  mode : Option ControlMode
  purpose : Option Text
  parent : Option Text

/-- How far the recording of a call is. -/
inductive Phase where
  /-- No call, or one that is not recorded. -/
  | none
  /-- `journal.begin` is next. -/
  | checked (call : Call)
  /-- The call holds the handle with this id. -/
  | begun (id : Text)

structure State (τ : Type*) where
  hub : Control.State τ
  journal : Journal
  phases : τ → Phase
  /-- Every operation that has been begun. -/
  log : List Activity
  /-- Every operation of the Agent, with the id of the handle of the call that issued it. -/
  trail : List (Issue × Option Text)

def State.init (τ : Type*) : State τ where
  hub := .init τ
  journal := .new defaultCapacity
  phases _ := .none
  log := []
  trail := []

/-- The calls that leave no row. -/
def unrecorded (tool : Tool) (caller : Caller) : Bool :=
  match tool with
  | .eventsNewest | .activityList | .activityGet => true
  | _ => caller.actor = .system && !tool.isWrite

def Phase.id : Phase → Option Text
  | .begun id => some id
  | _ => Option.none

variable {τ : Type*} [DecidableEq τ]

/-- The gate moves for thread `t`, and what is issued is added to the trail. -/
def State.move (s : State τ) (t : τ) (a : Control.Action τ) : Option (State τ) :=
  (s.hub.step a).map fun hub =>
    { s with
      hub
      trail := (hub.issued.take (hub.issued.length - s.hub.issued.length)).map
        (fun i => (i, (s.phases t).id)) ++ s.trail }

def State.goto (s : State τ) (t : τ) (phase : Phase) : State τ :=
  { s with phases := Function.update s.phases t phase }

@[simp] theorem State.goto_self (s : State τ) (t : τ) (phase : Phase) :
    (s.goto t phase).phases t = phase := Function.update_self ..

theorem State.goto_of_ne (s : State τ) {t u : τ} (phase : Phase) (h : u ≠ t) :
    (s.goto t phase).phases u = s.phases u := Function.update_of_ne h ..

inductive Action (τ : Type*) where
  /-- `HubService::call`, up to `audit_args`.  `accepted` is false when a tool that is not recorded
  refuses its arguments. -/
  | request (t : τ) (caller : Caller) (tool : Tool) (mode : Option ControlMode)
      (args : String → Option Json) (accepted : Bool)
  /-- `journal.begin`. -/
  | begin (t : τ) (now : Text)
  /-- The next step of the tool. -/
  | thread (t : τ) (next : Option AgentMethod)
  /-- The client of the Agent gives up. -/
  | giveUp (t : τ)
  /-- The Agent is done with an operation that has outlived its call. -/
  | done (i : Nat)
  /-- `activity.finish`. -/
  | finish (t : τ) (outcome : Outcome) (refs : Json) (now : Text)

def State.step (s : State τ) : Action τ → Option (State τ)
  | .request t caller tool mode args accepted =>
      match s.phases t with
      | .none =>
          if unrecorded tool caller then s.move t (.call t caller tool mode accepted)
          else if s.hub.threads t = .idle then
            match auditArgs s.journal args with
            | .error _ => some s
            | .ok (purpose, parent) =>
                some (s.goto t (.checked ⟨caller, tool, mode, purpose, parent⟩))
          else none
      | _ => none
  | .begin t now =>
      match s.phases t with
      | .checked call =>
          let b : Beginning :=
            ⟨actor call.caller, (toolName call.tool).toList, call.purpose, call.parent, now⟩
          let (id, journal) := s.journal.begin b
          ({ s.goto t (.begun id) with journal, log := s.log ++ [b.activity id] } : State τ).move t
            (.call t call.caller call.tool call.mode true)
      | _ => none
  | .thread t next => s.move t (.thread t next)
  | .giveUp t => s.move t (.giveUp t)
  | .done i => (s.hub.step (.done i)).map fun hub => { s with hub }
  | .finish t outcome refs now =>
      match s.phases t with
      | .begun id =>
          if s.hub.threads t = .idle then
            let e : Ending := ⟨outcome.text, refs, now⟩
            some { s.goto t .none with
              journal := s.journal.finish id e
              log := Archive.updateFirst Activity.operationId id e.close s.log }
          else none
      | _ => none

/-! ## What holds -/

/-- What must be recorded: all that the AI asks for, and every change. -/
def Relevant (caller : Caller) (method : AgentMethod) : Prop :=
  caller.actor = .ai ∨ method.changes = true

/-- An operation of the log with an id, of a caller and a tool. -/
def State.Recorded (s : State τ) (id : Text) (caller : Caller) (tool : Tool) : Prop :=
  ∃ (op : Nat) (a : Activity), s.log[op]? = some a ∧ a.operationId = id ∧
    a.actor = actor caller ∧ a.action = (toolName tool).toList

/-- Every operation of the Agent that matters is accounted for. -/
structure State.Audited (s : State τ) : Prop where
  /-- The trail has all operations of the Agent. -/
  trail : s.trail.map Prod.fst = s.hub.issued
  /-- What matters was issued under an operation that names the caller and the tool. -/
  recorded : ∀ i id, (i, id) ∈ s.trail → Relevant i.caller i.method →
    ∃ id', id = some id' ∧ s.Recorded id' i.caller i.tool
  /-- That operation is open while the call of the Agent is in progress. -/
  waiting : ∀ t caller method, (s.hub.threads t).executing = some (caller, method) →
    Relevant caller method → ∃ (op : Nat) (a : Activity), s.phases t = .begun a.operationId ∧
      s.log[op]? = some a ∧ a.outcome = inProgress ∧ a.actor = actor caller
  /-- An operation is open exactly as long as its call. -/
  open_iff : ∀ (op : Nat) (a : Activity), s.log[op]? = some a →
    (a.outcome = inProgress ↔ ∃ t, s.phases t = .begun a.operationId)
  /-- A parent was begun before. -/
  parents : ∀ (op : Nat) (a : Activity) id, s.log[op]? = some a → a.parentOperationId = some id →
    ∃ (m : Nat) (b : Activity), m < op ∧ s.log[m]? = some b ∧ b.operationId = id
  /-- The journal shows the last 256 operations as they are. -/
  shown : ∀ (op : Nat) (a : Activity), s.log[op]? = some a → s.log.length ≤ op + 256 →
    s.journal.get a.operationId = some a

/-! ## Steps of the gate -/

/-- The caller and the tool of a call that changes the mode. -/
def asked : ModeChange → Caller × Tool
  | .handoff caller _ => (caller, .controlHandoffToAi)
  | .pause caller => (caller, .controlPauseAutomation)
  | .takeover caller => (caller, .controlTakeoverManual)

/-- The caller and the tool that a thread may still issue something for. -/
def serves : CallPc → Option (Caller × Tool)
  | .takeGate change | .assign change => some (asked change)
  | .takeoverPause caller | .takeoverPausing caller => some (caller, .controlTakeoverManual)
  | .writeGuard caller tool | .ensure caller tool | .body caller tool
  | .operation caller tool _ => some (caller, tool)
  | .idle | .dropGate => none

omit [DecidableEq τ] in
theorem unrecorded_isWrite {tool : Tool} {caller : Caller} (h : unrecorded tool caller = true) :
    tool.isWrite = false := by
  cases tool <;> simp_all [unrecorded, Tool.isWrite]

/-- What a step of thread `t` leaves, and what it issues. -/
structure Moved (s s' : Control.State τ) (t : τ) : Prop where
  others : ∀ u, u ≠ t → s'.threads u = s.threads u
  /-- It goes on serving what it serves. -/
  serving : ∀ c, serves (s'.threads t) = some c → serves (s.threads t) = some c
  issued : s'.issued = s.issued ∨ ∃ i, s'.issued = i :: s.issued ∧
    serves (s.threads t) = some (i.caller, i.tool) ∧
    (i.method ∈ i.tool.methods ∨ s.threads t = .takeoverPause i.caller)

/-- A step to the next program counter. -/
theorem Moved.of_update {s s' : Control.State τ} {t : τ} {pc pc' : CallPc}
    (hpc : s.threads t = pc) (hthreads : s'.threads = Function.update s.threads t pc')
    (hserves : ∀ c, serves pc' = some c → serves pc = some c)
    (hissued : s'.issued = s.issued ∨ ∃ i, s'.issued = i :: s.issued ∧
      serves pc = some (i.caller, i.tool) ∧
      (i.method ∈ i.tool.methods ∨ pc = .takeoverPause i.caller)) : Moved s s' t where
  others u hu := by rw [hthreads, Function.update_of_ne hu]
  serving c hc := by
    rw [hthreads, Function.update_self] at hc
    rw [hpc]
    exact hserves c hc
  issued := by
    rw [hpc]
    exact hissued

theorem moved_callStep {s s' : Control.State τ} {t : τ} {next : Option AgentMethod}
    (hs' : s.callStep t next (s.threads t) = some s') : Moved s s' t := by
  cases hpc : s.threads t with
  | idle =>
      rw [hpc] at hs'
      cases hs'
  | takeGate change =>
      rw [hpc] at hs'
      obtain ⟨gate, -, rfl⟩ := Option.map_eq_some_iff.mp hs'
      exact .of_update hpc rfl (fun _ hc => hc) (.inl rfl)
  | assign change =>
      rw [hpc] at hs'
      cases change with
      | handoff caller mode =>
          cases hs'
          exact .of_update hpc rfl (fun _ hc => by cases hc) (.inl rfl)
      | pause caller =>
          cases hs'
          exact .of_update hpc rfl (fun _ hc => by cases hc) (.inl rfl)
      | takeover caller =>
          cases hs'
          exact .of_update hpc rfl (fun _ hc => hc) (.inl rfl)
  | takeoverPause caller =>
      rw [hpc] at hs'
      cases hs'
      exact .of_update hpc rfl (fun _ hc => hc) (.inr ⟨_, rfl, rfl, .inr rfl⟩)
  | takeoverPausing caller =>
      rw [hpc] at hs'
      cases hs'
      exact .of_update hpc rfl (fun _ hc => by cases hc) (.inl rfl)
  | dropGate =>
      rw [hpc] at hs'
      cases hs'
      exact .of_update hpc rfl (fun _ hc => by cases hc) (.inl rfl)
  | writeGuard caller tool =>
      rw [hpc] at hs'
      obtain ⟨gate, -, rfl⟩ := Option.map_eq_some_iff.mp hs'
      exact .of_update hpc rfl (fun _ hc => hc) (.inl rfl)
  | ensure caller tool =>
      rw [hpc, Control.State.callStep] at hs'
      split at hs' <;> cases hs'
      · exact .of_update hpc rfl (fun _ hc => hc) (.inl rfl)
      · exact .of_update hpc rfl (fun _ hc => by cases hc) (.inl rfl)
  | body caller tool =>
      rw [hpc] at hs'
      cases next with
      | none =>
          cases hs'
          exact .of_update hpc rfl (fun _ hc => by cases hc) (.inl rfl)
      | some method =>
          rw [Control.State.callStep] at hs'
          split at hs' <;> cases hs'
          next hmethod =>
            exact .of_update hpc rfl (fun _ hc => hc) (.inr ⟨_, rfl, rfl, .inl hmethod.1⟩)
  | operation caller tool method =>
      rw [hpc] at hs'
      cases hs'
      exact .of_update hpc rfl (fun _ hc => hc) (.inl rfl)

theorem moved_giveUp {s s' : Control.State τ} {t : τ}
    (hs' : s.giveUp t (s.threads t) = some s') : Moved s s' t := by
  cases hpc : s.threads t with
  | operation caller tool method =>
      rw [hpc] at hs'
      cases hs'
      exact .of_update hpc rfl (fun _ hc => hc) (.inl rfl)
  | takeoverPausing caller =>
      rw [hpc] at hs'
      cases hs'
      exact .of_update hpc rfl (fun _ hc => by cases hc) (.inl rfl)
  | _ =>
      rw [hpc] at hs'
      cases hs'

omit [DecidableEq τ] in
/-- A call serves its caller and its tool. -/
theorem serves_start {caller : Caller} {tool : Tool} {mode : Option ControlMode}
    {c : Caller × Tool} (h : serves (Control.start caller tool mode) = some c) :
    c = (caller, tool) ∧ (unrecorded tool caller = true → caller.actor ≠ .ai) := by
  have hif : ∀ {P : Prop} [Decidable P] {pc : CallPc},
      serves (if P then pc else .idle) = some c → serves pc = some c := by
    intro P _ pc hpc
    split at hpc
    · exact hpc
    · cases hpc
  unfold Control.start at h
  split at h
  next =>
    split at h
    · cases h
    next hai =>
      cases h
      exact ⟨rfl, fun _ => hai⟩
  next => cases h
  next => cases h
  next hevents hlist hget =>
    refine ⟨?_, fun hun hai => ?_⟩
    · split at h
      · cases h
        rfl
      · split at h
        · exact (Option.some.inj (hif h)).symm
        · cases h
        · exact (Option.some.inj (hif h)).symm
        · exact (Option.some.inj (hif h)).symm
        · split at h <;> (cases h; rfl)
    · unfold unrecorded at hun
      split at hun
      · exact hevents rfl
      · exact hlist rfl
      · exact hget rfl
      · simp [hai] at hun

/-! ## The invariant -/

/-- What is known of a call. -/
def State.PhaseOk (s : State τ) (t : τ) : Phase → Prop
  | .none => ∀ c, serves (s.hub.threads t) = some c →
      unrecorded c.2 c.1 = true ∧ c.1.actor ≠ .ai
  | .checked call => s.hub.threads t = .idle ∧
      ∀ id, call.parent = some id → ∃ (m : Nat) (b : Activity),
        s.log[m]? = some b ∧ b.operationId = id
  | .begun id => ∃ (op : Nat) (a : Activity), s.log[op]? = some a ∧ a.operationId = id ∧
      a.outcome = inProgress ∧ ∀ c, serves (s.hub.threads t) = some c →
        a.actor = actor c.1 ∧ a.action = (toolName c.2).toList

/-- What holds in every run. -/
structure State.Inv (s : State τ) : Prop where
  hub : s.hub.Inv
  journal : Represents s.journal s.log
  capacity : s.journal.capacity = 256
  calls : ∀ t, s.PhaseOk t (s.phases t)
  distinct : ∀ t u id, s.phases t = .begun id → s.phases u = .begun id → t = u
  opened : ∀ (op : Nat) (a : Activity), s.log[op]? = some a → a.outcome = inProgress →
    ∃ t, s.phases t = .begun a.operationId
  trail : s.trail.map Prod.fst = s.hub.issued
  recorded : ∀ i id, (i, id) ∈ s.trail → Relevant i.caller i.method →
    ∃ id', id = some id' ∧ s.Recorded id' i.caller i.tool
  parents : ∀ (op : Nat) (a : Activity) id, s.log[op]? = some a → a.parentOperationId = some id →
    ∃ (m : Nat) (b : Activity), m < op ∧ s.log[m]? = some b ∧ b.operationId = id

variable {s : State τ} {t : τ}

omit [DecidableEq τ] in
/-- What asks for something that matters has begun an operation. -/
theorem State.Inv.begun (h : s.Inv) {caller : Caller} {tool : Tool} {method : AgentMethod}
    (hserves : serves (s.hub.threads t) = some (caller, tool))
    (hmethod : method ∈ tool.methods ∨ tool = .controlTakeoverManual ∧ caller.actor = .human)
    (hrelevant : Relevant caller method) : ∃ (op : Nat) (a : Activity),
      s.phases t = .begun a.operationId ∧ s.log[op]? = some a ∧ a.outcome = inProgress ∧
        a.actor = actor caller ∧ a.action = (toolName tool).toList := by
  have hok := h.calls t
  cases hphase : s.phases t with
  | none =>
      rw [hphase] at hok
      obtain ⟨hun, hnot⟩ := hok _ hserves
      have hchanges := hrelevant.resolve_left hnot
      rcases hmethod with hmethod | ⟨rfl, hhuman⟩
      · have hwrite := Tool.isWrite_of_changes hmethod hchanges
        rw [unrecorded_isWrite hun] at hwrite
        cases hwrite
      · simp [unrecorded, hhuman] at hun
  | checked call =>
      rw [hphase] at hok
      rw [hok.1] at hserves
      cases hserves
  | begun id =>
      rw [hphase] at hok
      obtain ⟨op, a, ha, rfl, hopen, hcall⟩ := hok
      obtain ⟨hactor, haction⟩ := hcall _ hserves
      exact ⟨op, a, rfl, ha, hopen, hactor, haction⟩

omit [DecidableEq τ] in
/-- Only a human takes over. -/
theorem human_of_takeover {hub : Control.State τ} (h : hub.Inv) {caller : Caller}
    (hpc : hub.threads t = .takeoverPause caller ∨ hub.threads t = .takeoverPausing caller) :
    caller.actor = .human := by
  have hlast : hub.last = some (.takeover caller) := by
    have hknows := h.calls t
    rcases hpc with hpc | hpc
    · rw [hpc] at hknows
      exact hknows.2.1
    · rw [hpc] at hknows
      exact hknows.2.1
  have hallowed := h.allowed _ hlast
  rw [ModeChange.allowed, Bool.and_eq_true] at hallowed
  simpa using hallowed.1

omit [DecidableEq τ] in
theorem State.Inv.audited (h : s.Inv) : s.Audited where
  trail := h.trail
  recorded := h.recorded
  parents := h.parents
  shown op a ha hlast := by rw [h.journal.get_eq ha, h.capacity, if_pos hlast]
  open_iff op a ha := by
    constructor
    · exact h.opened op a ha
    · rintro ⟨t, ht⟩
      have hok := h.calls t
      rw [ht] at hok
      obtain ⟨m, b, hb, hid, hopen, -⟩ := hok
      have hlen : m < (s.log.map Activity.operationId).length := by
        rw [List.length_map]
        exact (List.getElem?_eq_some_iff.mp hb).1
      have hsame : m = op := (List.getElem?_inj hlen h.journal.nodup).mp (by
        rw [List.getElem?_map, List.getElem?_map, ha, hb, Option.map_some, Option.map_some, hid])
      rw [hsame, ha] at hb
      cases hb
      exact hopen
  waiting t caller method hexec hrelevant := by
    have hknows := h.hub.calls t
    cases hpc : s.hub.threads t with
    | operation caller' tool method' =>
        rw [hpc] at hexec hknows
        cases hexec
        obtain ⟨op, a, hphase, ha, hopen, hactor, -⟩ :=
          h.begun (by rw [hpc]; rfl) (.inl hknows.1) hrelevant
        exact ⟨op, a, hphase, ha, hopen, hactor⟩
    | takeoverPausing caller' =>
        rw [hpc] at hexec
        cases hexec
        have hserves : serves (s.hub.threads t) = some (caller, .controlTakeoverManual) := by
          rw [hpc]
          rfl
        obtain ⟨op, a, hphase, ha, hopen, hactor, -⟩ :=
          h.begun hserves (.inr ⟨rfl, human_of_takeover h.hub (.inr hpc)⟩) hrelevant
        exact ⟨op, a, hphase, ha, hopen, hactor⟩
    | _ =>
        rw [hpc] at hexec
        cases hexec

/-! ## Steps -/

omit [DecidableEq τ] in
theorem State.PhaseOk.congr {s' : State τ} {phase : Phase} (h : s.PhaseOk t phase)
    (hthread : s'.hub.threads t = s.hub.threads t) (hlog : s'.log = s.log) :
    s'.PhaseOk t phase := by
  cases phase with
  | none =>
      rw [PhaseOk, hthread]
      exact h
  | checked call =>
      rw [PhaseOk, hthread, hlog]
      exact h
  | begun id =>
      rw [PhaseOk, hthread, hlog]
      exact h

omit [DecidableEq τ] in
/-- The gate moves for thread `t`. -/
theorem State.Inv.hub_step (h : s.Inv) {hub : Control.State τ} (hhub : hub.Inv)
    (hothers : ∀ u, u ≠ t → hub.threads u = s.hub.threads u)
    (hself : State.PhaseOk { s with hub } t (s.phases t))
    (hissued : hub.issued = s.hub.issued ∨ ∃ i, hub.issued = i :: s.hub.issued ∧
      serves (s.hub.threads t) = some (i.caller, i.tool) ∧
      (i.method ∈ i.tool.methods ∨ s.hub.threads t = .takeoverPause i.caller)) :
    State.Inv { s with
      hub
      trail := (hub.issued.take (hub.issued.length - s.hub.issued.length)).map
        (fun i => (i, (s.phases t).id)) ++ s.trail } where
  hub := hhub
  journal := h.journal
  capacity := h.capacity
  calls u := by
    rcases eq_or_ne u t with rfl | hu
    · exact hself.congr rfl rfl
    · exact (h.calls u).congr (hothers u hu) rfl
  distinct := h.distinct
  opened := h.opened
  parents := h.parents
  trail := by
    obtain heq | ⟨i, heq, -⟩ := hissued
    · simp [heq, h.trail]
    · simp [heq, h.trail]
  recorded i id hi hrelevant := by
    rw [List.mem_append] at hi
    rcases hi with hi | hi
    · obtain heq | ⟨j, heq, hserves, hmethod⟩ := hissued
      · simp [heq] at hi
      · rw [heq, List.length_cons, Nat.add_sub_cancel_left, List.take_succ_cons, List.take_zero,
          List.map_singleton, List.mem_singleton, Prod.mk.injEq] at hi
        obtain ⟨rfl, rfl⟩ := hi
        have hmethod' : i.method ∈ i.tool.methods ∨
            i.tool = .controlTakeoverManual ∧ i.caller.actor = .human := by
          rcases hmethod with hmethod | hpc
          · exact .inl hmethod
          · rw [hpc] at hserves
            exact .inr ⟨(Prod.mk.inj (Option.some.inj hserves)).2.symm,
              human_of_takeover h.hub (.inl hpc)⟩
        obtain ⟨op, a, hphase, ha, -, hactor, haction⟩ := h.begun hserves hmethod' hrelevant
        rw [hphase]
        exact ⟨_, rfl, op, a, ha, rfl, hactor, haction⟩
    · exact h.recorded i id hi hrelevant

/-- The next step of a tool.  A thread without a call has none. -/
theorem State.Inv.thread (h : s.Inv) {a : Control.Action τ} {s' : State τ}
    (hmove : ∀ hub, s.hub.step a = some hub → Moved s.hub hub t ∧ s.hub.threads t ≠ .idle)
    (hs' : s.move t a = some s') : s'.Inv := by
  obtain ⟨hub, hstep, rfl⟩ := Option.map_eq_some_iff.mp hs'
  obtain ⟨hmoved, hbusy⟩ := hmove hub hstep
  refine h.hub_step (h.hub.step hstep) hmoved.others ?_ hmoved.issued
  have hok := h.calls t
  cases hphase : s.phases t with
  | none =>
      rw [hphase] at hok
      exact fun c hc => hok c (hmoved.serving c hc)
  | checked call =>
      rw [hphase] at hok
      exact absurd hok.1 hbusy
  | begun id =>
      rw [hphase] at hok
      obtain ⟨op, a, ha, hid, hopen, hcall⟩ := hok
      exact ⟨op, a, ha, hid, hopen, fun c hc => hcall c (hmoved.serving c hc)⟩

/-- The gate lets a call in. -/
theorem State.Inv.call (h : s.Inv) {caller : Caller} {tool : Tool} {mode : Option ControlMode}
    {accepted : Bool} {s' : State τ} (hs' : s.move t (.call t caller tool mode accepted) = some s')
    (hself : ∀ hub : Control.State τ, (∀ c, serves (hub.threads t) = some c →
        c = (caller, tool) ∧ (unrecorded tool caller = true → caller.actor ≠ .ai)) →
      State.PhaseOk { s with hub } t (s.phases t)) : s'.Inv := by
  obtain ⟨hub, hstep, rfl⟩ := Option.map_eq_some_iff.mp hs'
  have hhub := h.hub.step hstep
  rw [Control.State.step] at hstep
  split at hstep <;> cases hstep
  refine h.hub_step hhub (fun u hu => Function.update_of_ne hu _ _) (hself _ ?_) (.inl rfl)
  intro c hc
  have hstart : serves (if accepted then Control.start caller tool mode else .idle) = some c := by
    simpa [Control.State.goto] using hc
  split at hstart
  · exact serves_start hstart
  · cases hstart

/-- The audit arguments of a call pass. -/
theorem State.Inv.check (h : s.Inv) {call : Call} (hphase : s.phases t = .none)
    (hidle : s.hub.threads t = .idle)
    (hparent : ∀ id, call.parent = some id → s.journal.contains id = true) :
    (s.goto t (.checked call)).Inv where
  hub := h.hub
  journal := h.journal
  capacity := h.capacity
  trail := h.trail
  recorded := h.recorded
  parents := h.parents
  calls u := by
    rcases eq_or_ne u t with rfl | hu
    · rw [State.goto_self]
      exact ⟨hidle, fun id hid => h.journal.exists_of_contains (hparent id hid)⟩
    · rw [State.goto_of_ne s _ hu]
      exact (h.calls u).congr rfl rfl
  distinct u v id hu hv := by
    have hne : ∀ w, (s.goto t (.checked call)).phases w = .begun id →
        s.phases w = .begun id := by
      intro w hw
      rcases eq_or_ne w t with rfl | hw'
      · rw [State.goto_self] at hw
        cases hw
      · rwa [State.goto_of_ne s _ hw'] at hw
    exact h.distinct u v id (hne u hu) (hne v hv)
  opened op a ha hopen := by
    obtain ⟨u, hu⟩ := h.opened op a ha hopen
    refine ⟨u, ?_⟩
    have hne : u ≠ t := by
      rintro rfl
      rw [hphase] at hu
      cases hu
    rw [State.goto_of_ne s _ hne]
    exact hu

omit [DecidableEq τ] in
/-- The journal does not know the next id yet. -/
theorem State.Inv.fresh (h : s.Inv) (hroom : s.log.length + 2 < 2 ^ 64) (u : τ) :
    s.phases u ≠ .begun (operationId (s.log.length + 1)) := by
  intro hu
  have hok := h.calls u
  rw [hu] at hok
  obtain ⟨op, a, ha, hid, -⟩ := hok
  have hlt := (List.getElem?_eq_some_iff.mp ha).1
  rw [h.journal.ids op a ha] at hid
  have := operationId_injective (by omega) (by omega) hid
  omega

/-- `journal.begin`, before the gate lets the call in. -/
theorem State.Inv.begin (h : s.Inv) (hroom : s.log.length + 2 < 2 ^ 64) {call : Call}
    (hphase : s.phases t = .checked call) {b : Beginning} (hparent : b.parent = call.parent) :
    State.Inv { s.goto t (.begun (s.journal.begin b).1) with
      journal := (s.journal.begin b).2
      log := s.log ++ [b.activity (s.journal.begin b).1] } := by
  obtain ⟨hid, hjournal⟩ := h.journal.begin (by omega) b
  have hok := h.calls t
  rw [hphase] at hok
  obtain ⟨hidle, hknown⟩ := hok
  rw [hid]
  set id := operationId (s.log.length + 1)
  have hkeep : ∀ {op : Nat} {a : Activity}, s.log[op]? = some a →
      (s.log ++ [b.activity id])[op]? = some a := by
    intro op a ha
    rw [List.getElem?_append_left (List.getElem?_eq_some_iff.mp ha).1, ha]
  have hlast : (s.log ++ [b.activity id])[s.log.length]? = some (b.activity id) :=
    List.getElem?_concat_length
  have hcases : ∀ {op : Nat} {a : Activity}, (s.log ++ [b.activity id])[op]? = some a →
      s.log[op]? = some a ∨ op = s.log.length ∧ a = b.activity id := by
    intro op a ha
    rw [List.getElem?_append] at ha
    split at ha
    · exact .inl ha
    · obtain ⟨hlt, rfl⟩ := List.getElem?_eq_some_iff.mp ha
      rw [List.length_singleton] at hlt
      exact .inr ⟨by omega, by simp⟩
  refine ⟨h.hub, hjournal, h.capacity, fun u => ?_, fun u v id' hu hv => ?_,
    fun op a ha hopen => ?_, h.trail, fun i id' hi hrelevant => ?_, fun op a id' ha hid' => ?_⟩
  · simp only
    rcases eq_or_ne u t with rfl | hu
    · rw [State.goto_self]
      refine ⟨_, _, hlast, rfl, rfl, fun c hc => ?_⟩
      have hidle' : serves (s.hub.threads u) = some c := hc
      rw [hidle] at hidle'
      cases hidle'
    · rw [s.goto_of_ne _ hu]
      have hok := h.calls u
      cases hu' : s.phases u with
      | none =>
          rw [hu'] at hok
          exact hok
      | checked call' =>
          rw [hu'] at hok
          refine ⟨hok.1, fun id' hid' => ?_⟩
          obtain ⟨m, a, ha, haid⟩ := hok.2 id' hid'
          exact ⟨m, a, hkeep ha, haid⟩
      | begun id' =>
          rw [hu'] at hok
          obtain ⟨op, a, ha, hrest⟩ := hok
          exact ⟨op, a, hkeep ha, hrest⟩
  · simp only at hu hv
    rcases eq_or_ne u t with rfl | hut
    · rcases eq_or_ne v u with rfl | hvu
      · rfl
      · rw [State.goto_self] at hu
        cases hu
        rw [s.goto_of_ne _ hvu] at hv
        exact absurd hv (h.fresh hroom v)
    · rcases eq_or_ne v t with rfl | hvt
      · rw [State.goto_self] at hv
        cases hv
        rw [s.goto_of_ne _ hut] at hu
        exact absurd hu (h.fresh hroom u)
      · rw [s.goto_of_ne _ hut] at hu
        rw [s.goto_of_ne _ hvt] at hv
        exact h.distinct u v id' hu hv
  · simp only
    rcases hcases ha with ha | ⟨-, rfl⟩
    · obtain ⟨u, hu⟩ := h.opened op a ha hopen
      have hne : u ≠ t := by
        rintro rfl
        rw [hphase] at hu
        cases hu
      exact ⟨u, (s.goto_of_ne _ hne).trans hu⟩
    · exact ⟨t, s.goto_self t _⟩
  · obtain ⟨id'', hid'', op, a, ha, hrest⟩ := h.recorded i id' hi hrelevant
    exact ⟨id'', hid'', op, a, hkeep ha, hrest⟩
  · rcases hcases ha with ha | ⟨rfl, rfl⟩
    · obtain ⟨m, c, hlt, hm, hmid⟩ := h.parents op a id' ha hid'
      exact ⟨m, c, hlt, hkeep hm, hmid⟩
    · obtain ⟨m, c, hm, hmid⟩ := hknown id' (by rw [← hparent]; exact hid')
      exact ⟨m, c, (List.getElem?_eq_some_iff.mp hm).1, hkeep hm, hmid⟩

/-- `activity.finish`, when the tool has returned. -/
theorem State.Inv.finish (h : s.Inv) {id : Text} (hphase : s.phases t = .begun id)
    (hidle : s.hub.threads t = .idle) (e : Ending) (hdone : e.outcome ≠ inProgress) :
    State.Inv { s.goto t .none with
      journal := s.journal.finish id e
      log := Archive.updateFirst Activity.operationId id e.close s.log } := by
  have hok := h.calls t
  rw [hphase] at hok
  obtain ⟨op, a, ha, rfl, -⟩ := hok
  rw [Archive.updateFirst_eq_modify h.journal.nodup ha]
  have hkeep : ∀ {k : Nat} {b : Activity}, s.log[k]? = some b → ∃ c,
      (s.log.modify op e.close)[k]? = some c ∧ c.operationId = b.operationId ∧
        c.actor = b.actor ∧ c.action = b.action ∧ (k ≠ op → c = b) := by
    intro k b hb
    refine ⟨if op = k then e.close b else b, ?_, ?_⟩
    · rw [List.getElem?_modify, hb]
      rfl
    · split
      next heq => exact ⟨rfl, rfl, rfl, fun hne => absurd heq.symm hne⟩
      next => exact ⟨rfl, rfl, rfl, fun _ => rfl⟩
  have hback : ∀ {k : Nat} {c : Activity}, (s.log.modify op e.close)[k]? = some c → ∃ b,
      s.log[k]? = some b ∧ c.operationId = b.operationId ∧
        c.parentOperationId = b.parentOperationId ∧ (c.outcome = inProgress → k ≠ op ∧ c = b) := by
    intro k c hc
    rw [List.getElem?_modify] at hc
    obtain ⟨b, hb, rfl⟩ := Option.map_eq_some_iff.mp hc
    refine ⟨b, hb, ?_⟩
    split
    next => exact ⟨rfl, rfl, fun hopen => absurd hopen hdone⟩
    next hne => exact ⟨rfl, rfl, fun _ => ⟨fun heq => hne heq.symm, rfl⟩⟩
  refine ⟨h.hub, h.journal.finish ha e, h.capacity, fun u => ?_, fun u v id hu hv => ?_,
    fun k c hc hopen => ?_, h.trail, fun i id hi hrelevant => ?_, fun k c id hc hid => ?_⟩
  · simp only
    rcases eq_or_ne u t with rfl | hu
    · rw [State.goto_self]
      intro c hc
      have hidle' : serves (s.hub.threads u) = some c := hc
      rw [hidle] at hidle'
      cases hidle'
    · rw [s.goto_of_ne _ hu]
      have hok := h.calls u
      cases hu' : s.phases u with
      | none =>
          rw [hu'] at hok
          exact hok
      | checked call =>
          rw [hu'] at hok
          refine ⟨hok.1, fun id hid => ?_⟩
          obtain ⟨m, b, hb, rfl⟩ := hok.2 id hid
          obtain ⟨c, hc, hcid, -⟩ := hkeep hb
          exact ⟨m, c, hc, hcid⟩
      | begun id =>
          rw [hu'] at hok
          obtain ⟨m, b, hb, rfl, hrest⟩ := hok
          obtain ⟨c, hc, hcid, -, -, hsame⟩ := hkeep hb
          have hne : m ≠ op := by
            rintro rfl
            rw [ha] at hb
            cases hb
            exact hu (h.distinct u t _ hu' hphase)
          rw [hsame hne] at hc
          exact ⟨m, b, hc, rfl, hrest⟩
  · have hne : ∀ w, (s.goto t .none).phases w = .begun id → s.phases w = .begun id := by
      intro w hw
      rcases eq_or_ne w t with rfl | hw'
      · rw [State.goto_self] at hw
        cases hw
      · rwa [s.goto_of_ne _ hw'] at hw
    exact h.distinct u v id (hne u hu) (hne v hv)
  · obtain ⟨b, hb, -, -, hsame⟩ := hback hc
    obtain ⟨hne, rfl⟩ := hsame hopen
    obtain ⟨u, hu⟩ := h.opened k c hb hopen
    refine ⟨u, ?_⟩
    have hut : u ≠ t := by
      rintro rfl
      rw [hphase] at hu
      have hlen : op < (s.log.map Activity.operationId).length := by
        rw [List.length_map]
        exact (List.getElem?_eq_some_iff.mp ha).1
      refine hne ((List.getElem?_inj hlen h.journal.nodup).mp ?_).symm
      rw [List.getElem?_map, List.getElem?_map, ha, hb, Option.map_some, Option.map_some,
        Phase.begun.inj hu]
    exact (s.goto_of_ne _ hut).trans hu
  · obtain ⟨id', hid', m, b, hb, hbid, hactor, haction⟩ := h.recorded i id hi hrelevant
    obtain ⟨c, hc, hcid, hcactor, hcaction, -⟩ := hkeep hb
    exact ⟨id', hid', m, c, hc, hcid.trans hbid, hcactor.trans hactor, hcaction.trans haction⟩
  · obtain ⟨b, hb, -, hparent, -⟩ := hback hc
    obtain ⟨m, b', hlt, hm, hmid⟩ := h.parents k b id hb (hparent ▸ hid)
    obtain ⟨c', hc', hcid', -⟩ := hkeep hm
    exact ⟨m, c', hlt, hc', hcid'.trans hmid⟩

omit [DecidableEq τ] in
/-- A parent is an operation that the journal knows. -/
theorem contains_of_parentOf {journal : Journal} {value : Option Json} {parent : Option Text}
    {id : Text} (h : parentOf journal value = .ok parent) (hid : parent = some id) :
    journal.contains id = true := by
  unfold parentOf at h
  split at h
  · cases h
    cases hid
  · split at h
    next hvalid =>
      cases h
      cases hid
      exact hvalid.2.2
    · cases h
  · cases h

/-- A step keeps the invariant, while there are ids left. -/
theorem State.Inv.step (h : s.Inv) (hroom : s.log.length + 2 < 2 ^ 64) {a : Action τ}
    {s' : State τ} (hs' : s.step a = some s') :
    s'.Inv ∧ s'.log.length ≤ s.log.length + 1 := by
  cases a with
  | request t caller tool mode args accepted =>
      rw [State.step] at hs'
      split at hs'
      next hphase =>
        split at hs'
        next hun =>
          refine ⟨h.call hs' fun hub hub' => ?_, ?_⟩
          · rw [hphase]
            intro c hc
            obtain ⟨rfl, hnot⟩ := hub' c hc
            exact ⟨hun, hnot hun⟩
          · obtain ⟨hub, -, rfl⟩ := Option.map_eq_some_iff.mp hs'
            exact Nat.le_succ _
        next =>
          split at hs'
          next hidle =>
            cases hargs : auditArgs s.journal args with
            | error message =>
                rw [hargs] at hs'
                cases hs'
                exact ⟨h, Nat.le_succ _⟩
            | ok found =>
                rw [hargs] at hs'
                cases hs'
                refine ⟨h.check hphase hidle fun id hid => ?_, Nat.le_succ _⟩
                unfold auditArgs at hargs
                cases hpurpose : purposeOf (args "purpose") with
                | error message =>
                    rw [hpurpose] at hargs
                    cases hargs
                | ok purpose =>
                    rw [hpurpose] at hargs
                    cases hparent : parentOf s.journal (args "parent_operation_id") with
                    | error message =>
                        rw [hparent] at hargs
                        cases hargs
                    | ok parent =>
                        rw [hparent] at hargs
                        cases hargs
                        exact contains_of_parentOf hparent hid
          next => cases hs'
      next => cases hs'
  | begin t now =>
      rw [State.step] at hs'
      split at hs'
      next call hphase =>
        have hbegun := h.begin hroom hphase (b := ⟨actor call.caller, (toolName call.tool).toList,
          call.purpose, call.parent, now⟩) rfl
        refine ⟨hbegun.call hs' fun hub hserves => ?_, ?_⟩
        · simp only [State.goto_self]
          refine ⟨s.log.length, _, List.getElem?_concat_length, rfl, rfl, fun c hc => ?_⟩
          obtain ⟨rfl, -⟩ := hserves c hc
          exact ⟨rfl, rfl⟩
        · obtain ⟨hub, -, rfl⟩ := Option.map_eq_some_iff.mp hs'
          simp only [List.length_append, List.length_singleton, le_refl]
      next => cases hs'
  | thread t next =>
      rw [State.step] at hs'
      refine ⟨h.thread (a := .thread t next)
        (fun hub hstep => ⟨moved_callStep hstep, fun hidle => ?_⟩) hs', ?_⟩
      · rw [Control.State.step, hidle] at hstep
        cases hstep
      · obtain ⟨hub, -, rfl⟩ := Option.map_eq_some_iff.mp hs'
        exact Nat.le_succ _
  | giveUp t =>
      rw [State.step] at hs'
      refine ⟨h.thread (a := .giveUp t)
        (fun hub hstep => ⟨moved_giveUp hstep, fun hidle => ?_⟩) hs', ?_⟩
      · rw [Control.State.step, hidle] at hstep
        cases hstep
      · obtain ⟨hub, -, rfl⟩ := Option.map_eq_some_iff.mp hs'
        exact Nat.le_succ _
  | done i =>
      rw [State.step] at hs'
      obtain ⟨hub, hstep, rfl⟩ := Option.map_eq_some_iff.mp hs'
      have hhub := h.hub.step hstep
      cases hstep
      exact ⟨⟨hhub, h.journal, h.capacity, fun u => (h.calls u).congr rfl rfl, h.distinct, h.opened,
        h.trail, h.recorded, h.parents⟩, Nat.le_succ _⟩
  | finish t outcome refs now =>
      rw [State.step] at hs'
      split at hs'
      next id hphase =>
        split at hs' <;> cases hs'
        next hidle =>
          refine ⟨h.finish hphase hidle ⟨outcome.text, refs, now⟩ outcome.text_ne, ?_⟩
          have hok := h.calls t
          rw [hphase] at hok
          obtain ⟨op, a, ha, rfl, -⟩ := hok
          simp only
          rw [Archive.updateFirst_eq_modify h.journal.nodup ha, List.length_modify]
          exact Nat.le_succ _
      next => cases hs'

omit [DecidableEq τ] in
theorem State.init_inv : (State.init τ).Inv where
  hub := Control.State.init_inv
  journal := .new _
  capacity := rfl
  calls _ c hc := by cases hc
  distinct _ _ _ ht := by cases ht
  opened _ _ ha := by cases ha
  trail := rfl
  recorded _ _ hi := absurd hi List.not_mem_nil
  parents _ _ _ ha := by cases ha

/-- A run keeps the invariant, while there are ids left. -/
theorem State.Inv.run {as : List (Action τ)} {s s' : State τ} (h : s.Inv)
    (hroom : s.log.length + as.length + 2 ≤ 2 ^ 64) (hs' : run State.step s as = some s') :
    s'.Inv := by
  induction as generalizing s with
  | nil =>
      cases hs'
      exact h
  | cons a as ih =>
      obtain ⟨u, hu, hs'⟩ := Transition.run_cons_eq_some.mp hs'
      rw [List.length_cons] at hroom
      obtain ⟨hinv, hle⟩ := h.step (by omega) hu
      exact ih hinv (by omega) hs'

/-- The audit trail is complete in every state of every run. -/
theorem audit_complete {as : List (Action τ)} (hfew : as.length + 2 ≤ 2 ^ 64) :
    Always State.step State.Audited (State.init τ) as := by
  intro pre s hpre hrun
  have hle := hpre.length_le
  exact (State.init_inv.run (by simp only [State.init, List.length_nil]; omega) hrun).audited

/-- The AI reads memory, while a human hands over to it, and the client of the Agent gives up. -/
def overlapping : List (Action (Fin 2)) :=
  [.request 0 .ai .memoryRead none (fun _ => none) true,
    .request 1 .trustedHuman .controlHandoffToAi (some .aiAutonomous) (fun _ => none) true,
    .begin 1 ['1'], .begin 0 ['2'], .thread 0 (some .memoryRead), .thread 1 none,
    .giveUp 0, .thread 1 none, .thread 0 none, .finish 0 .error .null ['3'], .done 0]

theorem audit_complete_overlapping :
    (∃ s, run State.step (State.init (Fin 2)) overlapping = some s) ∧
      Always State.step State.Audited (State.init (Fin 2)) overlapping :=
  ⟨⟨_, rfl⟩, audit_complete (by decide)⟩

end PinBridge.Audit
