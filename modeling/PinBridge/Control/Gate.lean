import PinBridge.Control.Tools
import PinBridge.Lib.RwLock
import PinBridge.Lib.Sizes
import PinBridge.Lib.Transition

/-!
# The control gate

A call of a tool that writes holds the read side of the gate from before its
permission check until its last operation of the Agent has returned.  Handoff, pause and
takeover change the mode with the write side in hand, and takeover pauses the target
before it lets go.  So a mode that has been checked stays for the whole call.

A program counter names the next step of a call, and any number of calls are under way.
An operation of the Agent is issued in one step and returns in another.  The client gives
up after a while, and then the Agent may go on with what nobody waits for any more.  What
has been issued, what outlives its call, and the last call that has taken the gate are kept
next to the state.

`gate_exclusive` says when an operation that changes something is issued, that the AI waits
for none once a human has taken the gate, and that what goes on nevertheless was given up
before.  Two things are not as exclusive as they could be: a tool outside `is_write` issues
an operation, the takeover itself, and an operation of the AI can outlive its call
(`takeover_pauses_operation_outlives`).
-/

namespace PinBridge.Control

open Transition (run Always)
open scoped Sizes

variable {τ : Type*}

/-! ## State -/

/-- A call that takes the gate. -/
inductive ModeChange where
  | handoff (caller : Caller) (mode : ControlMode)
  | pause (caller : Caller)
  | takeover (caller : Caller)
  deriving DecidableEq, Repr

/-- The mode a call leaves. -/
def ModeChange.mode : ModeChange → ControlMode
  | .handoff _ mode => mode
  | .pause _ => .automationPaused
  | .takeover _ => .manual

/-- The next step of a call. -/
inductive CallPc where
  /-- No call. -/
  | idle
  /-- `gate.write` for a call that changes the mode. -/
  | takeGate (change : ModeChange)
  /-- `state.write` and the assignment. -/
  | assign (change : ModeChange)
  /-- `agent.pause` of the takeover. -/
  | takeoverPause (caller : Caller)
  /-- The takeover waits for its pause. -/
  | takeoverPausing (caller : Caller)
  /-- The write side is dropped. -/
  | dropGate
  /-- `write_guard`. -/
  | writeGuard (caller : Caller) (tool : Tool)
  /-- `ensure_ai_write` or `ensure_human_write`. -/
  | ensure (caller : Caller) (tool : Tool)
  /-- The body of the tool. -/
  | body (caller : Caller) (tool : Tool)
  /-- The body waits for an operation of the Agent. -/
  | operation (caller : Caller) (tool : Tool) (method : AgentMethod)
  deriving DecidableEq, Repr

/-- An operation of the Agent and what held when it was issued, or when its call gave up. -/
structure Issue where
  caller : Caller
  tool : Tool
  method : AgentMethod
  mode : ControlMode
  /-- The last call that had taken the gate. -/
  last : Option ModeChange
  deriving DecidableEq, Repr

/-- The Hub and the calls under way. -/
structure State (τ : Type*) where
  mode : ControlMode
  previous : Option ControlMode
  gate : RwLock τ
  threads : τ → CallPc
  /-- The last call that has taken the gate. -/
  last : Option ModeChange
  issued : List Issue
  /-- What the Agent may still execute although the client has given up. -/
  outlived : List Issue

/-- `HubService::new`. -/
def State.init (τ : Type*) : State τ where
  mode := .manual
  previous := none
  gate := .free
  threads _ := .idle
  last := none
  issued := []
  outlived := []

variable [DecidableEq τ]

def State.goto (s : State τ) (t : τ) (pc : CallPc) : State τ :=
  { s with threads := Function.update s.threads t pc }

/-- An operation of the Agent is issued. -/
def State.issue (s : State τ) (caller : Caller) (tool : Tool) (method : AgentMethod) : State τ :=
  { s with issued := ⟨caller, tool, method, s.mode, s.last⟩ :: s.issued }

/-! ## Steps -/

/-- The permission check of `handoff`, `pause_automation` and `begin_takeover`. -/
def ModeChange.allowed : ModeChange → Bool
  | .handoff caller mode =>
      caller.actor = .human && caller.trusted &&
        (mode = .aiReadOnly || mode = .aiAssist || mode = .aiAutonomous)
  | .pause caller | .takeover caller => caller.actor = .human && caller.trusted

/-- Where `HubService::call` leads.  `mode` is the mode in the arguments. -/
def start (caller : Caller) (tool : Tool) (mode : Option ControlMode) : CallPc :=
  match tool with
  | .eventsNewest => if caller.actor = .ai then .idle else .body caller tool
  | .activityList | .activityGet => .idle
  | _ =>
      if caller.actor = .system ∧ tool.isWrite = false then .body caller tool
      else
        match tool, mode with
        | .controlHandoffToAi, some mode =>
            if (ModeChange.handoff caller mode).allowed then .takeGate (.handoff caller mode)
            else .idle
        | .controlHandoffToAi, none => .idle
        | .controlTakeoverManual, _ =>
            if (ModeChange.takeover caller).allowed then .takeGate (.takeover caller) else .idle
        | .controlPauseAutomation, _ =>
            if (ModeChange.pause caller).allowed then .takeGate (.pause caller) else .idle
        | _, _ => if tool.isWrite then .writeGuard caller tool else .body caller tool

/-- `ensure_ai_write`, `ensure_human_write` and the refusal of the system. -/
def ensureWrite (mode : ControlMode) (caller : Caller) : Bool :=
  match caller.actor with
  | .ai => mode.aiCanWrite
  | .human => mode = .manual
  | .system => false

/-- The guard of a write is dropped with the call. -/
def State.leave (s : State τ) (t : τ) (tool : Tool) : State τ :=
  { s.goto t .idle with gate := if tool.isWrite then s.gate.unread t else s.gate }

/-- The next step of a call.  `next` is the operation the body issues next, `none` when
it returns. -/
def State.callStep (s : State τ) (t : τ) (next : Option AgentMethod) : CallPc → Option (State τ)
  | .idle => none
  | .takeGate change =>
      (s.gate.write t).map fun gate =>
        { s.goto t (.assign change) with gate := gate, last := some change }
  | .assign (.handoff _ mode) =>
      some { s.goto t .dropGate with mode := mode, previous := none }
  | .assign (.pause _) =>
      some { s.goto t .dropGate with
        mode := .automationPaused,
        previous := if s.mode = .automationPaused then s.previous else some s.mode }
  | .assign (.takeover caller) =>
      some { s.goto t (.takeoverPause caller) with mode := .manual, previous := some s.mode }
  | .takeoverPause caller =>
      some ((s.issue caller .controlTakeoverManual .pause).goto t (.takeoverPausing caller))
  | .takeoverPausing _ => some (s.goto t .dropGate)
  | .dropGate => some { s.goto t .idle with gate := s.gate.unwrite }
  | .writeGuard caller tool =>
      (s.gate.read t).map fun gate => { s.goto t (.ensure caller tool) with gate := gate }
  | .ensure caller tool =>
      if ensureWrite s.mode caller then some (s.goto t (.body caller tool))
      else some (s.leave t tool)
  | .body caller tool =>
      match next with
      | none => some (s.leave t tool)
      | some method =>
          if method ∈ tool.methods ∧ tool.refuses caller = false then
            some ((s.issue caller tool method).goto t (.operation caller tool method))
          else none
  | .operation caller tool _ => some (s.goto t (.body caller tool))

/-- The client of the Agent gives up, and the call goes on with an error. -/
def State.giveUp (s : State τ) (t : τ) : CallPc → Option (State τ)
  | .operation caller tool method =>
      some { s.goto t (.body caller tool) with
        outlived := ⟨caller, tool, method, s.mode, s.last⟩ :: s.outlived }
  | .takeoverPausing caller =>
      some { s.goto t .dropGate with
        outlived := ⟨caller, .controlTakeoverManual, .pause, s.mode, s.last⟩ :: s.outlived }
  | _ => none

inductive Action (τ : Type*) where
  /-- `HubService::call` with a tool.  `accepted` is false when the arguments are refused
  before anything else. -/
  | call (t : τ) (caller : Caller) (tool : Tool) (mode : Option ControlMode) (accepted : Bool)
  /-- The next step of a call. -/
  | thread (t : τ) (next : Option AgentMethod)
  /-- The client of the Agent times out, or its connection breaks. -/
  | giveUp (t : τ)
  /-- The Agent is done with an operation that has outlived its call. -/
  | done (i : Nat)
  deriving DecidableEq, Repr

/-- A step of the Hub. -/
def State.step (s : State τ) : Action τ → Option (State τ)
  | .call t caller tool mode accepted =>
      if s.threads t = .idle then
        some (s.goto t (if accepted then start caller tool mode else .idle))
      else none
  | .thread t next => s.callStep t next (s.threads t)
  | .giveUp t => s.giveUp t (s.threads t)
  | .done i => some { s with outlived := s.outlived.eraseIdx i }

/-! ## What holds -/

/-- Who may change something, and when. -/
def Issue.Allowed (i : Issue) : Prop :=
  match i.caller.actor with
  | .ai => i.mode = .aiAutonomous ∧ ∃ caller, i.last = some (.handoff caller .aiAutonomous) ∧
      caller.actor = .human ∧ caller.trusted = true
  | .human => i.mode = .manual
  | .system => False

/-- The operation a call waits for. -/
def CallPc.executing : CallPc → Option (Caller × AgentMethod)
  | .operation caller _ method => some (caller, method)
  | .takeoverPausing caller => some (caller, .pause)
  | _ => none

/-- A pause or a takeover. -/
def ModeChange.takes : ModeChange → Bool
  | .handoff .. => false
  | .pause _ | .takeover _ => true

/-- The gate is exclusive. -/
structure State.Exclusive (s : State τ) : Prop where
  /-- The AI changes something only after a trusted handoff that still holds, a human
  only in Manual, and the system never. -/
  issued : ∀ i ∈ s.issued, i.method.changes = true → i.Allowed
  /-- From the moment a human has taken the gate, the AI waits for nothing that it issued. -/
  drained : ∀ change, s.last = some change → change.takes = true →
    ∀ t caller method, (s.threads t).executing = some (caller, method) →
      method.changes = true → caller.actor ≠ .ai
  /-- What outlives its call was given up in the mode and under the handoff in which it was
  issued. -/
  outlived : ∀ i ∈ s.outlived, i.method.changes = true → i ∈ s.issued
  /-- What is not in `is_write` changes nothing, but for the pause of a takeover. -/
  listed : ∀ i ∈ s.issued, i.method.changes = true → i.tool.isWrite = true ∨
    i.tool = .controlTakeoverManual ∧ i.method = .pause ∧ i.mode = .manual
  /-- A takeover pauses alone. -/
  alone : ∀ t caller, s.threads t = .takeoverPausing caller →
    s.gate.writer = some t ∧ s.mode = .manual

/-! ## The invariant -/

/-- The mode the last call left. -/
def modeAfter : Option ModeChange → ControlMode
  | none => .manual
  | some change => change.mode

/-- What a call that writes knows while it holds the read side. -/
def State.Reads (s : State τ) (t : τ) (caller : Caller) (tool : Tool) : Prop :=
  tool.isWrite = true → t ∈ s.gate.readers ∧ ensureWrite s.mode caller = true

/-- What a call knows. -/
def State.CallKnows (s : State τ) (t : τ) : CallPc → Prop
  | .idle => True
  | .takeGate change => change.allowed = true
  | .assign change => s.gate.writer = some t ∧ s.last = some change
  | .takeoverPause caller =>
      s.gate.writer = some t ∧ s.last = some (.takeover caller) ∧ s.mode = .manual
  | .takeoverPausing caller =>
      s.gate.writer = some t ∧ s.last = some (.takeover caller) ∧ s.mode = .manual ∧
        ⟨caller, .controlTakeoverManual, .pause, s.mode, s.last⟩ ∈ s.issued
  | .dropGate => s.gate.writer = some t ∧ s.mode = modeAfter s.last
  | .writeGuard _ tool => tool.isWrite = true
  | .ensure _ tool => tool.isWrite = true ∧ t ∈ s.gate.readers
  | .body caller tool => s.Reads t caller tool
  | .operation caller tool method => method ∈ tool.methods ∧ s.Reads t caller tool ∧
      (tool.isWrite = true → ⟨caller, tool, method, s.mode, s.last⟩ ∈ s.issued)

/-- What holds in every run. -/
structure State.Inv (s : State τ) : Prop where
  calls : ∀ t, s.CallKnows t (s.threads t)
  /-- Nobody is about to change the mode unless somebody holds the gate alone. -/
  free : s.gate.writer = none → s.mode = modeAfter s.last
  allowed : ∀ change, s.last = some change → change.allowed = true
  issued : ∀ i ∈ s.issued, i.method.changes = true → i.Allowed
  listed : ∀ i ∈ s.issued, i.method.changes = true → i.tool.isWrite = true ∨
    i.tool = .controlTakeoverManual ∧ i.method = .pause ∧ i.mode = .manual
  outlived : ∀ i ∈ s.outlived, i.method.changes = true → i ∈ s.issued

omit [DecidableEq τ] in
/-- A reader keeps writers out. -/
theorem State.writer_eq_none {s : State τ} {t : τ} (h : t ∈ s.gate.readers) :
    s.gate.writer = none := by
  cases hw : s.gate.writer with
  | none => rfl
  | some u => exact absurd h (RwLock.not_mem_readers hw)

/-- The AI writes after a handoff. -/
theorem ModeChange.eq_handoff {last : Option ModeChange}
    (hallowed : ∀ change, last = some change → change.allowed = true)
    (hmode : modeAfter last = .aiAutonomous) :
    ∃ caller, last = some (.handoff caller .aiAutonomous) ∧ caller.actor = .human ∧
      caller.trusted = true := by
  cases last with
  | none => cases hmode
  | some change =>
      cases change with
      | handoff caller mode =>
          cases (show mode = .aiAutonomous from hmode)
          have ha := hallowed _ rfl
          exact ⟨caller, rfl, by simpa [ModeChange.allowed] using ha⟩
      | pause caller => cases hmode
      | takeover caller => cases hmode

omit [DecidableEq τ] in
/-- A call that writes may change something. -/
theorem State.Inv.allowed_of_reads {s : State τ} (h : s.Inv) {t : τ} {caller : Caller}
    {tool : Tool} {m : AgentMethod} (hreads : s.Reads t caller tool)
    (hwrite : tool.isWrite = true) :
    Issue.Allowed ⟨caller, tool, m, s.mode, s.last⟩ := by
  obtain ⟨hmem, hensure⟩ := hreads hwrite
  have hmode := h.free (State.writer_eq_none hmem)
  rw [ensureWrite] at hensure
  rw [Issue.Allowed]
  show match caller.actor with | .ai => _ | .human => _ | .system => _
  cases hactor : caller.actor with
  | ai =>
      rw [hactor] at hensure
      have hauto : s.mode = .aiAutonomous := by simpa [ControlMode.aiCanWrite] using hensure
      exact ⟨hauto, ModeChange.eq_handoff h.allowed (hmode ▸ hauto)⟩
  | human =>
      rw [hactor] at hensure
      simpa using hensure
  | system =>
      rw [hactor] at hensure
      cases hensure

omit [DecidableEq τ] in
theorem State.Inv.exclusive {s : State τ} (h : s.Inv) : s.Exclusive where
  issued := h.issued
  listed := h.listed
  outlived := h.outlived
  alone t caller hpc := by
    have hknows := h.calls t
    rw [hpc] at hknows
    exact ⟨hknows.1, hknows.2.2.1⟩
  drained change hlast htakes t caller method hexec hchanges hai := by
    have hknows := h.calls t
    cases hpc : s.threads t with
    | operation caller' tool method' =>
        rw [hpc] at hexec hknows
        cases hexec
        have hwrite := Tool.isWrite_of_changes hknows.1 hchanges
        have hallowed := h.allowed_of_reads (m := method) hknows.2.1 hwrite
        rw [Issue.Allowed, hai] at hallowed
        obtain ⟨-, caller', hhandoff, -⟩ := hallowed
        cases hlast.symm.trans hhandoff
        cases htakes
    | takeoverPausing caller' =>
        rw [hpc] at hexec hknows
        cases hexec
        have ha := h.allowed _ hknows.2.1
        rw [ModeChange.allowed, hai] at ha
        cases ha
    | _ =>
        rw [hpc] at hexec
        cases hexec

/-! ## Steps -/

omit [DecidableEq τ] in
/-- A call goes on knowing what it knows. -/
theorem State.CallKnows.congr {s s' : State τ} {t : τ} {pc : CallPc} (h : s.CallKnows t pc)
    (hwriter : s.gate.writer = some t → s'.gate.writer = some t ∧ s'.last = s.last ∧
      s'.mode = s.mode)
    (hreader : t ∈ s.gate.readers → t ∈ s'.gate.readers ∧ s'.last = s.last ∧
      s'.mode = s.mode)
    (hissued : ∀ i ∈ s.issued, i ∈ s'.issued) : s'.CallKnows t pc := by
  have hreads : ∀ {caller : Caller} {tool : Tool}, s.Reads t caller tool →
      s'.Reads t caller tool := fun hr hw => by
    obtain ⟨hmem, hensure⟩ := hr hw
    obtain ⟨hmem', -, hmode⟩ := hreader hmem
    exact ⟨hmem', hmode ▸ hensure⟩
  cases pc with
  | idle => trivial
  | takeGate change => exact h
  | assign change =>
      obtain ⟨hw, hl, -⟩ := hwriter h.1
      exact ⟨hw, hl ▸ h.2⟩
  | takeoverPause caller =>
      obtain ⟨hw, hl, hm⟩ := hwriter h.1
      exact ⟨hw, hl ▸ h.2.1, hm ▸ h.2.2⟩
  | takeoverPausing caller =>
      obtain ⟨hw, hl, hm⟩ := hwriter h.1
      refine ⟨hw, hl ▸ h.2.1, hm ▸ h.2.2.1, ?_⟩
      rw [hl, hm]
      exact hissued _ h.2.2.2
  | dropGate =>
      obtain ⟨hw, hl, hm⟩ := hwriter h.1
      exact ⟨hw, by rw [hl, hm]; exact h.2⟩
  | writeGuard caller tool => exact h
  | ensure caller tool => exact ⟨h.1, (hreader h.2).1⟩
  | body caller tool => exact hreads h
  | operation caller tool method =>
      refine ⟨h.1, hreads h.2.1, fun hw => ?_⟩
      obtain ⟨-, hl, hm⟩ := hreader (h.2.1 hw).1
      rw [hl, hm]
      exact hissued _ (h.2.2 hw)

variable {s s' : State τ} {t : τ}

/-- A call moves, and the others go on. -/
theorem State.Inv.move (h : s.Inv) {p : CallPc}
    (hthreads : s'.threads = Function.update s.threads t p) (hself : s'.CallKnows t p)
    (hwriter : ∀ u, u ≠ t → s.gate.writer = some u → s'.gate.writer = some u ∧
      s'.last = s.last ∧ s'.mode = s.mode)
    (hreader : ∀ u, u ≠ t → u ∈ s.gate.readers → u ∈ s'.gate.readers ∧ s'.last = s.last ∧
      s'.mode = s.mode)
    (hfree : s'.gate.writer = none → s'.mode = modeAfter s'.last)
    (hallowed : ∀ change, s'.last = some change → change.allowed = true)
    (hkept : ∀ i ∈ s.issued, i ∈ s'.issued)
    (hissued : ∀ i ∈ s'.issued, i ∈ s.issued ∨ (i.method.changes = true → i.Allowed ∧
      (i.tool.isWrite = true ∨
        i.tool = .controlTakeoverManual ∧ i.method = .pause ∧ i.mode = .manual)))
    (houtlived : ∀ i ∈ s'.outlived, i ∈ s.outlived ∨ (i.method.changes = true → i ∈ s.issued)) :
    s'.Inv where
  calls u := by
    rw [hthreads]
    rcases eq_or_ne u t with rfl | hu
    · rw [Function.update_self]
      exact hself
    · rw [Function.update_of_ne hu]
      exact (h.calls u).congr (hwriter u hu) (hreader u hu) hkept
  free := hfree
  allowed := hallowed
  issued i hi hc := (hissued i hi).elim (fun hm => h.issued i hm hc) fun hn => (hn hc).1
  listed i hi hc := (hissued i hi).elim (fun hm => h.listed i hm hc) fun hn => (hn hc).2
  outlived i hi hc := hkept i <| (houtlived i hi).elim (fun hm => h.outlived i hm hc) fun hn => hn hc

/-- A call moves and issues nothing. -/
theorem State.Inv.pass (h : s.Inv) {p : CallPc}
    (hthreads : s'.threads = Function.update s.threads t p) (hself : s'.CallKnows t p)
    (hwriter : ∀ u, u ≠ t → s.gate.writer = some u → s'.gate.writer = some u ∧
      s'.last = s.last ∧ s'.mode = s.mode)
    (hreader : ∀ u, u ≠ t → u ∈ s.gate.readers → u ∈ s'.gate.readers ∧ s'.last = s.last ∧
      s'.mode = s.mode)
    (hfree : s'.gate.writer = none → s'.mode = modeAfter s'.last)
    (hallowed : ∀ change, s'.last = some change → change.allowed = true)
    (hissued : s'.issued = s.issued) (houtlived : s'.outlived = s.outlived) : s'.Inv :=
  h.move hthreads hself hwriter hreader hfree hallowed (fun _ hi => hissued ▸ hi)
    (fun _ hi => .inl (hissued ▸ hi)) fun _ hi => .inl (houtlived ▸ hi)

/-- A call moves and leaves the gate and the mode. -/
theorem State.Inv.goto (h : s.Inv) {pc : CallPc} (hself : s.CallKnows t pc) : (s.goto t pc).Inv :=
  h.pass rfl (hself.congr (fun hw => ⟨hw, rfl, rfl⟩) (fun hr => ⟨hr, rfl, rfl⟩) fun _ hi => hi)
    (fun _ _ hw => ⟨hw, rfl, rfl⟩) (fun _ _ hr => ⟨hr, rfl, rfl⟩) h.free h.allowed rfl rfl

/-- A call moves, and the Agent goes on with what it has been waiting for. -/
theorem State.Inv.outlive (h : s.Inv) {pc : CallPc} {i : Issue} (hself : s.CallKnows t pc)
    (hi : i.method.changes = true → i ∈ s.issued) :
    State.Inv { s.goto t pc with outlived := i :: s.outlived } := by
  refine h.move rfl (hself.congr (fun hw => ⟨hw, rfl, rfl⟩) (fun hr => ⟨hr, rfl, rfl⟩)
    fun _ hj => hj) (fun _ _ hw => ⟨hw, rfl, rfl⟩) (fun _ _ hr => ⟨hr, rfl, rfl⟩) h.free h.allowed
    (fun _ hj => hj) (fun _ hj => .inl hj) fun j hj => ?_
  obtain rfl | hj := List.mem_cons.mp hj
  · exact .inr hi
  · exact .inl hj

/-- A call that is over drops its guard. -/
theorem State.Inv.leave (h : s.Inv) {tool : Tool} : (s.leave t tool).Inv := by
  refine h.pass (p := .idle) rfl trivial (fun u hu hw => ?_) (fun u hu hr => ?_) (fun hw => ?_)
    h.allowed rfl rfl
  · refine ⟨?_, rfl, rfl⟩
    rw [State.leave]
    split <;> exact hw
  · refine ⟨?_, rfl, rfl⟩
    rw [State.leave]
    split
    · exact RwLock.mem_unread hu hr
    · exact hr
  · refine h.free ?_
    rw [State.leave] at hw
    split at hw <;> exact hw

/-- The holder of the gate changes the mode. -/
theorem State.Inv.assign (h : s.Inv) {pc : CallPc} {change : ModeChange}
    {previous : Option ControlMode} (hknows : s.CallKnows t (.assign change))
    (hself : State.CallKnows { s.goto t pc with mode := change.mode, previous := previous } t pc) :
    State.Inv { s.goto t pc with mode := change.mode, previous := previous } := by
  refine h.pass (p := pc) rfl hself (fun u hu hw => ?_) (fun u _ hr => ?_) (fun hw => ?_) h.allowed
    rfl rfl
  · exact absurd (Option.some.inj (hw.symm.trans hknows.1)) hu
  · exact absurd hr (RwLock.not_mem_readers hknows.1)
  · cases hknows.1.symm.trans hw

/-- A step of a call. -/
theorem State.Inv.callStep (h : s.Inv) {next : Option AgentMethod}
    (hs' : s.callStep t next (s.threads t) = some s') : s'.Inv := by
  have hknows := h.calls t
  cases hpc : s.threads t with
  | idle =>
      rw [hpc] at hs'
      cases hs'
  | takeGate change =>
      rw [hpc] at hs' hknows
      obtain ⟨gate, hgate, rfl⟩ := Option.map_eq_some_iff.mp hs'
      obtain ⟨hw, hr, hw', hr'⟩ := RwLock.write_eq_some hgate
      refine h.pass (p := .assign change) rfl ⟨hw', rfl⟩ (fun u _ hu => ?_) (fun u _ hu => ?_)
        (fun hn => ?_) (fun c hc => ?_) rfl rfl
      · cases hw.symm.trans hu
      · rw [hr] at hu
        cases hu
      · cases hw'.symm.trans hn
      · cases hc
        exact hknows
  | assign change =>
      rw [hpc] at hs' hknows
      cases change with
      | handoff caller mode =>
          cases hs'
          exact h.assign hknows ⟨hknows.1, by show mode = modeAfter s.last; rw [hknows.2]; rfl⟩
      | pause caller =>
          cases hs'
          refine h.assign hknows ⟨hknows.1, ?_⟩
          show ControlMode.automationPaused = modeAfter s.last
          rw [hknows.2]
          rfl
      | takeover caller =>
          cases hs'
          exact h.assign hknows ⟨hknows.1, hknows.2, rfl⟩
  | takeoverPause caller =>
      rw [hpc] at hs' hknows
      cases hs'
      have ha := h.allowed _ hknows.2.1
      have hactor : caller.actor = .human := by
        rw [ModeChange.allowed, Bool.and_eq_true] at ha
        simpa using ha.1
      refine h.move (p := .takeoverPausing caller) rfl
        ⟨hknows.1, hknows.2.1, hknows.2.2, List.mem_cons_self⟩ (fun _ _ hw => ⟨hw, rfl, rfl⟩)
        (fun _ _ hr => ⟨hr, rfl, rfl⟩) h.free h.allowed (fun _ hi => List.mem_cons_of_mem _ hi)
        (fun i hi => ?_) fun _ hi => .inl hi
      obtain rfl | hi := List.mem_cons.mp hi
      · refine .inr fun _ => ⟨?_, .inr ⟨rfl, rfl, hknows.2.2⟩⟩
        rw [Issue.Allowed, hactor]
        exact hknows.2.2
      · exact .inl hi
  | takeoverPausing caller =>
      rw [hpc] at hs' hknows
      cases hs'
      exact h.goto ⟨hknows.1, by rw [hknows.2.1]; exact hknows.2.2.1⟩
  | dropGate =>
      rw [hpc] at hs' hknows
      cases hs'
      refine h.pass (p := .idle) rfl trivial (fun u hu hw => ?_) (fun u _ hr => ?_)
        (fun _ => hknows.2) h.allowed rfl rfl
      · exact absurd (Option.some.inj (hw.symm.trans hknows.1)) hu
      · exact absurd hr (RwLock.not_mem_readers hknows.1)
  | writeGuard caller tool =>
      rw [hpc] at hs' hknows
      obtain ⟨gate, hgate, rfl⟩ := Option.map_eq_some_iff.mp hs'
      obtain ⟨hw, hw', hr'⟩ := RwLock.read_eq_some hgate
      refine h.pass (p := .ensure caller tool) rfl ⟨hknows, ?_⟩ (fun u _ hu => ?_)
        (fun u _ hu => ⟨?_, rfl, rfl⟩) (fun _ => h.free hw) h.allowed rfl rfl
      · show t ∈ gate.readers
        rw [hr']
        exact List.mem_cons_self
      · cases hw.symm.trans hu
      · show u ∈ gate.readers
        rw [hr']
        exact List.mem_cons_of_mem t hu
  | ensure caller tool =>
      rw [hpc] at hknows
      rw [hpc, State.callStep] at hs'
      split at hs' <;> cases hs'
      next hensure => exact h.goto fun _ => ⟨hknows.2, hensure⟩
      next => exact h.leave
  | body caller tool =>
      rw [hpc] at hs' hknows
      cases next with
      | none =>
        cases hs'
        exact h.leave
      | some method =>
        rw [State.callStep] at hs'
        split at hs' <;> cases hs'
        next hmethod =>
          refine h.move (p := .operation caller tool method) rfl
            ⟨hmethod.1, hknows, fun _ => List.mem_cons_self⟩ (fun _ _ hw => ⟨hw, rfl, rfl⟩)
            (fun _ _ hr => ⟨hr, rfl, rfl⟩) h.free h.allowed
            (fun _ hi => List.mem_cons_of_mem _ hi) (fun i hi => ?_) fun _ hi => .inl hi
          obtain rfl | hi := List.mem_cons.mp hi
          · refine .inr fun hchanges => ?_
            have hwrite := Tool.isWrite_of_changes hmethod.1 hchanges
            exact ⟨h.allowed_of_reads hknows hwrite, .inl hwrite⟩
          · exact .inl hi
  | operation caller tool method =>
      rw [hpc] at hs' hknows
      cases hs'
      exact h.goto hknows.2.1

/-- The client of the Agent gives up. -/
theorem State.Inv.giveUp (h : s.Inv) (hs' : s.giveUp t (s.threads t) = some s') : s'.Inv := by
  have hknows := h.calls t
  cases hpc : s.threads t with
  | operation caller tool method =>
      rw [hpc] at hs' hknows
      cases hs'
      exact h.outlive hknows.2.1 fun hchanges =>
        hknows.2.2 (Tool.isWrite_of_changes hknows.1 hchanges)
  | takeoverPausing caller =>
      rw [hpc] at hs' hknows
      cases hs'
      exact h.outlive ⟨hknows.1, by rw [hknows.2.1]; exact hknows.2.2.1⟩ fun _ => hknows.2.2.2
  | _ =>
      rw [hpc] at hs'
      cases hs'

omit [DecidableEq τ] in
/-- What a call that has just begun knows. -/
theorem State.start_knows {caller : Caller} {tool : Tool} {mode : Option ControlMode} :
    s.CallKnows t (start caller tool mode) := by
  have hbody : tool.isWrite = false → s.CallKnows t (.body caller tool) := fun hf hw => by
    rw [hf] at hw
    cases hw
  have hwrites : s.CallKnows t (if tool.isWrite then .writeGuard caller tool
      else .body caller tool) := by
    split
    next hw => exact hw
    next hw => exact hbody (by simpa using hw)
  have htake : ∀ change : ModeChange,
      s.CallKnows t (if change.allowed then .takeGate change else .idle) := fun change => by
    split
    next ha => exact ha
    next => trivial
  unfold start
  split
  next =>
    split
    · trivial
    · exact hbody rfl
  next => trivial
  next => trivial
  next =>
    split
    next hsystem => exact hbody hsystem.2
    next =>
      split
      next => exact htake _
      next => trivial
      next => exact htake _
      next => exact htake _
      next => exact hwrites

omit [DecidableEq τ] in
theorem State.init_inv : (State.init τ).Inv where
  calls _ := trivial
  free _ := rfl
  allowed _ hlast := by cases hlast
  issued _ hi := absurd hi List.not_mem_nil
  listed _ hi := absurd hi List.not_mem_nil
  outlived _ hi := absurd hi List.not_mem_nil

/-- A step keeps the invariant. -/
theorem State.Inv.step (h : s.Inv) {a : Action τ} (hs' : s.step a = some s') : s'.Inv := by
  cases a with
  | call t caller tool mode accepted =>
      rw [State.step] at hs'
      split at hs' <;> cases hs'
      refine h.goto ?_
      split
      · exact State.start_knows
      · trivial
  | thread t next => exact h.callStep hs'
  | giveUp t => exact h.giveUp hs'
  | done i =>
      cases hs'
      exact ⟨fun t => (h.calls t).congr (fun hw => ⟨hw, rfl, rfl⟩) (fun hr => ⟨hr, rfl, rfl⟩)
        fun _ hj => hj, h.free, h.allowed, h.issued, h.listed,
        fun j hj => h.outlived j (List.mem_of_mem_eraseIdx hj)⟩

/-- The gate is exclusive in every state of every run. -/
theorem gate_exclusive (as : List (Action τ)) :
    Always State.step State.Exclusive (State.init τ) as := by
  intro bs s _ hrun
  exact (Transition.run_invariant (fun h hs' => h.step hs') State.init_inv hrun).exclusive

/-- The human hands over, the AI loads a script, the client gives up while the Agent waits for it,
and the human pauses automation. -/
def pausedWhileLoading : List (Action (Fin 2)) :=
  .call 0 .trustedHuman .controlHandoffToAi (some .aiAutonomous) true ::
    List.replicate 3 (.thread 0 none) ++
  .call 1 .ai .scriptInject none true :: List.replicate 2 (.thread 1 none) ++
  [.thread 1 (some .scriptLoad), .giveUp 1, .thread 1 none] ++
  .call 0 .trustedHuman .controlPauseAutomation none true :: List.replicate 3 (.thread 0 none)

/-- A takeover is called, and it pauses the target.  And what the AI has issued may go on when
automation is paused. -/
theorem takeover_pauses_operation_outlives :
    (run State.step (State.init (Fin 1)) (.call 0 .trustedHuman .controlTakeoverManual none true ::
      List.replicate 3 (.thread 0 none))).map (fun s => s.issued) =
        some [⟨.trustedHuman, .controlTakeoverManual, .pause, .manual,
          some (.takeover .trustedHuman)⟩] ∧
      AgentMethod.pause.changes = true ∧ Tool.controlTakeoverManual.isWrite = false ∧
      (run State.step (State.init (Fin 2)) pausedWhileLoading).map
          (fun s => (s.mode, s.last, s.outlived)) =
        some (.automationPaused, some (.pause .trustedHuman), [⟨.ai, .scriptInject, .scriptLoad,
          .aiAutonomous, some (.handoff .trustedHuman .aiAutonomous)⟩]) ∧
      AgentMethod.scriptLoad.changes = true := by
  decide

end PinBridge.Control
