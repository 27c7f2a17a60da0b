import PinBridge.Lib.LittleEndian
import PinBridge.Scripts.Replies
import PinBridge.Stepping.Stepper
import Mathlib.Data.List.Destutter

/-!
# Step requests

`handle_step` of `query_server.rs` steps a thread of the stopped application.  It
decodes the instruction of the thread and arms the addresses at which the thread can
continue, or for a step over a call the address behind the call.  When nothing can be
armed so, it arms the fallback.  Then it arms the watchdog of the breaker and asks the
breaker to resume.

A request that fails should leave no trace (`LeavesNoTrace`).  It leaves one exactly
when the resume is refused, or when it fails before it touches a step that was armed
before (`handleStep_leavesNoTrace_iff`): the watchdog stays armed on all paths, and on
the fallback path the step too.
-/

namespace PinBridge.Stepping

open Scripts (statusBadRequest statusInternal)

/-! ## The stopped application -/

/-- `PbFlowInsn`, as `handle_step` reads it. -/
structure FlowInsn where
  size : UInt32
  kind : UInt32
  conditional : Bool
  hasTarget : Bool
  indReg : Bool
  indMem : Bool
  baseReg : Int
  indexReg : Int
  scale : UInt64
  disp : UInt64
  target : UInt64

/-- What the stopped application and Pin answer to `handle_step`. -/
structure Target where
  is64 : Bool
  /-- `pb_pin_get_stopped_thread_context` gives a context. -/
  context : UInt32 → Bool
  /-- `pb_pin_get_context_reg` on the context of a thread. -/
  contextReg : UInt32 → UInt32 → Option UInt64
  /-- The bytes `pb_pin_safe_copy` copies. -/
  safeCopy : UInt64 → Nat → List UInt8
  /-- `pb_disassemble_flow`. -/
  disassembleFlow : List UInt8 → UInt64 → Option FlowInsn
  pin : PinAnswers

/-- `arch::pointer_width`. -/
def Target.pointerWidth (a : Target) : Nat := if a.is64 then 8 else 4

/-- `arch::instr_ptr_reg`: `PB_REG_RIP` or `PB_REG_EIP`. -/
def Target.instrPtrReg (a : Target) : UInt32 := if a.is64 then 26 else 58

/-- `arch::stack_ptr_reg`: `PB_REG_RSP` or `PB_REG_ESP`. -/
def Target.stackPtrReg (a : Target) : UInt32 := if a.is64 then 6 else 51

/-- `read_reg`. -/
def Target.readReg (a : Target) (tid : UInt32) (reg : Int) : Option UInt64 :=
  if reg < 0 then none else a.contextReg tid (UInt32.ofNat reg.toNat)

/-- `read_mem_ptr`. -/
def Target.readMemPtr (a : Target) (address : UInt64) : Option UInt64 :=
  let copied := a.safeCopy address a.pointerWidth
  if copied.length = a.pointerWidth then some (UInt64.ofNat (LittleEndian.decode copied)) else none

/-- `value & u32::MAX as u64` on a 32-bit target. -/
def Target.wrap (a : Target) (value : UInt64) : UInt64 :=
  if a.pointerWidth = 4 then value &&& 0xFFFFFFFF else value

/-- `next_ip`. -/
def Target.nextIp (a : Target) (rip : UInt64) (size : UInt32) : UInt64 :=
  a.wrap (rip + size.toUInt64)

/-- `decoded` and `flow`. -/
def Target.decodeFlow (a : Target) (rip : UInt64) : Option FlowInsn :=
  let bytes := a.safeCopy rip 16
  if bytes = [] then none
  else (a.disassembleFlow bytes rip).filter fun flow => 0 < flow.size

/-- The address an indirect branch reads its target from. -/
def Target.effectiveAddress (a : Target) (tid : UInt32) (fallthrough : UInt64) (flow : FlowInsn) :
    Option UInt64 :=
  let base :=
    if flow.baseReg = (a.instrPtrReg.toNat : Int) then some fallthrough
    else a.readReg tid flow.baseReg
  base.map fun base =>
    a.wrap (base + (a.readReg tid flow.indexReg).getD 0 * flow.scale + flow.disp)

/-- The successors `handle_step` enumerates, sorted and without duplicates. -/
def Target.successors (a : Target) (tid : UInt32) (rip : UInt64) (flow : FlowInsn) : List UInt64 :=
  let fallthrough := a.nextIp rip flow.size
  let candidates : List UInt64 :=
    (if flow.kind = 0 || flow.conditional then [fallthrough] else []) ++
    (if flow.hasTarget then [flow.target] else []) ++
    (if flow.indReg then (a.readReg tid flow.baseReg).toList else []) ++
    (if flow.indMem then
      ((a.effectiveAddress tid fallthrough flow).bind a.readMemPtr).toList else []) ++
    (if flow.kind = 3 then
      ((a.readReg tid a.stackPtrReg.toNat).bind a.readMemPtr).toList else [])
  (candidates.mergeSort fun x y => decide (x ≤ y)).destutter (· ≠ ·)

/-! ## The request -/

/-- What a request asks for, once its thread was found. -/
inductive Plan where
  /-- Step over the call at `rip`. -/
  | stepOver (tid : UInt32) (rip fallthrough : UInt64)
  /-- Step to one of the successors of the instruction at `rip`. -/
  | decoded (tid : UInt32) (rip : UInt64) (candidates : List UInt64)
  /-- The instruction at `rip` was not decoded. -/
  | fallback (tid : UInt32) (rip : UInt64)
deriving DecidableEq, Repr

/-- The payload of `STEP`: the thread and the flag of a step over. -/
def stepPayload (payload : List UInt8) : Option (UInt32 × Bool) :=
  match payload with
  | b0 :: b1 :: b2 :: b3 :: mode :: _ =>
      some (UInt32.ofNat (LittleEndian.decode [b0, b1, b2, b3]), mode ≠ 0)
  | _ => none

/-- The first part of `handle_step`; `none` is a bad request. -/
def plan (a : Target) (stopped : Bool) (payload : List UInt8) : Option Plan := do
  let (tid, overCall) ← stepPayload payload
  if !stopped then none
  else if !a.context tid then none
  else
    let rip ← a.readReg tid a.instrPtrReg.toNat
    match a.decodeFlow rip with
    | some flow =>
        if overCall && flow.kind = 2 then some (.stepOver tid rip (a.nextIp rip flow.size))
        else some (.decoded tid rip (a.successors tid rip flow))
    | none => some (.fallback tid rip)

/-! ## Arming and resuming -/

/-- The statics a step request writes.  `turns` counts the turns of the breaker loop; no
code reads it. -/
structure State where
  stepper : Stepper
  /-- `WATCHDOG_TICKS` -/
  watchdog : Nat
  /-- `STOPPED` -/
  stopped : Bool
  turns : Nat

/-- What `control_command(CMD_RESUME)` does: the turns of the breaker until it returns,
each of which counts the watchdog down, and its result. -/
structure Resume where
  turns : Nat
  result : Bool
deriving DecidableEq, Repr

/-- `arm_step_watchdog`. -/
def State.armStepWatchdog (s : State) (ticks : Nat) : State := { s with watchdog := ticks }

/-- `control_command(CMD_RESUME)`. -/
def State.controlCommand (s : State) (r : Resume) : Bool × State :=
  (r.result, { s with
    watchdog := s.watchdog - r.turns
    turns := s.turns + r.turns
    stopped := s.stopped && !r.result })

/-- `stepper::cancel`. -/
def State.cancel (s : State) : State := { s with stepper := s.stepper.cancel }

/-- The body of a reply: `Ok(vec![1])` or the status of an error. -/
abbrev Reply : Type := Except UInt8 (List UInt8)

/-- The path of a step over a call. -/
def State.stepOver (a : Target) (r : Resume) (s : State) (tid : UInt32) (rip fallthrough : UInt64) :
    Reply × State :=
  match s.stepper.armCandidates a.pin tid rip [fallthrough] with
  | (none, p) => (.error statusInternal, { s with stepper := p })
  | (some _, p) =>
      match ({ s with stepper := p }.armStepWatchdog 100).controlCommand r with
      | (true, s) => (.ok [1], s)
      | (false, s) => (.error statusInternal, s.cancel)

/-- The path of the fallback. -/
def State.stepFallback (a : Target) (r : Resume) (s : State) (tid : UInt32) (rip : UInt64) :
    Reply × State :=
  match s.stepper.arm a.pin tid rip with
  | (false, p) => (.error statusInternal, { s with stepper := p })
  | (true, p) =>
      match ({ s with stepper := p }.armStepWatchdog 100).controlCommand r with
      | (true, s) => (.ok [1], s)
      | (false, s) => (.error statusInternal, s)

/-- The path of a decoded instruction. -/
def State.stepDecoded (a : Target) (r : Resume) (s : State) (tid : UInt32) (rip : UInt64)
    (candidates : List UInt64) : Reply × State :=
  match s.stepper.armCandidates a.pin tid rip candidates with
  | (none, p) => { s with stepper := p }.stepFallback a r tid rip
  | (some _, p) =>
      match ({ s with stepper := p }.armStepWatchdog 100).controlCommand r with
      | (true, s) => (.ok [1], s)
      | (false, s) => (.error statusInternal, s.cancel)

/-- `handle_step`. -/
def handleStep (a : Target) (r : Resume) (payload : List UInt8) (s : State) : Reply × State :=
  match plan a s.stopped payload with
  | none => (.error statusBadRequest, s)
  | some (.stepOver tid rip fallthrough) => s.stepOver a r tid rip fallthrough
  | some (.decoded tid rip candidates) => s.stepDecoded a r tid rip candidates
  | some (.fallback tid rip) => s.stepFallback a r tid rip

/-! ## What arming leaves behind -/

/-- Pin lets the candidates be armed, and there is one. -/
def armable (pin : PinAnswers) (tid : UInt32) (candidates : List UInt64) : Bool :=
  !candidates.isEmpty && pin.passthrough tid &&
    (candidates.take maxCandidates).all pin.invalidate

/-- Arming at least one candidate succeeds, or ends with a cancelled step. -/
theorem Stepper.armCandidates_cons (pin : PinAnswers) (p : Stepper) (tid : UInt32)
    (startIp : UInt64) (c : UInt64) (cs : List UInt64) :
    if armable pin tid (c :: cs) then
      ∃ count p', p.armCandidates pin tid startIp (c :: cs) = (some count, p')
    else ∃ q : Stepper, p.armCandidates pin tid startIp (c :: cs) = (none, q.cancel) := by
  obtain ⟨n, hn⟩ : ∃ n, min (c :: cs).length maxCandidates = n + 1 :=
    ⟨min cs.length 2, by simp only [List.length_cons, maxCandidates]; omega⟩
  have htake : (c :: cs).take (n + 1) = (c :: cs).take maxCandidates := by
    rw [← hn, Nat.min_comm]
    exact List.take_eq_take_min.symm
  simp only [armable, Stepper.armCandidates, Stepper.publishCandidates, hn, Stepper.armTfCompat]
  cases hpass : pin.passthrough tid with
  | false => exact ⟨_, rfl⟩
  | true =>
      simp only [htake]
      cases hall : ((c :: cs).take maxCandidates).all pin.invalidate with
      | false => exact ⟨_, rfl⟩
      | true => exact ⟨_, _, rfl⟩

theorem Stepper.armCandidates_some {pin : PinAnswers} {p : Stepper} {tid : UInt32}
    (startIp : UInt64) {candidates : List UInt64} (h : armable pin tid candidates = true) :
    ∃ count p', p.armCandidates pin tid startIp candidates = (some count, p') := by
  cases candidates with
  | nil => cases h
  | cons c cs =>
      have harm := p.armCandidates_cons pin tid startIp c cs
      rwa [if_pos h] at harm

/-- Candidates that cannot be armed leave no step behind.  Only a thread that had
passthrough before keeps it when there is no candidate at all. -/
theorem Stepper.armCandidates_none {pin : PinAnswers} {p : Stepper} {tid : UInt32}
    (startIp : UInt64) {candidates : List UInt64} (h : armable pin tid candidates = false) :
    ∃ p', p.armCandidates pin tid startIp candidates = (none, p') ∧ p'.stepping = false ∧
      p'.candidateCount = 0 ∧ (candidates ≠ [] → p'.tfCompatTid = invalidThreadId) := by
  cases candidates with
  | nil => exact ⟨_, rfl, rfl, rfl, fun hne => absurd rfl hne⟩
  | cons c cs =>
      have harm := p.armCandidates_cons pin tid startIp c cs
      rw [if_neg (by rw [h]; exact Bool.false_ne_true)] at harm
      obtain ⟨q, hq⟩ := harm
      exact ⟨q.cancel, hq, rfl, rfl, fun _ => rfl⟩

/-! ## Requests that fail -/

/-- If the request failed, no step is armed in the end, and the watchdog is as it was in
the beginning but for the turns of the breaker. -/
def Clean (s : State) (out : Reply × State) : Prop :=
  ∀ e, out.1 = .error e →
    ¬out.2.stepper.Armed ∧ out.2.watchdog = s.watchdog - (out.2.turns - s.turns)

/-- A request that fails leaves no trace. -/
def LeavesNoTrace (a : Target) (r : Resume) (payload : List UInt8) (s : State) : Prop :=
  Clean s (handleStep a r payload s)

/-- The resume is refused, and the watchdog was not armed as it is now. -/
def Resume.Refused (r : Resume) (s : State) : Prop :=
  r.result = false ∧ 100 - r.turns ≠ s.watchdog - r.turns

/-- The request fails with something left behind. -/
def TraceLeft (a : Target) (r : Resume) (payload : List UInt8) (s : State) : Prop :=
  match plan a s.stopped payload with
  | none => s.stepper.Armed
  | some (.stepOver tid _ fallthrough) => armable a.pin tid [fallthrough] = true ∧ r.Refused s
  | some (.decoded tid _ candidates) =>
      if armable a.pin tid candidates then r.Refused s
      else a.pin.passthrough tid = true ∧ r.result = false
  | some (.fallback tid _) =>
      if a.pin.passthrough tid then r.result = false
      else s.stepper.stepping = true ∨ s.stepper.candidateCount ≠ 0

variable {a : Target} {r : Resume} {s : State}

theorem Clean.ok {out : Reply × State} {body : List UInt8} (h : out.1 = .ok body) :
    Clean s out := by
  intro e he
  rw [h] at he
  cases he

/-- A failure before the watchdog is armed. -/
theorem clean_error_iff {e : UInt8} {p : Stepper} :
    Clean s (.error e, { s with stepper := p }) ↔ ¬p.Armed := by
  constructor
  · intro h
    exact (h e rfl).1
  · intro h _ _
    refine ⟨h, ?_⟩
    rw [Nat.sub_self]
    rfl

/-- The end of the two decoded paths, where a refused resume cancels the step. -/
theorem clean_resume_iff {p : Stepper} :
    Clean s (match ({ s with stepper := p }.armStepWatchdog 100).controlCommand r with
      | (true, s) => (.ok [1], s)
      | (false, s) => (.error statusInternal, s.cancel)) ↔ ¬r.Refused s := by
  obtain ⟨turns, result⟩ := r
  have hturns : s.turns + turns - s.turns = turns := Nat.add_sub_cancel_left ..
  cases result with
  | true =>
      have hnot : ¬Resume.Refused ⟨turns, true⟩ s := fun h => nomatch h.1
      exact iff_of_true (Clean.ok rfl) hnot
  | false =>
      rw [Resume.Refused, and_iff_right rfl, not_ne_iff]
      constructor
      · intro h
        have hw := (h statusInternal rfl).2
        simpa [State.controlCommand, State.armStepWatchdog, State.cancel, hturns] using hw
      · intro h _ _
        refine ⟨p.cancel_not_armed, ?_⟩
        simpa [State.controlCommand, State.armStepWatchdog, State.cancel, hturns] using h

theorem stepOver_clean_iff {tid : UInt32} {rip fallthrough : UInt64} :
    Clean s (s.stepOver a r tid rip fallthrough) ↔
      ¬(armable a.pin tid [fallthrough] = true ∧ r.Refused s) := by
  cases harm : armable a.pin tid [fallthrough] with
  | false =>
      obtain ⟨p, hp, hstep, hcount, htf⟩ := s.stepper.armCandidates_none rip harm
      have hquiet : ¬p.Armed := by
        simp [Stepper.Armed, hstep, hcount, htf (List.cons_ne_nil _ _)]
      rw [State.stepOver, hp]
      exact iff_of_true (clean_error_iff.mpr hquiet) fun h => (by cases h.1)
  | true =>
      obtain ⟨count, p, hp⟩ := s.stepper.armCandidates_some rip harm
      rw [State.stepOver, hp, and_iff_right rfl]
      exact clean_resume_iff

/-- The fallback leaves the step armed when the resume is refused, and does not touch a
step that was armed before when Pin refuses. -/
theorem stepFallback_clean_iff {tid : UInt32} {rip : UInt64} :
    Clean s (s.stepFallback a r tid rip) ↔
      ¬if a.pin.passthrough tid then r.result = false
        else s.stepper.stepping = true ∨ s.stepper.candidateCount ≠ 0 := by
  cases hpass : a.pin.passthrough tid with
  | false =>
      have harm : s.stepper.arm a.pin tid rip =
          (false, { s.stepper with tfCompatTid := invalidThreadId }) := by
        rw [Stepper.arm, Stepper.armTfCompat, hpass]
        rfl
      rw [State.stepFallback, harm]
      refine clean_error_iff.trans ?_
      simp [Stepper.Armed]
  | true =>
      rw [State.stepFallback, Stepper.arm, Stepper.armTfCompat, hpass]
      obtain ⟨turns, result⟩ := r
      cases result with
      | true => exact iff_of_true (Clean.ok rfl) (by simp)
      | false =>
          refine iff_of_false (fun h => ?_) (by simp)
          exact (h statusInternal rfl).1 (.inl rfl)

theorem stepDecoded_clean_iff {tid : UInt32} {rip : UInt64} {candidates : List UInt64} :
    Clean s (s.stepDecoded a r tid rip candidates) ↔
      ¬if armable a.pin tid candidates then r.Refused s
        else a.pin.passthrough tid = true ∧ r.result = false := by
  cases harm : armable a.pin tid candidates with
  | false =>
      obtain ⟨p, hp, hstep, hcount, -⟩ := s.stepper.armCandidates_none rip harm
      have hfallback : Clean s (State.stepFallback a r { s with stepper := p } tid rip) ↔ _ :=
        stepFallback_clean_iff
      rw [State.stepDecoded, hp]
      refine hfallback.trans (not_congr ?_)
      cases a.pin.passthrough tid with
      | false => simp [hstep, hcount]
      | true => simp
  | true =>
      obtain ⟨count, p, hp⟩ := s.stepper.armCandidates_some rip harm
      rw [State.stepDecoded, hp, if_pos rfl]
      exact clean_resume_iff

/-- A failing step leaves no trace exactly when neither the resume is refused nor a step
that was armed before is left alone. -/
theorem handleStep_leavesNoTrace_iff (a : Target) (r : Resume) (payload : List UInt8) (s : State) :
    LeavesNoTrace a r payload s ↔ ¬TraceLeft a r payload s := by
  unfold LeavesNoTrace TraceLeft handleStep
  cases plan a s.stopped payload with
  | none => exact clean_error_iff (p := s.stepper)
  | some plan =>
      cases plan with
      | stepOver tid rip fallthrough => exact stepOver_clean_iff
      | decoded tid rip candidates => exact stepDecoded_clean_iff
      | fallback tid rip => exact stepFallback_clean_iff

/-! ## A failing request -/

/-- A stopped application with no step armed and the watchdog off. -/
def stoppedQuiet : State := ⟨.init, 0, true, 0⟩

/-- A thread in front of a `nop` at `0x1000`, whose code is readable or not. -/
def atNop (readable : Bool) : Target where
  is64 := true
  context tid := tid = 0
  contextReg _ reg := if reg = 26 then some 0x1000 else none
  safeCopy address _ := if readable && address = 0x1000 then [0x90] else []
  disassembleFlow bytes _ :=
    if bytes = [0x90] then some ⟨1, 0, false, false, false, false, -1, -1, 0, 0, 0⟩ else none
  pin := ⟨fun _ => true, fun _ => true⟩

/-- A refused resume leaves the watchdog armed, and on the fallback path the step. -/
theorem refused_step_leaves_trace :
    ¬LeavesNoTrace (atNop true) ⟨1, false⟩ [0, 0, 0, 0, 0] stoppedQuiet ∧
      ¬LeavesNoTrace (atNop false) ⟨1, false⟩ [0, 0, 0, 0, 0] stoppedQuiet ∧
      (handleStep (atNop true) ⟨1, false⟩ [0, 0, 0, 0, 0] stoppedQuiet).2.watchdog = 99 ∧
      (handleStep (atNop false) ⟨1, false⟩ [0, 0, 0, 0, 0] stoppedQuiet).2.stepper.stepping =
        true := by
  have hdecoded : plan (atNop true) true [0, 0, 0, 0, 0] = some (.decoded 0 0x1000 [0x1001]) := by
    decide +kernel
  have hfallback : plan (atNop false) true [0, 0, 0, 0, 0] = some (.fallback 0 0x1000) := by
    decide +kernel
  have hwatchdog :
      (handleStep (atNop true) ⟨1, false⟩ [0, 0, 0, 0, 0] stoppedQuiet).2.watchdog = 99 := by
    decide +kernel
  have hstepping : (handleStep (atNop false) ⟨1, false⟩ [0, 0, 0, 0, 0]
      stoppedQuiet).2.stepper.stepping = true := by
    decide +kernel
  refine ⟨fun h => ?_, fun h => ?_, hwatchdog, hstepping⟩
  · have herror : (handleStep (atNop true) ⟨1, false⟩ [0, 0, 0, 0, 0] stoppedQuiet).1 =
        .error statusInternal := by
      rw [handleStep, show stoppedQuiet.stopped = true from rfl, hdecoded]
      rfl
    have hsame := (h _ herror).2
    rw [hwatchdog] at hsame
    simp [stoppedQuiet] at hsame
  · have herror : (handleStep (atNop false) ⟨1, false⟩ [0, 0, 0, 0, 0] stoppedQuiet).1 =
        .error statusInternal := by
      rw [handleStep, show stoppedQuiet.stopped = true from rfl, hfallback]
      rfl
    exact (h _ herror).1 (.inl hstepping)

/-! ## After a request that left no trace -/

/-- What can stop the application after a resume on behalf of a step. -/
inductive Callback where
  /-- `on_exec` of a thread at an instruction; `parks` says whether it gets the park slot. -/
  | exec (tid : UInt32) (address : UInt64) (parks : Bool)
  /-- A private callback of a step. -/
  | landing (tid : UInt32) (index : Fin maxCandidates)
  /-- A turn of the breaker. -/
  | turn

/-- `on_step_hit_ctx`: whether the step is claimed. -/
def Stepper.onStepHit (p : Stepper) (tid : UInt32) (index : Fin maxCandidates) : Bool × Stepper :=
  let address := p.candidateAddress index
  match if address = 0 then (false, p) else p.consumeStartReplay tid address with
  | (true, p) => (false, p)
  | (false, p) => ((p.claimCandidate index tid).1.isSome, (p.claimCandidate index tid).2)

/-- One callback: whether it asks for a stop. -/
def State.callback (s : State) : Callback → Bool × State
  | .exec tid address parks =>
      let (stops, p) := s.stepper.onStepEvent tid address parks
      (stops, { s with stepper := p })
  | .landing tid index =>
      let (stops, p) := s.stepper.onStepHit tid index
      (stops, { s with stepper := p })
  | .turn => (s.watchdog = 1 && !s.stopped, { s with watchdog := s.watchdog - 1 })

/-- Whether one of the callbacks asks for a stop. -/
def State.stopsIn (s : State) : List Callback → Bool
  | [] => false
  | c :: cs => (s.callback c).1 || (s.callback c).2.stopsIn cs

/-- Nothing is armed, and the watchdog is off. -/
def State.Quiet (s : State) : Prop := ¬s.stepper.Armed ∧ s.watchdog = 0

theorem State.Quiet.callback {s : State} (h : s.Quiet) (c : Callback) :
    (s.callback c).1 = false ∧ (s.callback c).2.Quiet := by
  obtain ⟨harmed, hw⟩ := h
  obtain ⟨hstep, hcount, htf⟩ : s.stepper.stepping = false ∧ s.stepper.candidateCount = 0 ∧
      s.stepper.tfCompatTid = invalidThreadId := by
    simpa [Stepper.Armed] using harmed
  cases c with
  | exec tid address parks =>
      have hevent : s.stepper.onStepEvent tid address parks = (false, s.stepper) := by
        rw [Stepper.onStepEvent, hstep]
        rfl
      rw [State.callback, hevent]
      exact ⟨rfl, harmed, hw⟩
  | landing tid index =>
      have hhit : s.stepper.onStepHit tid index = (false, s.stepper) := by
        simp [Stepper.onStepHit, Stepper.candidateAddress, Stepper.claimCandidate, hcount]
      rw [State.callback, hhit]
      exact ⟨rfl, harmed, hw⟩
  | turn =>
      rw [State.callback, hw]
      exact ⟨rfl, harmed, rfl⟩

/-- After a request that left nothing armed, no step and no watchdog stops a resume. -/
theorem State.Quiet.stopsIn {s : State} (h : s.Quiet) (cs : List Callback) :
    s.stopsIn cs = false := by
  induction cs generalizing s with
  | nil => rfl
  | cons c cs ih =>
      obtain ⟨hstops, hquiet⟩ := h.callback c
      rw [State.stopsIn, hstops, ih hquiet]
      rfl

end PinBridge.Stepping
