import Mathlib.Data.List.Basic
import Mathlib.Logic.Function.Basic

/-!
# The stepper

The statics of `stepper.rs` and the functions that arm, claim and cancel a step.  A
step is armed in one of two ways.  The fallback (`arm`) waits for the next executed
instruction of its thread.  A decoded step (`armCandidates`) publishes the addresses at
which its thread can continue, and a private callback at one of them claims it.

Arming calls Pin, which may refuse: `passthrough` says for which threads single-step
passthrough can be switched on, `invalidate` at which addresses instrumentation can be
removed.
-/

namespace PinBridge.Stepping

/-- `PB_INVALID_THREAD_ID`. -/
def invalidThreadId : UInt32 := 0xFFFFFFFF

/-- `MAX_CANDIDATES`. -/
abbrev maxCandidates : Nat := 3

/-- `STEP_MODE`. -/
inductive Mode where
  | into
  | over
  | candidates
deriving DecidableEq, Repr

/-- The statics of a step. -/
structure Stepper where
  /-- `STEP_TID` -/
  tid : UInt32
  /-- `STEP_START_IP` -/
  startIp : UInt64
  /-- `STEP_MODE` -/
  mode : Mode
  /-- `STEPPING` -/
  stepping : Bool
  /-- `REPLAY_PENDING` -/
  replayPending : Bool
  /-- `TF_COMPAT_TID` -/
  tfCompatTid : UInt32
  /-- `CANDIDATE_COUNT` -/
  candidateCount : Nat
  /-- `CANDIDATES` -/
  candidates : Fin maxCandidates → UInt64

/-- The statics before the first step. -/
def Stepper.init : Stepper :=
  ⟨invalidThreadId, 0, .into, false, false, invalidThreadId, 0, fun _ => 0⟩

/-- What Pin answers while a step is armed. -/
structure PinAnswers where
  /-- `pb_pin_set_single_step_passthrough(tid, 1)` -/
  passthrough : UInt32 → Bool
  /-- `pb_pin_remove_instrumentation_in_range(address, address + 15)` -/
  invalidate : UInt64 → Bool

/-! ## Arming -/

/-- `arm_tf_compat`. -/
def Stepper.armTfCompat (pin : PinAnswers) (p : Stepper) (tid : UInt32) : Bool × Stepper :=
  if pin.passthrough tid then (true, { p with tfCompatTid := tid })
  else (false, { p with tfCompatTid := invalidThreadId })

/-- `arm` with `over` false. -/
def Stepper.arm (pin : PinAnswers) (p : Stepper) (tid : UInt32) (startIp : UInt64) :
    Bool × Stepper :=
  match p.armTfCompat pin tid with
  | (false, p) => (false, p)
  | (true, p) =>
      (true, { p with
        tid := tid
        startIp := startIp
        mode := .into
        replayPending := true
        candidateCount := 0
        stepping := true })

/-- `publish_candidates`: the count, and the statics. -/
def Stepper.publishCandidates (p : Stepper) (tid : UInt32) (startIp : UInt64)
    (candidates : List UInt64) : Nat × Stepper :=
  let count := min candidates.length maxCandidates
  (count, { p with
    candidates := fun index => candidates[index.val]?.getD 0
    tid := tid
    startIp := startIp
    mode := .candidates
    replayPending := true
    candidateCount := count
    stepping := count != 0 })

/-- `cancel`. -/
def Stepper.cancel (p : Stepper) : Stepper :=
  { p with
    tfCompatTid := invalidThreadId
    stepping := false
    replayPending := false
    candidateCount := 0
    candidates := fun _ => 0 }

/-- `arm_candidates`: the count of the candidates that are armed, or an error. -/
def Stepper.armCandidates (pin : PinAnswers) (p : Stepper) (tid : UInt32) (startIp : UInt64)
    (candidates : List UInt64) : Option Nat × Stepper :=
  match p.publishCandidates tid startIp candidates with
  | (0, p) => (none, p)
  | (count, p) =>
      match p.armTfCompat pin tid with
      | (false, p) => (none, p.cancel)
      | (true, p) =>
          if (candidates.take count).all pin.invalidate then (some count, p) else (none, p.cancel)

/-! ## Landing -/

/-- `candidate_address`. -/
def Stepper.candidateAddress (p : Stepper) (index : Fin maxCandidates) : UInt64 :=
  if index.val ≥ p.candidateCount then 0 else p.candidates index

/-- `consume_start_replay`. -/
def Stepper.consumeStartReplay (p : Stepper) (tid : UInt32) (address : UInt64) : Bool × Stepper :=
  if !p.stepping || p.tid ≠ tid || p.startIp ≠ address then (false, p)
  else (p.replayPending, { p with replayPending := false })

/-- `disarm_tf_compat`. -/
def Stepper.disarmTfCompat (p : Stepper) (tid : UInt32) : Stepper :=
  if p.tfCompatTid = tid then { p with tfCompatTid := invalidThreadId } else p

/-- `claim_candidate`. -/
def Stepper.claimCandidate (p : Stepper) (index : Fin maxCandidates) (tid : UInt32) :
    Option UInt64 × Stepper :=
  if index.val ≥ p.candidateCount || p.mode ≠ .candidates || p.tid ≠ tid then (none, p)
  else if p.candidates index = 0 || !p.stepping then (none, p)
  else (some (p.candidates index), { p with stepping := false }.disarmTfCompat tid)

/-- `on_step_event`: whether a stop is asked for.  `parks` says whether the thread gets the
park slot, where the step ends. -/
def Stepper.onStepEvent (p : Stepper) (tid : UInt32) (address : UInt64) (parks : Bool) :
    Bool × Stepper :=
  if !p.stepping || p.tid ≠ tid then (false, p)
  else
    match p.consumeStartReplay tid address with
    | (true, p) => (false, p)
    | (false, p) =>
        if p.mode ≠ .into then (false, p)
        else
          let p := p.disarmTfCompat tid
          (true, if parks then { p with stepping := false } else p)

/-! ## Quiet and armed -/

/-- A step is armed: it runs, it has candidates, or a thread has passthrough. -/
def Stepper.Armed (p : Stepper) : Prop :=
  p.stepping = true ∨ p.candidateCount ≠ 0 ∨ p.tfCompatTid ≠ invalidThreadId

instance (p : Stepper) : Decidable p.Armed :=
  inferInstanceAs (Decidable (_ ∨ _ ∨ _))

theorem Stepper.cancel_not_armed (p : Stepper) : ¬p.cancel.Armed := by
  simp [Stepper.Armed, Stepper.cancel]

end PinBridge.Stepping
