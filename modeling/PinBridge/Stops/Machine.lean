import PinBridge.Breakpoints.Table
import PinBridge.Traps.Step

/-!
# Stops and resumes

Breakpoints (`bp.rs`), steps (`stepper.rs`) and execution traps (`execution_trap.rs`) stop the
application in the same way.  Their callbacks run before the instruction.  `exact_stop` notes the
last hit and, when the park stub is free, redirects the thread, so that the instruction does not
execute and the breaker thread can put the thread back in front of it.  A resume lets the thread
attempt the instruction a second time, and one of three mechanisms may keep that attempt from
being another hit: `RESUME_SKIP` after a plain resume, `REPLAY_PENDING` after a step, and nothing
for execution traps.

One step is an attempt of one thread at its next instruction, a compilation, or a command.  The
callbacks run in the order of `on_ins`: breakpoint or step landing, trap, `on_exec`.  The
instruction executes if none of them has redirected the thread.  The breakpoint callback has the
slot that `on_ins` found when the instruction was compiled.  A one-shot hit retires its slot and
leaves the code as it is, so `cache` keeps the slots that the compiled code of an instruction
still has, and an attempt runs one of them.

What the model does not decide is an argument of the attempt: where the instruction leads, which
code the thread runs, whether the stub can be entered, whether a landing callback of an earlier
step is still in the code, whether `on_exec` is there, and whether the thread may park in it.  A
parked thread is released before the world stops and then executes its instruction, so parking
only ends the step.  The calls of Pin succeed.  A `Log` is kept next to the state.  No step reads
it.
-/

namespace PinBridge.Stops

open Breakpoints (Table SlotIndex)
open Traps (Spec Trap)

/-! ## The stepper -/

/-- The statics of `stepper.rs`.  `candidates` are the first `CANDIDATE_COUNT` entries of
`CANDIDATES`, and `into` is `MODE_INTO` against `MODE_CANDIDATES`. -/
structure Stepper (τ : Type*) where
  tid : Option τ
  startIp : UInt64
  into : Bool
  stepping : Bool
  replayPending : Bool
  candidates : List UInt64
deriving DecidableEq

def Stepper.init {τ : Type*} : Stepper τ := ⟨none, 0, true, false, false, []⟩

/-- `MAX_CANDIDATES`. -/
abbrev maxCandidates : Nat := 3

variable {τ : Type*} [DecidableEq τ]

/-- `consume_start_replay` returns true. -/
def Stepper.replays (p : Stepper τ) (t : τ) (address : UInt64) : Bool :=
  p.stepping && p.tid == some t && p.startIp == address && p.replayPending

/-- `candidate_address`. -/
def Stepper.candidateAddress (p : Stepper τ) (index : Fin maxCandidates) : UInt64 :=
  p.candidates[index.val]?.getD 0

/-- `claim_candidate` returns the address. -/
def Stepper.claims (p : Stepper τ) (index : Fin maxCandidates) (t : τ) : Bool :=
  !p.into && p.tid == some t && p.candidateAddress index != 0 && p.stepping

/-- `claim_breakpoint`. -/
def Stepper.claimBreakpoint (p : Stepper τ) (t : τ) (address : UInt64) : Stepper τ :=
  if p.stepping && !p.into && p.candidates.contains address && p.tid == some t && address != 0 then
    { p with stepping := false }
  else p

/-- `arm_candidates`, or `arm` when there is no candidate. -/
def Stepper.arm (t : τ) (startIp : UInt64) (candidates : List UInt64) : Stepper τ where
  tid := some t
  startIp := startIp
  into := candidates.isEmpty
  stepping := true
  replayPending := true
  candidates := candidates.take maxCandidates

/-- `cancel`. -/
def Stepper.cancel (p : Stepper τ) : Stepper τ :=
  { p with stepping := false, replayPending := false, candidates := [] }

/-! ## The state -/

/-- What `on_hit_ctx` did with an execution. -/
inductive Verdict where
  /-- It reported the address of its slot. -/
  | reported (address : UInt64)
  /-- It returned at the test of `RESUME_SKIP`. -/
  | resumeSkip
  /-- It returned at `consume_start_replay`. -/
  | startReplay
  /-- The code has no callback there, or that of a slot that is not active. -/
  | missed
deriving DecidableEq, Repr

/-- An attempt at the instruction of a live breakpoint, or one at which `on_hit_ctx` finds its
slot active.  `address` is that of the instruction.  `stoppedAt` is where the thread stood at
the last stop, if this is its first attempt since.  `attempted` is the instruction that it was
redirected from, if it has executed nothing since. -/
structure Hit (τ : Type*) where
  thread : τ
  address : UInt64
  verdict : Verdict
  stoppedAt : Option UInt64
  attempted : Option UInt64
deriving DecidableEq, Repr

/-- An execution trap stop: the thread, the address, and how often the thread had executed the
instruction there when the stop was claimed. -/
structure TrapStop (τ : Type*) where
  thread : τ
  address : UInt64
  count : Nat
deriving DecidableEq, Repr

/-- `skipFresh` and `startFresh`: the thread of `RESUME_SKIP`, or of the step, has attempted
nothing since the resume.  `held t a`: a trap stop has been published with thread `t` redirected
in front of `a`, and `t` has not executed `a` since. -/
structure Log (τ : Type*) where
  skipFresh : Bool
  startFresh : Bool
  stoppedAt : τ → Option UInt64
  attempted : τ → Option UInt64
  hits : List (Hit τ)
  executions : τ → UInt64 → Nat
  held : τ → UInt64 → Bool
  trapStops : List (TrapStop τ)

/-- Whether the application runs.  `resuming`: it runs, but the breaker thread has not yet called
`on_resume`. -/
inductive Phase where
  | running
  | stopped
  | resuming
deriving DecidableEq, Repr

structure State (τ : Type*) where
  table : Table
  /-- The compiled code of each instruction since its last flush: the slots of the breakpoint
  callbacks in it.  An instruction can be compiled into several traces. -/
  cache : UInt64 → List (Option SlotIndex)
  /-- `set_impl` has stored a breakpoint at the address and has not flushed the code yet. -/
  unflushed : UInt64 → Bool
  /-- The live slots of the trap table. -/
  traps : List (Trap τ)
  /-- `STOP_CLAIMED`. -/
  stopClaimed : Bool
  /-- `PENDING_TID` and `PENDING_ADDRESS`, when `PENDING_MASK` is not zero. -/
  pending : Option (TrapStop τ)
  stepper : Stepper τ
  /-- `LAST_HIT_TID` and `LAST_HIT_ADDR`. -/
  lastHit : Option (τ × UInt64)
  /-- `RESUME_SKIP_TID` and `RESUME_SKIP_ADDR`. -/
  skip : Option (τ × UInt64)
  /-- `REDIRECT_TID` and `REDIRECT_ADDR`, when `REDIRECT_ACTIVE` is set. -/
  redirect : Option (τ × UInt64)
  /-- The next instruction of each thread.  That of a redirected thread is the address that
  `rewind_redirected` writes into its context. -/
  ips : τ → UInt64
  phase : Phase
  log : Log τ

def State.init (ips : τ → UInt64) : State τ where
  table := .init
  cache := fun _ => []
  unflushed := fun _ => false
  traps := []
  stopClaimed := false
  pending := none
  stepper := .init
  lastHit := none
  skip := none
  redirect := none
  ips := ips
  phase := .running
  log := ⟨false, false, fun _ => none, fun _ => none, [], fun _ _ => 0, fun _ _ => false, []⟩

/-! ## The callbacks -/

variable (is64 : Bool)

/-- A callback has redirected the thread, or the next one runs. -/
structure Outcome (τ : Type*) where
  state : State τ
  redirected : Bool

def Outcome.andThen (o : Outcome τ) (f : State τ → Outcome τ) : Outcome τ :=
  if o.redirected then o else f o.state

/-- `exact_stop`. -/
def State.exactStop (s : State τ) (t : τ) (address : UInt64) (redirects : Bool) : Outcome τ :=
  let s := { s with lastHit := some (t, address) }
  if redirects && s.redirect.isNone then
    ⟨{ s with
      redirect := some (t, address)
      ips := Function.update s.ips t address
      log := { s.log with attempted := Function.update s.log.attempted t (some (s.ips t)) } }, true⟩
  else ⟨s, false⟩

/-- The attempt is noted. -/
def State.note (s : State τ) (t : τ) (verdict : Verdict) : State τ :=
  { s with log := { s.log with
    hits := ⟨t, s.ips t, verdict, s.log.stoppedAt t, s.log.attempted t⟩ :: s.log.hits } }

/-- `on_hit_ctx` after the two replay tests. -/
def State.report (s : State τ) (t : τ) (i : SlotIndex) (redirects : Bool) : Outcome τ :=
  let slot := s.table.slots i
  let s := s.note t (.reported slot.address)
  let table := s.table.countHit i
  { s with
    table := if slot.oneShot then table.retire is64 i slot.used else table
    stepper := s.stepper.claimBreakpoint t slot.address }.exactStop t slot.address redirects

/-- `on_hit_ctx` on an active slot. -/
def State.onHit (s : State τ) (t : τ) (i : SlotIndex) (redirects : Bool) : Outcome τ :=
  let address := (s.table.slots i).address
  if s.stepper.replays t address then
    ⟨{ s.note t .startReplay with stepper := { s.stepper with replayPending := false } }, false⟩
  else
    match s.skip with
    | some (u, skipped) =>
        if u = t then
          if skipped = address then ⟨{ s.note t .resumeSkip with skip := none }, false⟩
          else { s with skip := none }.report is64 t i redirects
        else s.report is64 t i redirects
    | none => s.report is64 t i redirects

/-- `on_step_hit_ctx`. -/
def State.onStepHit (s : State τ) (t : τ) (index : Fin maxCandidates) (redirects : Bool) :
    Outcome τ :=
  let address := s.stepper.candidateAddress index
  if address != 0 && s.stepper.replays t address then
    ⟨{ s with stepper := { s.stepper with replayPending := false } }, false⟩
  else if s.stepper.claims index t then
    { s with stepper := { s.stepper with stepping := false } }.exactStop t address redirects
  else ⟨s, false⟩

/-- The live traps that thread `t` matches at its next instruction. -/
def State.matching (s : State τ) (t : τ) : List (Trap τ) :=
  s.traps.filter fun trap => trap.covers t (s.ips t)

/-- `on_execute` claims a stop. -/
def State.trapClaims (s : State τ) (t : τ) : Bool := !s.stopClaimed && !(s.matching t).isEmpty

/-- `on_execute`. -/
def State.onExecute (s : State τ) (t : τ) (redirects : Bool) : Outcome τ :=
  if s.trapClaims t then
    { s with
      traps := s.traps.filter fun trap => !(trap.oneShot && trap.covers t (s.ips t))
      stopClaimed := true
      pending := some ⟨t, s.ips t, s.log.executions t (s.ips t)⟩ }.exactStop t (s.ips t) redirects
  else ⟨s, false⟩

/-- `on_step_event`.  `parks`: `park_current` is granted. -/
def Stepper.onStepEvent (p : Stepper τ) (t : τ) (address : UInt64) (parks : Bool) : Stepper τ :=
  if p.stepping && p.tid == some t then
    if p.replays t address then { p with replayPending := false }
    else if p.into && parks then { p with stepping := false }
    else p
  else p

/-! ## Attempts -/

/-- What the model does not decide about an attempt. -/
structure Attempt where
  /-- Where the instruction leads. -/
  next : UInt64
  /-- The slot of the `on_hit_ctx` that the code has at the instruction. -/
  slot : Option SlotIndex
  /-- The park stub exists and the context can be written. -/
  redirects : Bool
  /-- The argument of the `on_step_hit_ctx` that the code has at the instruction otherwise. -/
  landing : Option (Fin maxCandidates)
  /-- The code has `on_exec` at the instruction. -/
  captured : Bool
  /-- `park_current` is granted. -/
  parks : Bool

/-- The instruction executes. -/
def State.execute (s : State τ) (t : τ) (next : UInt64) : State τ :=
  { s with
    ips := Function.update s.ips t next
    log := { s.log with
      attempted := Function.update s.log.attempted t none
      executions := Function.update s.log.executions t
        (Function.update (s.log.executions t) (s.ips t) (s.log.executions t (s.ips t) + 1))
      held := Function.update s.log.held t (Function.update (s.log.held t) (s.ips t) false) } }

/-- A live breakpoint stands at the address: it is in the table, and the code that was compiled
before it is gone. -/
def State.breaks (s : State τ) (address : UInt64) : Bool :=
  (s.table.position (Breakpoints.Slot.matches address)).isSome && !s.unflushed address

/-- The attempt is at a live breakpoint, or `on_hit_ctx` finds its slot active. -/
def State.strikes (s : State τ) (t : τ) (c : Attempt) : Bool :=
  s.breaks (s.ips t) || c.slot.any fun i => (s.table.slots i).active

/-- `on_hit_ctx` is not called, or returns at the test of `active`. -/
def State.pass (s : State τ) (t : τ) : State τ :=
  if s.breaks (s.ips t) then s.note t .missed else s

/-- The callback that `on_ins` inserts first. -/
def State.firstCallback (s : State τ) (t : τ) (c : Attempt) : Outcome τ :=
  match c.slot with
  | some i =>
      if (s.table.slots i).active then s.onHit is64 t i c.redirects else ⟨s.pass t, false⟩
  | none =>
      match c.landing with
      | some index => (s.pass t).onStepHit t index c.redirects
      | none => ⟨s.pass t, false⟩

/-- The callbacks of the instruction that can redirect the thread. -/
def State.callbacks (s : State τ) (t : τ) (c : Attempt) : Outcome τ :=
  (s.firstCallback is64 t c).andThen fun s => s.onExecute t c.redirects

/-- The instruction, when no callback has redirected the thread. -/
def State.proceed (s : State τ) (t : τ) (c : Attempt) : State τ :=
  { s with
    stepper := if c.captured then s.stepper.onStepEvent t (s.ips t) c.parks else s.stepper }.execute
      t c.next

/-- The log after an attempt of thread `t`. -/
def State.logAttempt (s : State τ) (t : τ) : State τ :=
  { s with log := { s.log with
    skipFresh := s.log.skipFresh && !(s.skip.any fun p => p.1 == t)
    startFresh := s.log.startFresh && s.stepper.tid != some t
    stoppedAt := Function.update s.log.stoppedAt t none } }

/-- Thread `t` attempts its next instruction. -/
def State.attempt (s : State τ) (t : τ) (c : Attempt) : State τ :=
  let o := s.callbacks is64 t c
  (if o.redirected then o.state else o.state.proceed t c).logAttempt t

/-! ## Commands -/

/-- The breaker thread stops the world: `rewind_redirected`, `cancel` and `publish_stopped`. -/
def State.stop (s : State τ) : State τ :=
  { s with
    stepper := s.stepper.cancel
    pending := none
    phase := .stopped
    log := { s.log with
      stoppedAt := fun t => some (s.ips t)
      trapStops := s.pending.toList ++ s.log.trapStops
      held := fun t address => s.log.held t address ||
        s.pending.any fun p => p.thread == t && p.address == address &&
          s.redirect == some (t, address) } }

/-- `arm_resume_skip`. -/
def State.armedSkip (s : State τ) : Option (τ × UInt64) :=
  s.lastHit.filter fun p => s.ips p.1 == p.2

/-- `handle_resume` up to the resume of the application. -/
def State.resume (s : State τ) : State τ :=
  { s with
    skip := s.armedSkip
    redirect := none
    phase := .resuming
    log := { s.log with skipFresh := true } }

/-- `handle_step` of thread `t` up to the resume of the application. -/
def State.step (s : State τ) (t : τ) (candidates : List UInt64) : State τ :=
  { s with
    stepper := .arm t (s.ips t) candidates
    redirect := none
    phase := .resuming
    log := { s.log with startFresh := true } }

/-- The rest of the resume: `on_resume`, and `LAST_HIT` is cleared. -/
def State.resumed (s : State τ) : State τ :=
  { s with stopClaimed := false, pending := none, lastHit := none, phase := .running }

/-! ## The code -/

/-- `on_ins` at an instruction. -/
def State.compile (s : State τ) (address : UInt64) : State τ :=
  { s with cache := Function.update s.cache address (s.table.find address :: s.cache address) }

/-- `set_impl` up to its flush. -/
def State.setBreakpoint (s : State τ) (address : UInt64) (oneShot : Bool) : State τ :=
  { s with
    table := (s.table.set is64 address oneShot).1
    unflushed := if (s.table.position (Breakpoints.Slot.matches address)).isSome then s.unflushed
      else Function.update s.unflushed address true }

/-- `pb_pin_remove_instrumentation_in_range`, as far as the address itself goes. -/
def State.flush (s : State τ) (address : UInt64) : State τ :=
  { s with
    cache := Function.update s.cache address []
    unflushed := Function.update s.unflushed address false }

/-- `remove`. -/
def State.removeBreakpoint (s : State τ) (id : UInt32) : State τ :=
  match s.table.owner id with
  | some i => { s with table := (s.table.remove is64 id).1 }.flush (s.table.slots i).address
  | none => s

/-- An attempt, a compilation, or a command. -/
inductive Action (τ : Type*) where
  | attempt (t : τ) (c : Attempt)
  | compile (address : UInt64)
  | setBreakpoint (address : UInt64) (oneShot : Bool)
  | flush (address : UInt64)
  | removeBreakpoint (id : UInt32)
  | setTrap (trap : Trap τ)
  | removeTrap (id : UInt32)
  /-- A pending hit, or `handle_stop`. -/
  | stop
  /-- The instruction pointer of a stopped thread is written. -/
  | edit (t : τ) (ip : UInt64)
  | resume
  | step (t : τ) (candidates : List UInt64)
  | resumed

def step (s : State τ) : Action τ → Option (State τ)
  | .attempt t c =>
      if s.phase ≠ .stopped ∧ s.redirect.all (fun p => p.1 != t) ∧ c.slot ∈ s.cache (s.ips t) then
        some (s.attempt is64 t c)
      else none
  | .compile address => some (s.compile address)
  | .setBreakpoint address oneShot => some (s.setBreakpoint is64 address oneShot)
  | .flush address => some (s.flush address)
  | .removeBreakpoint id => some (s.removeBreakpoint is64 id)
  | .setTrap trap => some { s with traps := trap :: s.traps }
  | .removeTrap id => some { s with traps := s.traps.filter fun trap => trap.id != id }
  | .stop => if s.phase = .running then some s.stop else none
  | .edit t ip =>
      if s.phase = .stopped then some { s with ips := Function.update s.ips t ip } else none
  | .resume => if s.phase = .stopped then some s.resume else none
  | .step t candidates => if s.phase = .stopped then some (s.step t candidates) else none
  | .resumed => if s.phase = .resuming then some s.resumed else none

end PinBridge.Stops
