import Mathlib.Algebra.Ring.Nat
import PinBridge.Lib.Transition

/-!
# The breaker and its callers

Pin ties stopping and resuming the application to the calling internal thread, so
one thread does both.  `breaker_main` of `bp.rs` is that thread.  It acts on a
pending hit, which any analysis callback may raise, and on the command in `CMD`.
The query-server thread and the script-host thread send commands through
`control_command`, one at a time under `CONTROL_LOCK`, and wait for `ACK_SEM`.

A program counter names the next shared access.  Semaphores are binary levels:
a wait does not clear them.  Calls of the breaker into the park slot, the park stub
and the execution traps touch none of the state here, except for `SUSPENDING`.

A `Log` is kept next to the state.  Commands carry the number of the call that
stored them.  No step reads either.
-/

namespace PinBridge.Breaker

/-! ## State -/

/-- `CMD_STOP`. -/
def cmdStop : UInt32 := 1

/-- `CMD_RESUME`. -/
def cmdResume : UInt32 := 2

/-- A command together with the call of `control_command` that stored it. -/
structure Sent where
  call : Nat
  cmd : UInt32
deriving DecidableEq, Repr

/-- The Pin calls of the breaker. -/
inductive PinCall where
  /-- `pb_pin_stop_application_threads`. -/
  | stop
  /-- `pb_pin_resume_application_threads`. -/
  | resume
deriving DecidableEq, Repr

/-- How a call of `control_command` ended.  `sent` is missing when there was no
breaker to send to, and `acked` says that the wait saw the semaphore set. -/
structure Return where
  sent : Option Sent
  acked : Bool
  result : Bool
deriving DecidableEq, Repr

/-- What has happened so far. -/
structure Log where
  /-- The Pin calls, in order. -/
  pinCalls : List PinCall
  /-- The executed commands with their outcomes. -/
  executed : List (Sent × Bool)
  /-- The returns of `control_command`. -/
  returned : List Return
deriving DecidableEq, Repr

/-- The next shared access of the breaker.  `taken` is the command it is executing;
a stop for a pending hit has none. -/
inductive BreakerPc where
  /-- `pb_pin_semaphore_timed_wait(cmd_sem, 50)`. -/
  | wait
  /-- `pb_pin_semaphore_clear(cmd_sem)`. -/
  | clearSem
  /-- `WATCHDOG_TICKS.load`. -/
  | loadTicks
  /-- `WATCHDOG_TICKS.store(next)`. -/
  | storeTicks (next : Nat)
  /-- `is_stopped` of the expired watchdog. -/
  | watchdogStopped
  /-- `HIT_PENDING.store(true)` of the expired watchdog. -/
  | watchdogHit
  /-- `HIT_PENDING.swap(false)`. -/
  | swapHit
  /-- `begin_suspend` for a hit. -/
  | hitSuspend
  /-- `is_stopped` for a hit. -/
  | hitStopped
  /-- `pb_pin_stop_application_threads` for a hit. -/
  | hitPin
  /-- `WATCHDOG_TICKS.store(0)` after a stop. -/
  | stopTicks (taken : Option Sent)
  /-- `STOPPED.store(true)`. -/
  | publishStopped (taken : Option Sent)
  /-- `STOP_GEN.fetch_add(1)`. -/
  | stopGen (taken : Option Sent)
  /-- `CMD.swap(0)`. -/
  | swapCmd
  /-- `begin_suspend` for a stop command. -/
  | stopSuspend (taken : Sent)
  /-- `pb_pin_stop_application_threads` for a stop command. -/
  | stopPin (taken : Sent)
  /-- `pb_pin_resume_application_threads`. -/
  | resumePin (taken : Sent)
  /-- `STOPPED.store(false)`. -/
  | publishResumed (taken : Sent)
  /-- `end_suspend`. -/
  | endSuspend (taken : Sent)
  /-- `CMD_RESULT.store(ok)`. -/
  | storeResult (taken : Sent) (ok : Bool)
  /-- `pb_pin_semaphore_set(ack_sem)`. -/
  | setAck (taken : Sent) (ok : Bool)
  /-- The thread has returned. -/
  | exited
deriving DecidableEq, Repr

/-- What a caller asks for. -/
inductive Request where
  /-- `handle_stop`. -/
  | stop
  /-- `handle_resume`. -/
  | resume
  /-- `control_command(cmd)` without a test of its own. -/
  | command (cmd : UInt32)
deriving DecidableEq, Repr

/-- The next shared access of a caller. -/
inductive CallerPc where
  | idle
  /-- `is_stopped` of `handle_stop`. -/
  | testStop
  /-- `is_stopped` of `handle_resume`. -/
  | testResume
  /-- `CONTROL_LOCK.lock`. -/
  | lock (cmd : UInt32)
  /-- The loads of the two semaphore handles. -/
  | loadSems (cmd : UInt32)
  /-- `CMD.store(cmd)`. -/
  | storeCmd (cmd : UInt32)
  /-- `pb_pin_semaphore_clear(ack_sem)`. -/
  | clearAck (sent : Sent)
  /-- `pb_pin_semaphore_set(cmd_sem)`. -/
  | setCmd (sent : Sent)
  /-- `pb_pin_semaphore_timed_wait(ack_sem, 10_000)`. -/
  | waitAck (sent : Sent)
  /-- `CMD_RESULT.load`. -/
  | loadResult (sent : Sent)
  /-- The guard of `CONTROL_LOCK` is dropped. -/
  | unlock (ret : Return)
deriving DecidableEq, Repr

/-- A state of the breaker and `n` callers. -/
structure State (n : Nat) where
  /-- Both semaphores are initialised. -/
  ready : Bool
  /-- `CMD`. -/
  cmd : UInt32
  /-- The call whose command `CMD` holds. -/
  cmdCall : Nat
  /-- `CMD_RESULT`. -/
  cmdResult : UInt32
  /-- `CMD_SEM` is set. -/
  cmdSem : Bool
  /-- `ACK_SEM` is set. -/
  ackSem : Bool
  /-- `HIT_PENDING`. -/
  hitPending : Bool
  /-- `WATCHDOG_TICKS`. -/
  watchdogTicks : Nat
  /-- `control::STOPPED`. -/
  stopped : Bool
  /-- `STOP_GEN`. -/
  stopGen : Nat
  /-- `stepper::SUSPENDING`. -/
  suspending : Bool
  /-- The holder of `CONTROL_LOCK`. -/
  controlLock : Option (Fin n)
  breaker : BreakerPc
  callers : Fin n → CallerPc
  /-- The number of `CMD.store`s so far. -/
  calls : Nat
  log : Log

/-- After `init`, with the application running. -/
def State.init (n : Nat) : State n where
  ready := true
  cmd := 0
  cmdCall := 0
  cmdResult := 0
  cmdSem := false
  ackSem := false
  hitPending := false
  watchdogTicks := 0
  stopped := false
  stopGen := 0
  suspending := false
  controlLock := none
  breaker := .wait
  callers := fun _ => .idle
  calls := 0
  log := ⟨[], [], []⟩

variable {n : Nat}

/-! ## The breaker -/

/-- The breaker moves on. -/
def State.goto (s : State n) (pc : BreakerPc) : State n := { s with breaker := pc }

/-- What follows `STOP_GEN.fetch_add`: the command branch reports, the hit branch goes
on to the command. -/
def afterStop : Option Sent → BreakerPc
  | some taken => .storeResult taken true
  | none => .swapCmd

/-- A Pin call is made. -/
def Log.pin (log : Log) (call : PinCall) : Log := { log with pinCalls := log.pinCalls ++ [call] }

/-- A command is executed. -/
def Log.execute (log : Log) (taken : Sent) (ok : Bool) : Log :=
  { log with executed := log.executed ++ [(taken, ok)] }

/-- The next access of `breaker_main`.  `ok` is the outcome of its Pin call, or of its
wait. -/
def breakerStep (s : State n) (ok : Bool) : Option (State n) :=
  match s.breaker with
  | .wait => some (s.goto (if ok then .clearSem else .exited))
  | .clearSem => some { s with cmdSem := false, breaker := .loadTicks }
  | .loadTicks =>
      some (s.goto (if 0 < s.watchdogTicks then .storeTicks (s.watchdogTicks - 1) else .swapHit))
  | .storeTicks next =>
      some { s with
        watchdogTicks := next
        breaker := if next = 0 then .watchdogStopped else .swapHit }
  | .watchdogStopped => some (s.goto (if s.stopped then .swapHit else .watchdogHit))
  | .watchdogHit => some { s with hitPending := true, breaker := .swapHit }
  | .swapHit =>
      some { s with
        hitPending := false
        breaker := if s.hitPending then .hitSuspend else .swapCmd }
  | .hitSuspend => some { s with suspending := true, breaker := .hitStopped }
  | .hitStopped => some (s.goto (if s.stopped then .swapCmd else .hitPin))
  | .hitPin =>
      some { s with
        log := s.log.pin .stop
        breaker := if ok then .stopTicks none else .swapCmd }
  | .stopTicks taken => some { s with watchdogTicks := 0, breaker := .publishStopped taken }
  | .publishStopped taken => some { s with stopped := true, breaker := .stopGen taken }
  | .stopGen taken => some { s with stopGen := (s.stopGen + 1) % 2 ^ 64, breaker := afterStop taken }
  | .swapCmd =>
      some { s with
        cmd := 0
        breaker :=
          if s.cmd = 0 then .wait
          else if s.cmd = cmdStop then .stopSuspend ⟨s.cmdCall, s.cmd⟩
          else .resumePin ⟨s.cmdCall, s.cmd⟩ }
  | .stopSuspend taken => some { s with suspending := true, breaker := .stopPin taken }
  | .stopPin taken =>
      some { s with
        log := (s.log.pin .stop).execute taken ok
        breaker := if ok then .stopTicks (some taken) else .storeResult taken false }
  | .resumePin taken =>
      some { s with
        log := (s.log.pin .resume).execute taken ok
        breaker := if ok then .publishResumed taken else .storeResult taken false }
  | .publishResumed taken => some { s with stopped := false, breaker := .endSuspend taken }
  | .endSuspend taken => some { s with suspending := false, breaker := .storeResult taken true }
  | .storeResult taken ok =>
      some { s with cmdResult := if ok then 1 else 0, breaker := .setAck taken ok }
  | .setAck _ _ => some { s with ackSem := true, breaker := .wait }
  | .exited => none

/-! ## The callers -/

/-- Caller `i` moves on. -/
def State.callerGoto (s : State n) (i : Fin n) (pc : CallerPc) : State n :=
  { s with callers := Function.update s.callers i pc }

/-- The next access of caller `i`.  `woke` says that the wait reports the semaphore
set, which it can only when it is. -/
def callerStep (s : State n) (i : Fin n) (woke : Bool) : Option (State n) :=
  match s.callers i with
  | .idle => none
  | .testStop => some (s.callerGoto i (if s.stopped then .idle else .lock cmdStop))
  | .testResume => some (s.callerGoto i (if s.stopped then .lock cmdResume else .idle))
  | .lock cmd =>
      if s.controlLock = none then
        some ({ s with controlLock := some i }.callerGoto i (.loadSems cmd))
      else none
  | .loadSems cmd =>
      some (s.callerGoto i (if s.ready then .storeCmd cmd else .unlock ⟨none, false, false⟩))
  | .storeCmd cmd =>
      some ({ s with cmd := cmd, cmdCall := s.calls, calls := s.calls + 1 }.callerGoto i
        (.clearAck ⟨s.calls, cmd⟩))
  | .clearAck sent => some ({ s with ackSem := false }.callerGoto i (.setCmd sent))
  | .setCmd sent => some ({ s with cmdSem := true }.callerGoto i (.waitAck sent))
  | .waitAck sent =>
      if woke then
        if s.ackSem then some (s.callerGoto i (.loadResult sent)) else none
      else some (s.callerGoto i (.unlock ⟨some sent, false, false⟩))
  | .loadResult sent => some (s.callerGoto i (.unlock ⟨some sent, true, s.cmdResult != 0⟩))
  | .unlock ret =>
      some ({ s with
        controlLock := none
        log := { s.log with returned := s.log.returned ++ [ret] } }.callerGoto i .idle)

/-- The first access of a request. -/
def Request.entry : Request → CallerPc
  | .stop => .testStop
  | .resume => .testResume
  | .command cmd => .lock cmd

/-! ## The system -/

/-- A scheduling choice. -/
inductive Action (n : Nat) where
  /-- Caller `i` starts a request. -/
  | request (i : Fin n) (request : Request)
  /-- Caller `i` takes its next step. -/
  | caller (i : Fin n) (woke : Bool)
  /-- An analysis callback stores `HIT_PENDING` in `request_stop`. -/
  | hit
  /-- An analysis callback sets `CMD_SEM` in `request_stop`. -/
  | pulse
  /-- `arm_step_watchdog(ticks)`. -/
  | armWatchdog (ticks : Nat)
  /-- The breaker takes its next step. -/
  | breaker (ok : Bool)
deriving DecidableEq, Repr

/-- One step of the breaker and its callers. -/
def step (s : State n) : Action n → Option (State n)
  | .request i request =>
      if s.callers i = .idle then some (s.callerGoto i request.entry) else none
  | .caller i woke => callerStep s i woke
  | .hit => some { s with hitPending := true }
  | .pulse => some { s with cmdSem := true }
  | .armWatchdog ticks => some { s with watchdogTicks := ticks }
  | .breaker ok => breakerStep s ok

end PinBridge.Breaker
