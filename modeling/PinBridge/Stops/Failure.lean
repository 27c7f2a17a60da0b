import PinBridge.Lib.Transition
import PinBridge.Stepping.Stepper

/-!
# Stops that fail

The breaker stops the application for a pending hit or for a `CMD_STOP`.  Before it
asks Pin it calls `begin_suspend`, which sets `SUSPENDING` and releases the parked
thread.  A breakpoint hit may have sent its thread to the park stub before, where it
spins until the stub's flag is set.

Pin's stop can fail.  Nothing is undone then: only a resume that succeeds calls
`end_suspend`, only a resume sets the flag of the stub, and a resume is refused while
the application is not stopped.  `failedStop_usable_iff` says which states a failed stop
leaves as they should be.  `Stuck.run` follows the others: as long as Pin refuses to
stop, no thread is parked any more, and the thread in the stub stays there.

How the stop and the resume are handed to the breaker and acknowledged is the subject of
`Breaker`, how the parked thread wakes up that of `Parking`.
-/

namespace PinBridge.StopFailure

open Stepping (Stepper)
open Transition (run)

/-! ## States -/

/-- The park stub and the thread that was sent there. -/
structure Stub where
  /-- `STUB_BASE`, 0 if there is no stub. -/
  base : UInt64
  /-- The flag in the stub: a thread in it spins until this is set. -/
  flag : Bool
  /-- The target slot in the stub. -/
  target : UInt64
  /-- `REDIRECT_ACTIVE`. -/
  active : Bool
  /-- `REDIRECT_TID`. -/
  tid : UInt32
  /-- `REDIRECT_ADDR`. -/
  address : UInt64

/-- The statics of the breaker, the stepper and the stub. -/
structure State where
  stepper : Stepper
  /-- `PARK_LOCK` exists. -/
  lock : Bool
  /-- `SUSPENDING`. -/
  suspending : Bool
  /-- `PARKED`. -/
  parked : Bool
  /-- `PARKED_TID`. -/
  parkedTid : UInt32
  /-- `PARKED_IP`. -/
  parkedIp : UInt64
  /-- The level of `PARK_SEM`, if it exists. -/
  parkSem : Option Bool
  stub : Stub
  /-- `WATCHDOG_TICKS`. -/
  watchdog : Nat
  /-- `HIT_PENDING`. -/
  hitPending : Bool
  /-- `LAST_HIT_TID` and `LAST_HIT_ADDR`. -/
  lastHit : Option (UInt32 × UInt64)
  /-- `STOPPED`. -/
  stopped : Bool
  /-- `STOP_GEN`. -/
  stopGen : Nat
  /-- The instruction pointers of the threads. -/
  ips : UInt32 → UInt64

/-- The target, and what Pin gives of it. -/
structure Pin where
  is64 : Bool
  /-- `pb_pin_get_stopped_thread_writeable_context` gives a context. -/
  writeable : UInt32 → Bool

namespace State

variable (pin : Pin) (s : State)

/-! ## The stepper -/

/-- `release`. -/
def release : State :=
  if s.parked then { s with parked := false, parkSem := s.parkSem.map fun _ => true } else s

/-- `begin_suspend`. -/
def beginSuspend : State := { s with suspending := true }.release

/-- `end_suspend`. -/
def endSuspend : State := { s with suspending := false }

/-- `request_stop`. -/
def requestStop : State := { s with hitPending := true }

/-- The stores of a thread that takes the park slot. -/
def takeSlot (tid : UInt32) (address : UInt64) : State :=
  { s with
    parked := true
    parkedTid := tid
    parkedIp := address
    stepper := { s.stepper with stepping := false } }

/-- `park_current`, up to its wait: whether the thread is granted the slot. -/
def parkCurrent (tid : UInt32) (address : UInt64) : Bool × State :=
  if s.lock then
    if !s.suspending && !s.parked then (true, (s.takeSlot tid address).requestStop) else (false, s)
  else (true, (if s.parked then s else s.takeSlot tid address).requestStop)

/-! ## The stub -/

/-- `redirect_arm`. -/
def redirectArm (tid : UInt32) (address : UInt64) : Bool × State :=
  if s.stub.base = 0 then (false, s)
  else if s.stub.active then (false, s)
  else
    let stub := { s.stub with tid, address }
    if !pin.is64 && 0x100000000 ≤ address then (false, { s with stub })
    else (true, { s with stub := { stub with active := true, target := address, flag := false } })

/-- `release_redirect`. -/
def releaseRedirect : State :=
  if s.stub.active then
    { s with stub := { s.stub with
      active := false
      flag := if s.stub.base ≠ 0 then true else s.stub.flag } }
  else s

/-- `rewind_redirected`. -/
def rewindRedirected : State :=
  if s.stub.active && pin.writeable s.stub.tid then
    { s with ips := Function.update s.ips s.stub.tid s.stub.address }
  else s

/-- `exact_stop` on a thread with a context or without.  `sets` says whether Pin accepts
the new instruction pointer. -/
def exactStop (tid : UInt32) (address : UInt64) (context sets : Bool) : State :=
  let s := { s with lastHit := some (tid, address) }
  let (armed, s) := if context then s.redirectArm pin tid address else (false, s)
  if armed then
    if sets then { s.requestStop with ips := Function.update s.ips tid s.stub.base }
    else s.requestStop.releaseRedirect.requestStop
  else s.requestStop

/-! ## The breaker -/

/-- `arm_step_watchdog`. -/
def armStepWatchdog (ticks : Nat) : State := { s with watchdog := ticks }

/-- `clear_step_bps`. -/
def clearStepBps : State := { s with stepper := s.stepper.cancel }

/-- The application is stopped, and the stop is published last. -/
def published : State :=
  let s := ({ s with watchdog := 0 }.rewindRedirected pin).clearStepBps
  { s with stopped := true, stopGen := s.stopGen + 1 }

/-- The breaker takes a pending hit.  `stops` says whether Pin stops the application. -/
def takeHit (stops : Bool) : State :=
  let s := { s with hitPending := false }.beginSuspend
  if !s.stopped && stops then s.published pin else s

/-- The breaker takes a `CMD_STOP`. -/
def takeStop (stops : Bool) : Bool × State :=
  let s := s.beginSuspend
  if stops then (true, s.published pin) else (false, s)

/-- The breaker takes a `CMD_RESUME`.  `resumes` says whether Pin resumes the application. -/
def takeResume (resumes : Bool) : Bool × State :=
  let s := s.release.releaseRedirect
  if resumes then (true, { { s with stopped := false }.endSuspend with lastHit := none })
  else (false, s)

end State

/-! ## Commands -/

/-- A command of the query server, with Pin's answer. -/
inductive Command where
  | stop (stops : Bool)
  | resume (resumes : Bool)
  /-- `STEP`.  The stepper is armed as given, or arming it fails. -/
  | step (armed : Option Stepper) (resumes : Bool)

/-- `handle_stop`, `handle_resume` and `handle_step`: the answer, and the state after the
breaker took the command. -/
def State.handle (pin : Pin) (s : State) : Command → Bool × State
  | .stop stops => if s.stopped then (true, s) else s.takeStop pin stops
  | .resume resumes => if !s.stopped then (false, s) else s.takeResume resumes
  | .step armed resumes =>
      if !s.stopped then (false, s)
      else
        match armed with
        | none => (false, s)
        | some stepper => ({ s with stepper }.armStepWatchdog 100).takeResume resumes

/-! ## What a failed stop should leave -/

/-- A stop of the breaker. -/
inductive Path where
  /-- For a pending hit. -/
  | hit
  /-- For a `CMD_STOP`. -/
  | command
  deriving DecidableEq, Repr

/-- The state after a stop that Pin refuses. -/
def State.fail (pin : Pin) (s : State) : Path → State
  | .hit => s.takeHit pin false
  | .command => (s.takeStop pin false).2

/-- A thread was sent to the stub and spins there. -/
def State.Spins (s : State) : Prop :=
  s.stub.active = true ∧ s.stub.base ≠ 0 ∧ s.stub.flag = false

/-- A failed stop leaves the debugger usable. -/
structure Usable (pin : Pin) (before after : State) : Prop where
  /-- `SUSPENDING` has its previous value. -/
  suspending : after.suspending = before.suspending
  /-- Threads are granted the park slot as before. -/
  parks : ∀ tid address, (after.parkCurrent tid address).1 = (before.parkCurrent tid address).1
  stopped : after.stopped = before.stopped
  stopGen : after.stopGen = before.stopGen
  /-- Some command lets the thread in the stub go. -/
  stub : after.Spins → ∃ command, ¬(after.handle pin command).2.Spins

/-! ## What it leaves -/

section

variable {pin : Pin} {s : State} {path : Path}

/-- A release changes the slot and its semaphore only. -/
theorem State.release_eq (s : State) :
    s.release =
      { s with
        parked := false
        parkSem := if s.parked then s.parkSem.map fun _ => true else s.parkSem } := by
  obtain ⟨stepper, lock, suspending, parked, rest⟩ := s
  cases parked with
  | false => rfl
  | true => rfl

/-- What every failed stop leaves. -/
structure Failed (before after : State) : Prop where
  suspending : after.suspending = true
  lock : after.lock = before.lock
  stub : after.stub = before.stub
  stopped : after.stopped = before.stopped
  stopGen : after.stopGen = before.stopGen

theorem State.beginSuspend_failed (s : State) : Failed s s.beginSuspend := by
  rw [State.beginSuspend, State.release_eq]
  exact ⟨rfl, rfl, rfl, rfl, rfl⟩

theorem State.fail_failed (pin : Pin) (s : State) (path : Path) : Failed s (s.fail pin path) := by
  cases path with
  | hit =>
      have h := State.beginSuspend_failed { s with hitPending := false }
      rw [State.fail, State.takeHit, Bool.and_false]
      exact ⟨h.suspending, h.lock, h.stub, h.stopped, h.stopGen⟩
  | command => exact s.beginSuspend_failed

theorem Failed.spins_iff {after : State} (h : Failed s after) : after.Spins ↔ s.Spins := by
  rw [State.Spins, State.Spins, h.stub]

/-- A thread is granted the slot when there is no lock, or nothing suspends and nobody is
parked. -/
theorem State.parkCurrent_fst (s : State) (tid : UInt32) (address : UInt64) :
    (s.parkCurrent tid address).1 = (!s.lock || (!s.suspending && !s.parked)) := by
  rw [State.parkCurrent]
  cases s.lock with
  | false => rfl
  | true =>
      cases !s.suspending && !s.parked with
      | false => rfl
      | true => rfl

/-- A resume lets the thread in the stub go. -/
theorem State.not_spins_takeResume (s : State) (resumes : Bool) :
    ¬(s.takeResume resumes).2.Spins := by
  have hactive : (s.takeResume resumes).2.stub.active = false := by
    have hreleased : s.release.releaseRedirect.stub.active = false := by
      rw [State.releaseRedirect]
      split
      next => rfl
      next h => exact Bool.not_eq_true _ ▸ h
    cases resumes with
    | false => exact hreleased
    | true => exact hreleased
  rintro ⟨h, -, -⟩
  rw [hactive] at h
  cases h

theorem State.published_stub (pin : Pin) (s : State) : (s.published pin).stub = s.stub := by
  show (({ s with watchdog := 0 } : State).rewindRedirected pin).stub = s.stub
  rw [State.rewindRedirected]
  split
  next => rfl
  next => rfl

/-- While the application is not stopped no command touches the stub. -/
theorem State.stub_handle (hstopped : s.stopped = false) (command : Command) :
    (s.handle pin command).2.stub = s.stub := by
  cases command with
  | stop stops =>
      rw [State.handle, hstopped, if_neg Bool.false_ne_true, State.takeStop]
      cases stops with
      | false => exact s.beginSuspend_failed.stub
      | true => exact (State.published_stub pin _).trans s.beginSuspend_failed.stub
  | resume resumes =>
      rw [State.handle, hstopped]
      rfl
  | step armed resumes =>
      show (if !s.stopped then (false, s) else _).2.stub = s.stub
      rw [hstopped]
      rfl

/-- A failed stop leaves the debugger usable exactly when `SUSPENDING` was set before, and
no thread spins in the stub unless the application was stopped. -/
theorem failedStop_usable_iff (pin : Pin) (s : State) (path : Path) :
    Usable pin s (s.fail pin path) ↔ s.suspending = true ∧ (s.Spins → s.stopped = true) := by
  have hfailed := s.fail_failed pin path
  constructor
  · intro h
    refine ⟨h.suspending.symm.trans hfailed.suspending, fun hspins => ?_⟩
    obtain ⟨command, hcommand⟩ := h.stub (hfailed.spins_iff.mpr hspins)
    by_contra hnot
    have hstopped : (s.fail pin path).stopped = false :=
      hfailed.stopped.trans (Bool.not_eq_true _ ▸ hnot)
    rw [State.Spins, State.stub_handle hstopped, hfailed.stub] at hcommand
    exact hcommand hspins
  · rintro ⟨hsuspending, hstub⟩
    refine ⟨hfailed.suspending.trans hsuspending.symm, fun tid address => ?_, hfailed.stopped,
      hfailed.stopGen, fun hspins => ⟨.resume true, ?_⟩⟩
    · rw [State.parkCurrent_fst, State.parkCurrent_fst, hfailed.suspending, hsuspending,
        hfailed.lock]
      rfl
    · have hstopped : (s.fail pin path).stopped = true :=
        hfailed.stopped.trans (hstub (hfailed.spins_iff.mp hspins))
      rw [State.handle, hstopped]
      exact State.not_spins_takeResume _ true

end

/-! ## A hit whose stop fails -/

/-- A 64-bit target. -/
def x64 : Pin := ⟨true, fun _ => true⟩

/-- A running application. -/
def running : State where
  stepper := .init
  lock := true
  suspending := false
  parked := false
  parkedTid := 0
  parkedIp := 0
  parkSem := some false
  stub := ⟨0x10000, false, 0, false, 0, 0⟩
  watchdog := 0
  hitPending := false
  lastHit := none
  stopped := false
  stopGen := 0
  ips _ := 0

/-- When Pin refuses the stop for a breakpoint hit, no thread is parked any more, and no
command frees the thread of the hit. -/
theorem failedStop_unusable :
    ¬Usable x64 (running.exactStop x64 3 0x1000 true true)
      ((running.exactStop x64 3 0x1000 true true).fail x64 .hit) := by
  intro h
  exact absurd h.suspending (by decide)

/-! ## While Pin refuses to stop -/

/-- What happens to the debugger. -/
inductive Event where
  /-- A thread calls `park_current`. -/
  | park (tid : UInt32) (address : UInt64)
  /-- A thread calls `exact_stop`. -/
  | exactStop (tid : UInt32) (address : UInt64) (context sets : Bool)
  /-- The breaker wakes up. -/
  | turn
  /-- A command is handled. -/
  | command (command : Command)

/-- Pin does not stop the application for this command. -/
def Command.refused : Command → Bool
  | .stop stops => !stops
  | .resume _ | .step _ _ => true

/-- The state after an event, as long as Pin refuses every stop. -/
def State.step (pin : Pin) (s : State) : Event → Option State
  | .park tid address => some (s.parkCurrent tid address).2
  | .exactStop tid address context sets => some (s.exactStop pin tid address context sets)
  | .turn => some (if s.hitPending then s.takeHit pin false else s)
  | .command command => if command.refused then some (s.handle pin command).2 else none

/-- The debugger is stuck: a thread spins in the stub, none is granted the park slot, and
the application is not stopped. -/
structure Stuck (s : State) : Prop where
  suspending : s.suspending = true
  lock : s.lock = true
  stopped : s.stopped = false
  spins : s.Spins

section

variable {pin : Pin} {s s' : State}

theorem Stuck.parkCurrent (h : Stuck s) (tid : UInt32) (address : UInt64) :
    s.parkCurrent tid address = (false, s) := by
  rw [State.parkCurrent, h.lock, h.suspending]
  rfl

/-- A hit of another thread finds the stub taken. -/
theorem Stuck.exactStop (h : Stuck s) (tid : UInt32) (address : UInt64) (context sets : Bool) :
    s.exactStop pin tid address context sets =
      { s with lastHit := some (tid, address) }.requestStop := by
  obtain ⟨hactive, hbase, -⟩ := h.spins
  have harm : State.redirectArm pin { s with lastHit := some (tid, address) } tid address =
      (false, { s with lastHit := some (tid, address) }) := by
    rw [State.redirectArm, if_neg hbase, if_pos hactive]
  cases context with
  | false => rfl
  | true =>
      rw [State.exactStop]
      simp only [if_true, harm]
      rfl

theorem Stuck.failed (h : Stuck s) (hfailed : Failed s s') : Stuck s' where
  suspending := hfailed.suspending
  lock := hfailed.lock.trans h.lock
  stopped := hfailed.stopped.trans h.stopped
  spins := hfailed.spins_iff.mpr h.spins

/-- A failed stop makes the debugger stuck when a thread spins in the stub. -/
theorem stuck_of_fail (hlock : s.lock = true) (hstopped : s.stopped = false)
    (hspins : s.Spins) (path : Path) : Stuck (s.fail pin path) :=
  have hfailed := s.fail_failed pin path
  ⟨hfailed.suspending, hfailed.lock.trans hlock, hfailed.stopped.trans hstopped,
    hfailed.spins_iff.mpr hspins⟩

theorem Stuck.step (h : Stuck s) {event : Event} (hstep : s.step pin event = some s') :
    Stuck s' := by
  cases event with
  | park tid address =>
      cases hstep
      rw [h.parkCurrent]
      exact h
  | exactStop tid address context sets =>
      cases hstep
      rw [h.exactStop]
      exact ⟨h.suspending, h.lock, h.stopped, h.spins⟩
  | turn =>
      cases hstep
      split
      next => exact h.failed (s.fail_failed pin .hit)
      next => exact h
  | command command =>
      obtain ⟨hrefused, hs'⟩ := Option.ite_none_right_eq_some.mp hstep
      obtain rfl := Option.some.inj hs'
      cases command with
      | stop stops =>
          have hstops : stops = false := by simpa [Command.refused] using hrefused
          rw [State.handle, h.stopped, hstops]
          exact h.failed (s.fail_failed pin .command)
      | resume resumes =>
          rw [State.handle, h.stopped]
          exact h
      | step armed resumes =>
          show Stuck (if !s.stopped then (false, s) else _).2
          rw [h.stopped]
          exact h

/-- A stuck debugger stays stuck as long as Pin refuses to stop, whatever hits and
commands come. -/
theorem Stuck.run {events : List Event} (h : Stuck s)
    (hrun : run (State.step pin) s events = some s') : Stuck s' :=
  Transition.run_invariant (fun h hstep => Stuck.step h hstep) h hrun

end

end PinBridge.StopFailure
