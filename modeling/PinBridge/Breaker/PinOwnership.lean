import PinBridge.Breaker.Step
import Mathlib.Data.List.Chain

/-!
# Who owns the stopped world

Pin asserts when a running application is resumed or a stopped one is stopped.  The
hit branch of the breaker reads `STOPPED` right before it stops the application.
The command branch does not.  It relies on the test that `handle_stop` and
`handle_resume` made before they queued on `CONTROL_LOCK`, and a hit, a watchdog or
the other caller can change `STOPPED` in between.

The Pin calls of a run alternate when every command the breaker takes still applies,
that is, when the value its sender read is still the value of `STOPPED`.
-/

namespace PinBridge.Breaker

open Transition

variable {n : Nat}

/-- The last Pin call.  The application starts out running. -/
def Log.lastCall (log : Log) : PinCall := log.pinCalls.getLast?.getD .resume

/-- Between a successful Pin call and the store to `STOPPED`. -/
def BreakerPc.publishing : BreakerPc → Bool
  | .stopTicks _ | .publishStopped _ | .publishResumed _ => true
  | _ => false

/-- About to make a Pin call. -/
def BreakerPc.callsPin : BreakerPc → Bool
  | .hitPin | .stopPin _ | .resumePin _ => true
  | _ => false

/-- The Pin calls alternate, beginning with a stop, and `STOPPED` tells the last of
them whenever the breaker is not about to store it. -/
structure PinOwned (s : State n) : Prop where
  alternate : (PinCall.resume :: s.log.pinCalls).IsChain (· ≠ ·)
  published : s.breaker.publishing = false → (s.stopped = true ↔ s.log.lastCall = .stop)

/-- Pin's stop and resume succeed. -/
def pinSucceeds (s : State n) : Action n → Prop
  | .breaker ok => s.breaker.callsPin = true → ok = true
  | _ => True

/-- A command that the breaker takes still applies: `STOPPED` has the value that
`handle_stop` or `handle_resume` read before it sent the command. -/
def commandApplies (s : State n) : Action n → Prop
  | .breaker _ => s.breaker = .swapCmd → s.cmd ≠ 0 → s.stopped = decide (s.cmd ≠ cmdStop)
  | _ => True

/-- The callers are `handle_stop` and `handle_resume`. -/
def Action.fromHandlers : Action n → Prop
  | .request _ (.command _) => False
  | _ => True

/-! ## The invariant -/

/-- How `STOPPED` and the last Pin call relate at each access of the breaker. -/
def BreakerPc.Owns (stopped : Bool) (last : PinCall) : BreakerPc → Prop
  | .stopTicks _ | .publishStopped _ => stopped = false ∧ last = .stop
  | .publishResumed _ => stopped = true ∧ last = .resume
  | .hitPin | .stopSuspend _ | .stopPin _ => stopped = false ∧ last = .resume
  | .resumePin _ => stopped = true ∧ last = .stop
  | _ => stopped = true ↔ last = .stop

/-- The invariant of the breaker. -/
structure Ownership (s : State n) : Prop where
  alternate : (PinCall.resume :: s.log.pinCalls).IsChain (· ≠ ·)
  owns : s.breaker.Owns s.stopped s.log.lastCall

theorem PinCall.eq_resume {c : PinCall} (h : c ≠ .stop) : c = .resume := by
  cases c with
  | stop => exact absurd rfl h
  | resume => rfl

theorem Ownership.pinOwned {s : State n} (h : Ownership s) : PinOwned s := by
  refine ⟨h.alternate, fun hp => ?_⟩
  have howns := h.owns
  cases hpc : s.breaker <;> rw [hpc] at hp howns
  case stopTicks | publishStopped | publishResumed => cases hp
  case hitPin | stopSuspend | stopPin | resumePin => simp [howns.1, howns.2]
  all_goals exact howns

@[simp] theorem Log.lastCall_pin (log : Log) (c : PinCall) : (log.pin c).lastCall = c := by
  simp [Log.lastCall, Log.pin]

@[simp] theorem Log.lastCall_execute (log : Log) (taken : Sent) (ok : Bool) :
    (log.execute taken ok).lastCall = log.lastCall := rfl

/-- A Pin call that differs from the last one keeps the calls alternating. -/
theorem Log.alternate_pin {log : Log} {c : PinCall} (hne : log.lastCall ≠ c)
    (h : (PinCall.resume :: log.pinCalls).IsChain (· ≠ ·)) :
    (PinCall.resume :: (log.pin c).pinCalls).IsChain (· ≠ ·) := by
  have happ : PinCall.resume :: (log.pin c).pinCalls = (PinCall.resume :: log.pinCalls) ++ [c] :=
    rfl
  rw [happ, List.isChain_append]
  refine ⟨h, List.isChain_singleton c, ?_⟩
  intro x hx y hy
  obtain rfl : c = y := by simpa using hy
  have hlast : log.lastCall = x := by
    rw [List.getLast?_cons, Option.mem_some_iff] at hx
    rw [← hx]
    rfl
  rw [← hlast]
  exact hne

/-! ## Steps -/

/-- The breaker keeps the invariant when its Pin calls succeed and the command it takes
applies. -/
theorem Ownership.breaker {s s' : State n} {ok : Bool} (hs : Ownership s)
    (hpin : s.breaker.callsPin = true → ok = true)
    (happlies : s.breaker = .swapCmd → s.cmd ≠ 0 → s.stopped = decide (s.cmd ≠ cmdStop))
    (hstep : breakerStep s ok = some s') : Ownership s' := by
  obtain ⟨halt, howns⟩ := hs
  unfold breakerStep at hstep
  cases hpc : s.breaker <;> rw [hpc] at hstep howns hpin <;> simp only at hstep
  case exited => cases hstep
  case wait | clearSem | loadTicks | storeTicks | watchdogStopped | watchdogHit | swapHit
      | hitSuspend | stopSuspend | stopTicks | endSuspend | storeResult | setAck =>
    -- neither `STOPPED` nor the log changes, and the relation stays the same
    cases hstep
    refine ⟨halt, ?_⟩
    first | exact howns | (simp only [State.goto]; split <;> exact howns)
  case hitStopped =>
    cases hstep
    refine ⟨halt, ?_⟩
    simp only [State.goto]
    split
    case isTrue => exact howns
    case isFalse hrunning =>
      rw [Bool.not_eq_true] at hrunning
      refine ⟨hrunning, PinCall.eq_resume fun hstop => ?_⟩
      rw [howns.mpr hstop] at hrunning
      cases hrunning
  case hitPin =>
    rw [hpin rfl] at hstep
    cases hstep
    refine ⟨Log.alternate_pin (by rw [howns.2]; nofun) halt, howns.1, Log.lastCall_pin _ _⟩
  case stopPin taken =>
    rw [hpin rfl] at hstep
    cases hstep
    refine ⟨Log.alternate_pin (by rw [howns.2]; nofun) halt, howns.1, ?_⟩
    rw [Log.lastCall_execute, Log.lastCall_pin]
  case resumePin taken =>
    rw [hpin rfl] at hstep
    cases hstep
    refine ⟨Log.alternate_pin (by rw [howns.2]; nofun) halt, howns.1, ?_⟩
    rw [Log.lastCall_execute, Log.lastCall_pin]
  case publishStopped taken =>
    cases hstep
    exact ⟨halt, iff_of_true rfl howns.2⟩
  case stopGen taken =>
    cases hstep
    refine ⟨halt, ?_⟩
    cases taken <;> exact howns
  case publishResumed taken =>
    cases hstep
    refine ⟨halt, iff_of_false nofun ?_⟩
    rw [howns.2]
    nofun
  case swapCmd =>
    have happlies := happlies hpc
    cases hstep
    refine ⟨halt, ?_⟩
    simp only
    split
    case isTrue => exact howns
    case isFalse hcmd =>
      have hstopped := happlies hcmd
      split
      case isTrue hstop =>
        have hrunning : s.stopped = false := by simpa [hstop] using hstopped
        refine ⟨hrunning, PinCall.eq_resume fun hlast => ?_⟩
        rw [howns.mpr hlast] at hrunning
        cases hrunning
      case isFalse hresume =>
        have hstopped : s.stopped = true := by simpa [hresume] using hstopped
        exact ⟨hstopped, howns.mp hstopped⟩

/-- The callers touch neither `STOPPED` nor the Pin calls. -/
theorem callerStep_frame {s s' : State n} {i : Fin n} {woke : Bool}
    (hstep : callerStep s i woke = some s') :
    s'.breaker = s.breaker ∧ s'.stopped = s.stopped ∧ s'.log.pinCalls = s.log.pinCalls := by
  unfold callerStep at hstep
  cases hpc : s.callers i <;> rw [hpc] at hstep <;> simp only at hstep
  case idle => cases hstep
  case lock cmd =>
    split at hstep <;> cases hstep
    exact ⟨rfl, rfl, rfl⟩
  case waitAck sent =>
    split at hstep
    · split at hstep <;> cases hstep
      exact ⟨rfl, rfl, rfl⟩
    · cases hstep
      exact ⟨rfl, rfl, rfl⟩
  all_goals
    cases hstep
    exact ⟨rfl, rfl, rfl⟩

theorem Ownership.step {s s' : State n} {a : Action n} (hs : Ownership s)
    (hguard : pinSucceeds s a ∧ commandApplies s a) (hstep : step s a = some s') :
    Ownership s' := by
  cases a with
  | breaker ok => exact hs.breaker hguard.1 hguard.2 hstep
  | request i request =>
      simp only [Breaker.step] at hstep
      split at hstep <;> cases hstep
      exact ⟨hs.alternate, hs.owns⟩
  | caller i woke =>
      obtain ⟨hbreaker, hstopped, hcalls⟩ := callerStep_frame hstep
      have hlast : s'.log.lastCall = s.log.lastCall := by
        unfold Log.lastCall
        rw [hcalls]
      refine ⟨by rw [hcalls]; exact hs.alternate, ?_⟩
      rw [hbreaker, hstopped, hlast]
      exact hs.owns
  | hit | pulse | armWatchdog ticks =>
      cases hstep
      exact ⟨hs.alternate, hs.owns⟩

/-! ## Runs -/

/-- On a run whose commands all still apply when the breaker takes them, the Pin calls
always alternate and `STOPPED` always tells the last one. -/
theorem pinOwned_of_applies (n : Nat) (as : List (Action n))
    (hpin : Guarded step pinSucceeds (State.init n) as)
    (happlies : Guarded step commandApplies (State.init n) as) :
    Always step PinOwned (State.init n) as := by
  have hinit : Ownership (State.init n) :=
    ⟨List.isChain_singleton _, iff_of_false nofun nofun⟩
  have halways := (hpin.and happlies).always (fun hI hC => Ownership.step hI hC) hinit
  exact fun pre t hpre hrun => (halways pre t hpre hrun).pinOwned

/-! ## A hit and a stop -/

instance (s : State n) : (a : Action n) → Decidable (pinSucceeds s a)
  | .breaker ok => inferInstanceAs (Decidable (s.breaker.callsPin = true → ok = true))
  | .request _ _ | .caller _ _ | .hit | .pulse | .armWatchdog _ => isTrue trivial

instance (s : State n) : (a : Action n) → Decidable (commandApplies s a)
  | .breaker _ =>
      inferInstanceAs
        (Decidable (s.breaker = .swapCmd → s.cmd ≠ 0 → s.stopped = decide (s.cmd ≠ cmdStop)))
  | .request _ _ | .caller _ _ | .hit | .pulse | .armWatchdog _ => isTrue trivial

instance : (a : Action n) → Decidable a.fromHandlers
  | .request _ (.command _) => isFalse id
  | .request _ .stop | .request _ .resume | .caller _ _ | .hit | .pulse | .armWatchdog _
  | .breaker _ => isTrue trivial

/-- The query-server thread and the script-host thread. -/
def queryServer : Fin 2 := 0

def scriptHost : Fin 2 := 1

/-- Caller `i` sends the command of `request` and pulses the breaker. -/
def sendCommand (i : Fin 2) (request : Request) : List (Action 2) :=
  .request i request :: List.replicate 6 (.caller i false)

/-- Caller `i` finds `ACK_SEM` set and returns from `control_command`. -/
def receiveAck (i : Fin 2) : List (Action 2) := List.replicate 3 (.caller i true)

/-- `handle_stop` finds the application running and sends its command.  A hit comes in
before the breaker wakes. -/
def hitBeforeStop : List (Action 2) :=
  sendCommand queryServer .stop ++ [.hit] ++ List.replicate 13 (.breaker true)

/-- The breaker stops the application for the hit and once more for the command. -/
theorem breaker_stops_twice : ¬ ∀ (as : List (Action 2)), (∀ a ∈ as, a.fromHandlers) →
    Guarded step pinSucceeds (State.init 2) as → Always step PinOwned (State.init 2) as := by
  intro hall
  have hrun : (run step (State.init 2) hitBeforeStop).map (fun s => s.log.pinCalls) =
      some [.stop, .stop] := by decide +kernel
  obtain ⟨s, hs, hcalls⟩ := Option.map_eq_some_iff.mp hrun
  have howned := (hall hitBeforeStop (by decide +kernel) (by decide +kernel)).last hs
  have halt := howned.alternate
  rw [hcalls] at halt
  simp at halt

/-- A stop and a resume, each taken while it applies. -/
theorem pinOwned_of_applies_run :
    Always step PinOwned (State.init 2)
      (sendCommand queryServer .stop ++ List.replicate 12 (.breaker true) ++
        receiveAck queryServer ++ sendCommand scriptHost .resume ++
        List.replicate 10 (.breaker true) ++ receiveAck scriptHost) :=
  pinOwned_of_applies 2 _ (by decide +kernel) (by decide +kernel)

end PinBridge.Breaker
