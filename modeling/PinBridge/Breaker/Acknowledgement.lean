import PinBridge.Breaker.PinOwnership

/-!
# Commands and their acknowledgements

`control_command` stores its command, clears `ACK_SEM`, wakes the breaker and waits.
`CONTROL_LOCK` lets one call do this at a time.  A call that gives up its wait leaves
its command behind.  If the breaker has not taken the command, the next call
overwrites it.  If the breaker is executing it, its acknowledgement comes after the
next call has cleared `ACK_SEM`, and that call takes it for its own.

Every command is executed at most once on every run (`Commands`).  The
acknowledgements match when the breaker is not executing the command of an earlier
call at the moment a call clears `ACK_SEM` (`Waiting`).
-/

namespace PinBridge.Breaker

open Transition

variable {n : Nat}

/-! ## The command in progress -/

/-- The command the breaker has taken and not yet acknowledged. -/
def BreakerPc.taken : BreakerPc → Option Sent
  | .stopTicks taken | .publishStopped taken | .stopGen taken => taken
  | .stopSuspend taken | .stopPin taken | .resumePin taken | .publishResumed taken
  | .endSuspend taken | .storeResult taken _ | .setAck taken _ => some taken
  | _ => none

/-- The command the breaker is about to execute. -/
def BreakerPc.pending : BreakerPc → Option Sent
  | .stopSuspend taken | .stopPin taken | .resumePin taken => some taken
  | _ => none

/-- The command the breaker has executed and not yet acknowledged, with its outcome. -/
def BreakerPc.outcome : BreakerPc → Option (Sent × Bool)
  | .stopTicks taken | .publishStopped taken | .stopGen taken => taken.map fun t => (t, true)
  | .publishResumed taken | .endSuspend taken => some (taken, true)
  | .storeResult taken ok | .setAck taken ok => some (taken, ok)
  | _ => none

/-- About to acknowledge. -/
def BreakerPc.acking : BreakerPc → Bool
  | .setAck _ _ => true
  | _ => false

/-- Holding `CONTROL_LOCK`. -/
def CallerPc.locked : CallerPc → Bool
  | .loadSems _ | .storeCmd _ | .clearAck _ | .setCmd _ | .waitAck _ | .loadResult _
  | .unlock _ => true
  | _ => false

/-- Commands and results match: what a call reports as acknowledged or as done is the
outcome of its own command, and no command is executed twice. -/
structure Matched (s : State n) : Prop where
  own : ∀ r ∈ s.log.returned, r.result = true ∨ r.acked = true →
    ∃ sent, r.sent = some sent ∧ (sent, r.result) ∈ s.log.executed
  once : (s.log.executed.map fun e => e.1.call).Nodup

/-- The command of a call that is about to clear `ACK_SEM`. -/
def CallerPc.clears : CallerPc → Option Sent
  | .clearAck sent => some sent
  | _ => none

/-- When a call clears `ACK_SEM`, the breaker is not executing the command of an earlier
call. -/
def ackQuiet (s : State n) : Action n → Prop
  | .caller i _ => ∀ sent ∈ (s.callers i).clears, ∀ taken ∈ s.breaker.taken,
      taken.call = sent.call
  | _ => True

/-! ## Invariants -/

/-- Every command is executed at most once. -/
structure Commands (s : State n) : Prop where
  nodup : (s.log.executed.map fun e => e.1.call).Nodup
  executed_lt : ∀ e ∈ s.log.executed, e.1.call < s.calls
  taken_lt : ∀ t, s.breaker.taken = some t → t.call < s.calls
  cmd_lt : s.cmd ≠ 0 → s.cmdCall < s.calls
  cmd_new : s.cmd ≠ 0 → ∀ e ∈ s.log.executed, e.1.call ≠ s.cmdCall
  cmd_taken : s.cmd ≠ 0 → ∀ t, s.breaker.taken = some t → t.call ≠ s.cmdCall
  pending_new : ∀ t, s.breaker.pending = some t → ∀ e ∈ s.log.executed, e.1.call ≠ t.call
  outcome : ∀ e, s.breaker.outcome = some e → e ∈ s.log.executed
  result : ∀ t ok, s.breaker = .setAck t ok → (s.cmdResult != 0) = ok

/-- `CMD` holds the command `sent` or nothing. -/
def State.CmdIs (s : State n) (sent : Sent) : Prop :=
  s.cmd ≠ 0 → (⟨s.cmdCall, s.cmd⟩ : Sent) = sent

/-- What a call knows between clearing `ACK_SEM` and its return. -/
structure Waiting (s : State n) (sent : Sent) : Prop where
  cmd : s.CmdIs sent
  taken : ∀ t, s.breaker.taken = some t → t = sent
  ack : s.ackSem = true → s.breaker.taken = none ∧ (sent, s.cmdResult != 0) ∈ s.log.executed

/-- What a caller knows at each access. -/
def CallerPc.Knows (s : State n) : CallerPc → Prop
  | .clearAck sent => s.CmdIs sent ∧ ∀ t, s.breaker.taken = some t → t.call = sent.call → t = sent
  | .setCmd sent | .waitAck sent => Waiting s sent
  | .loadResult sent => Waiting s sent ∧ s.ackSem = true
  | .unlock ret => ret.result = true ∨ ret.acked = true →
      ∃ sent, ret.sent = some sent ∧ (sent, ret.result) ∈ s.log.executed
  | _ => True

/-- The invariant of the command channel. -/
structure Channel (s : State n) : Prop where
  commands : Commands s
  locked : ∀ i, (s.callers i).locked = true → s.controlLock = some i
  knows : ∀ i, (s.callers i).Knows s
  own : ∀ r ∈ s.log.returned, r.result = true ∨ r.acked = true →
    ∃ sent, r.sent = some sent ∧ (sent, r.result) ∈ s.log.executed

/-! ## The breaker's steps -/

/-- What the breaker does to the command channel: nothing, it takes the command, executes
it, stores its result or acknowledges it. -/
inductive BreakerMove (s s' : State n) : Prop where
  | other (hbreaker : s'.breaker.taken = s.breaker.taken)
      (hpending : s'.breaker.pending = s.breaker.pending)
      (houtcome : s'.breaker.outcome = s.breaker.outcome)
      (hack : s'.breaker.acking = false) (hcmd : s'.cmd = s.cmd)
      (hresult : s'.cmdResult = s.cmdResult) (hsem : s'.ackSem = s.ackSem)
      (hexecuted : s'.log.executed = s.log.executed)
  | take (hidle : s.breaker.taken = none) (hcmd : s.cmd ≠ 0)
      (htaken : s'.breaker.taken = some ⟨s.cmdCall, s.cmd⟩)
      (hpending : s'.breaker.pending = some ⟨s.cmdCall, s.cmd⟩)
      (houtcome : s'.breaker.outcome = none) (hack : s'.breaker.acking = false)
      (hclear : s'.cmd = 0) (hresult : s'.cmdResult = s.cmdResult) (hsem : s'.ackSem = s.ackSem)
      (hexecuted : s'.log.executed = s.log.executed)
  | execute (t : Sent) (ok : Bool) (htaken : s.breaker.taken = some t)
      (htaken' : s'.breaker.taken = some t) (hpending : s.breaker.pending = some t)
      (hpending' : s'.breaker.pending = none) (houtcome : s'.breaker.outcome = some (t, ok))
      (hack : s'.breaker.acking = false) (hcmd : s'.cmd = s.cmd)
      (hresult : s'.cmdResult = s.cmdResult) (hsem : s'.ackSem = s.ackSem)
      (hexecuted : s'.log.executed = s.log.executed ++ [(t, ok)])
  | store (t : Sent) (ok : Bool) (hpc : s.breaker = .storeResult t ok)
      (hpc' : s'.breaker = .setAck t ok) (hresult : (s'.cmdResult != 0) = ok)
      (hcmd : s'.cmd = s.cmd) (hsem : s'.ackSem = s.ackSem)
      (hexecuted : s'.log.executed = s.log.executed)
  | ack (t : Sent) (ok : Bool) (hpc : s.breaker = .setAck t ok) (hpc' : s'.breaker = .wait)
      (hcmd : s'.cmd = s.cmd) (hresult : s'.cmdResult = s.cmdResult) (hsem : s'.ackSem = true)
      (hexecuted : s'.log.executed = s.log.executed)

/-- What the breaker never writes. -/
structure BreakerFrame (s s' : State n) : Prop where
  callers : s'.callers = s.callers
  controlLock : s'.controlLock = s.controlLock
  cmdCall : s'.cmdCall = s.cmdCall
  calls : s'.calls = s.calls
  returned : s'.log.returned = s.log.returned

theorem breakerStep_move {s s' : State n} {ok : Bool} (hstep : breakerStep s ok = some s') :
    BreakerMove s s' ∧ BreakerFrame s s' := by
  unfold breakerStep at hstep
  cases hpc : s.breaker <;> rw [hpc] at hstep <;> simp only at hstep
  case exited => cases hstep
  case swapCmd =>
    cases hstep
    refine ⟨?_, ⟨rfl, rfl, rfl, rfl, rfl⟩⟩
    by_cases hzero : s.cmd = 0
    · refine .other ?_ ?_ ?_ ?_ hzero.symm rfl rfl rfl
      all_goals
        simp only [hpc, if_pos hzero]
        rfl
    · have hbranch : ∀ P : BreakerPc → Prop, P (.stopSuspend ⟨s.cmdCall, s.cmd⟩) →
          P (.resumePin ⟨s.cmdCall, s.cmd⟩) →
          P (if s.cmd = 0 then .wait else if s.cmd = cmdStop then .stopSuspend ⟨s.cmdCall, s.cmd⟩
            else .resumePin ⟨s.cmdCall, s.cmd⟩) := by
        intro P hstop hresume
        rw [if_neg hzero]
        split
        · exact hstop
        · exact hresume
      exact .take (by rw [hpc]; rfl) hzero
        (hbranch (fun pc => pc.taken = some ⟨s.cmdCall, s.cmd⟩) rfl rfl)
        (hbranch (fun pc => pc.pending = some ⟨s.cmdCall, s.cmd⟩) rfl rfl)
        (hbranch (fun pc => pc.outcome = none) rfl rfl)
        (hbranch (fun pc => pc.acking = false) rfl rfl) rfl rfl rfl rfl
  case stopPin taken | resumePin taken =>
    cases hstep
    refine ⟨.execute taken ok (by rw [hpc]; rfl) ?_ (by rw [hpc]; rfl) ?_ ?_ ?_ rfl rfl rfl rfl,
      ⟨rfl, rfl, rfl, rfl, rfl⟩⟩ <;>
      cases ok <;> rfl
  case storeResult taken ok =>
    cases hstep
    refine ⟨.store taken ok hpc rfl ?_ rfl rfl rfl, ⟨rfl, rfl, rfl, rfl, rfl⟩⟩
    cases ok <;> rfl
  case setAck taken ok =>
    cases hstep
    exact ⟨.ack taken ok hpc rfl rfl rfl rfl rfl, ⟨rfl, rfl, rfl, rfl, rfl⟩⟩
  case stopGen taken =>
    cases hstep
    refine ⟨.other ?_ ?_ ?_ ?_ rfl rfl rfl rfl, ⟨rfl, rfl, rfl, rfl, rfl⟩⟩ <;>
      cases taken <;> simp only [hpc] <;> rfl
  all_goals
    cases hstep
    refine ⟨.other ?_ ?_ ?_ ?_ rfl rfl rfl rfl, ⟨rfl, rfl, rfl, rfl, rfl⟩⟩
    all_goals
      simp only [State.goto, hpc]
      first
        | rfl
        | (split <;> rfl)

/-- No result is about to be acknowledged. -/
theorem BreakerPc.ne_setAck {pc : BreakerPc} (h : pc.acking = false) {t : Sent} {ok : Bool} :
    pc ≠ .setAck t ok := by
  rintro rfl
  cases h

/-- The breaker takes no command and executes none. -/
theorem Commands.keep {s s' : State n} (hs : Commands s) (hframe : BreakerFrame s s')
    (htaken : ∀ t, s'.breaker.taken = some t → s.breaker.taken = some t)
    (hpending : ∀ t, s'.breaker.pending = some t → s.breaker.pending = some t)
    (houtcome : ∀ e, s'.breaker.outcome = some e → s.breaker.outcome = some e)
    (hcmd : s'.cmd = s.cmd) (hexecuted : s'.log.executed = s.log.executed)
    (hresult : ∀ t ok, s'.breaker = .setAck t ok → (s'.cmdResult != 0) = ok) : Commands s' := by
  constructor
  · rw [hexecuted]
    exact hs.nodup
  · rw [hexecuted, hframe.calls]
    exact hs.executed_lt
  · rw [hframe.calls]
    exact fun t ht => hs.taken_lt t (htaken t ht)
  · rw [hcmd, hframe.cmdCall, hframe.calls]
    exact hs.cmd_lt
  · rw [hcmd, hframe.cmdCall, hexecuted]
    exact hs.cmd_new
  · rw [hcmd, hframe.cmdCall]
    exact fun hne t ht => hs.cmd_taken hne t (htaken t ht)
  · rw [hexecuted]
    exact fun t ht => hs.pending_new t (hpending t ht)
  · rw [hexecuted]
    exact fun e he => hs.outcome e (houtcome e he)
  · exact hresult

/-- The breaker takes the command. -/
theorem Commands.take {s s' : State n} (hs : Commands s) (hframe : BreakerFrame s s')
    (hcmd : s.cmd ≠ 0) (htaken : s'.breaker.taken = some ⟨s.cmdCall, s.cmd⟩)
    (hpending : s'.breaker.pending = some ⟨s.cmdCall, s.cmd⟩)
    (houtcome : s'.breaker.outcome = none) (hack : s'.breaker.acking = false)
    (hclear : s'.cmd = 0) (hexecuted : s'.log.executed = s.log.executed) : Commands s' := by
  constructor
  · rw [hexecuted]
    exact hs.nodup
  · rw [hexecuted, hframe.calls]
    exact hs.executed_lt
  · intro t ht
    obtain rfl := Option.some.inj (htaken.symm.trans ht)
    rw [hframe.calls]
    exact hs.cmd_lt hcmd
  · exact fun h => absurd hclear h
  · exact fun h => absurd hclear h
  · exact fun h => absurd hclear h
  · intro t ht
    obtain rfl := Option.some.inj (hpending.symm.trans ht)
    rw [hexecuted]
    exact hs.cmd_new hcmd
  · intro e he
    rw [houtcome] at he
    cases he
  · exact fun t ok hpc => absurd hpc (BreakerPc.ne_setAck hack)

/-- The breaker executes the command that it has taken. -/
theorem Commands.execute {s s' : State n} (hs : Commands s) (hframe : BreakerFrame s s') {t : Sent}
    {ok : Bool} (htaken : s.breaker.taken = some t) (htaken' : s'.breaker.taken = some t)
    (hpending : s.breaker.pending = some t) (hpending' : s'.breaker.pending = none)
    (houtcome : s'.breaker.outcome = some (t, ok)) (hack : s'.breaker.acking = false)
    (hcmd : s'.cmd = s.cmd) (hexecuted : s'.log.executed = s.log.executed ++ [(t, ok)]) :
    Commands s' := by
  have hmem : ∀ {P : Sent × Bool → Prop}, (∀ e ∈ s.log.executed, P e) → P (t, ok) →
      ∀ e ∈ s'.log.executed, P e := fun hold hnew e he => by
    rw [hexecuted] at he
    obtain he | he := List.mem_append.mp he
    · exact hold e he
    · rwa [List.mem_singleton.mp he]
  constructor
  · rw [hexecuted, List.map_append, List.nodup_append]
    refine ⟨hs.nodup, List.pairwise_singleton _ _, fun a ha b hb => ?_⟩
    obtain ⟨e, he, rfl⟩ := List.mem_map.mp ha
    rw [List.mem_singleton.mp hb]
    exact hs.pending_new t hpending e he
  · rw [hframe.calls]
    exact hmem hs.executed_lt (hs.taken_lt t htaken)
  · rw [htaken', hframe.calls, ← htaken]
    exact hs.taken_lt
  · rw [hcmd, hframe.cmdCall, hframe.calls]
    exact hs.cmd_lt
  · rw [hcmd, hframe.cmdCall]
    exact fun hne => hmem (hs.cmd_new hne) (hs.cmd_taken hne t htaken)
  · rw [hcmd, hframe.cmdCall, htaken', ← htaken]
    exact hs.cmd_taken
  · intro u hu
    rw [hpending'] at hu
    cases hu
  · intro e he
    rw [houtcome] at he
    cases he
    rw [hexecuted]
    exact List.mem_append_right _ (List.mem_singleton.mpr rfl)
  · exact fun t ok hpc => absurd hpc (BreakerPc.ne_setAck hack)

theorem Commands.breaker {s s' : State n} (hs : Commands s) (hmove : BreakerMove s s')
    (hframe : BreakerFrame s s') : Commands s' := by
  cases hmove with
  | other hbreaker hpending houtcome hack hcmd hresult hsem hexecuted =>
      exact hs.keep hframe (fun _ => hbreaker.symm.trans) (fun _ => hpending.symm.trans)
        (fun _ => houtcome.symm.trans) hcmd hexecuted
        fun t ok hpc => absurd hpc (BreakerPc.ne_setAck hack)
  | take hidle hcmd htaken hpending houtcome hack hclear hresult hsem hexecuted =>
      exact hs.take hframe hcmd htaken hpending houtcome hack hclear hexecuted
  | execute t ok htaken htaken' hpending hpending' houtcome hack hcmd hresult hsem hexecuted =>
      exact hs.execute hframe htaken htaken' hpending hpending' houtcome hack hcmd hexecuted
  | store t ok hpc hpc' hresult hcmd hsem hexecuted =>
      refine hs.keep hframe ?_ ?_ ?_ hcmd hexecuted fun u ok' hu => ?_
      · rw [hpc, hpc']
        exact fun _ => id
      · rw [hpc']
        nofun
      · rw [hpc, hpc']
        exact fun _ => id
      · rw [hpc'] at hu
        cases hu
        exact hresult
  | ack t ok hpc hpc' hcmd hresult hsem hexecuted =>
      refine hs.keep hframe ?_ ?_ ?_ hcmd hexecuted ?_
      all_goals
        rw [hpc']
        nofun

/-- The command in `CMD` stays what it is, or is taken. -/
theorem State.CmdIs.breaker {s s' : State n} {sent : Sent} (h : s.CmdIs sent)
    (hmove : BreakerMove s s') (hframe : BreakerFrame s s') : s'.CmdIs sent := by
  have hcall := hframe.cmdCall
  intro hne
  cases hmove with
  | take hidle hcmd htaken hpending houtcome hack hclear => exact absurd hclear hne
  | other _ _ _ _ hcmd | execute _ _ _ _ _ _ _ _ hcmd | store _ _ _ _ _ hcmd | ack _ _ _ _ hcmd =>
      rw [hcmd] at hne ⊢
      rw [hcall]
      exact h hne

/-- The outcome of the call a caller waits for does not change. -/
theorem Waiting.breaker {s s' : State n} {sent : Sent} (h : Waiting s sent) (hs : Commands s)
    (hmove : BreakerMove s s') (hframe : BreakerFrame s s') : Waiting s' sent := by
  have hcmd' := h.cmd.breaker hmove hframe
  cases hmove with
  | other hbreaker hpending houtcome hack hcmd hresult hsem hexecuted =>
      refine ⟨hcmd', ?_, ?_⟩
      · rw [hbreaker]
        exact h.taken
      · rw [hbreaker, hsem, hresult, hexecuted]
        exact h.ack
  | take hidle hcmd htaken hpending houtcome hack hclear hresult hsem hexecuted =>
      refine ⟨hcmd', ?_, ?_⟩
      · intro t ht
        rw [htaken] at ht
        cases ht
        exact h.cmd hcmd
      · -- an acknowledged command is not in `CMD` any more
        intro hack'
        rw [hsem] at hack'
        have hmem := (h.ack hack').2
        have hcall := congrArg Sent.call (h.cmd hcmd)
        exact absurd hcall.symm (hs.cmd_new hcmd _ hmem)
  | execute t ok htaken htaken' hpending hpending' houtcome hack hcmd hresult hsem hexecuted =>
      refine ⟨hcmd', ?_, ?_⟩
      · rw [htaken', ← htaken]
        exact h.taken
      · intro hack'
        rw [hsem] at hack'
        rw [(h.ack hack').1] at htaken
        cases htaken
  | store t ok hpc hpc' hresult hcmd hsem hexecuted =>
      refine ⟨hcmd', ?_, ?_⟩
      · intro u hu
        refine h.taken u ?_
        rw [hpc'] at hu
        rw [hpc]
        exact hu
      · intro hack'
        rw [hsem] at hack'
        have := (h.ack hack').1
        rw [hpc] at this
        cases this
  | ack t ok hpc hpc' hcmd hresult hsem hexecuted =>
      refine ⟨hcmd', ?_, fun _ => ⟨by rw [hpc']; rfl, ?_⟩⟩
      · intro u hu
        rw [hpc'] at hu
        cases hu
      · have hsent : t = sent := h.taken t (by rw [hpc]; rfl)
        have hmem := hs.outcome (t, ok) (by rw [hpc]; rfl)
        rw [hresult, hs.result t ok hpc, hexecuted, ← hsent]
        exact hmem

theorem CallerPc.Knows.breaker {s s' : State n} {pc : CallerPc} (h : pc.Knows s)
    (hs : Commands s) (hmove : BreakerMove s s') (hframe : BreakerFrame s s') : pc.Knows s' := by
  have hgrow : ∀ e ∈ s.log.executed, e ∈ s'.log.executed := by
    intro e he
    cases hmove with
    | execute t ok _ _ _ _ _ _ _ _ _ hexecuted =>
        rw [hexecuted]
        exact List.mem_append_left _ he
    | other _ _ _ _ _ _ _ hexecuted | take _ _ _ _ _ _ _ _ _ hexecuted
    | store _ _ _ _ _ _ _ hexecuted | ack _ _ _ _ _ _ _ hexecuted =>
        rw [hexecuted]
        exact he
  cases pc with
  | clearAck sent =>
      obtain ⟨hcmd, htaken⟩ := h
      refine ⟨hcmd.breaker hmove hframe, ?_⟩
      cases hmove with
      | other hbreaker =>
          rw [hbreaker]
          exact htaken
      | take hidle hne htaken' =>
          intro t ht _
          rw [htaken'] at ht
          cases ht
          exact hcmd hne
      | execute t ok htaken' htaken'' =>
          rw [htaken'', ← htaken']
          exact htaken
      | store t ok hpc hpc' =>
          intro u hu
          rw [hpc'] at hu
          refine htaken u ?_
          rw [hpc]
          exact hu
      | ack t ok hpc hpc' =>
          intro u hu
          rw [hpc'] at hu
          cases hu
  | setCmd sent | waitAck sent => exact Waiting.breaker h hs hmove hframe
  | loadResult sent =>
      refine ⟨Waiting.breaker h.1 hs hmove hframe, ?_⟩
      cases hmove with
      | other _ _ _ _ _ _ hsem | take _ _ _ _ _ _ _ _ hsem | execute _ _ _ _ _ _ _ _ _ _ hsem
      | store _ _ _ _ _ _ hsem =>
          rw [hsem]
          exact h.2
      | ack _ _ _ _ _ _ hsem => exact hsem
  | unlock ret =>
      intro hret
      obtain ⟨sent, hsent, hmem⟩ := h hret
      exact ⟨sent, hsent, hgrow _ hmem⟩
  | _ => trivial

/-! ## The callers' steps -/

/-- A caller that does not hold the lock knows nothing. -/
theorem CallerPc.knows_of_unlocked {s : State n} {pc : CallerPc} (h : pc.locked = false) :
    pc.Knows s := by
  cases pc <;> first | exact trivial | cases h

/-- What a caller knows depends on the command channel alone. -/
theorem CallerPc.Knows.congr {s s' : State n} {pc : CallerPc} (h : pc.Knows s)
    (hcmd : s'.cmd = s.cmd) (hcall : s'.cmdCall = s.cmdCall) (hbreaker : s'.breaker = s.breaker)
    (hresult : s'.cmdResult = s.cmdResult) (hsem : s'.ackSem = s.ackSem)
    (hexecuted : s'.log.executed = s.log.executed) : pc.Knows s' := by
  have hcmdIs : ∀ {sent}, s.CmdIs sent → s'.CmdIs sent := by
    intro sent h
    unfold State.CmdIs at h ⊢
    rw [hcmd, hcall]
    exact h
  have hwaiting : ∀ {sent}, Waiting s sent → Waiting s' sent := by
    intro sent h
    refine ⟨hcmdIs h.cmd, ?_, ?_⟩
    · rw [hbreaker]
      exact h.taken
    · rw [hsem, hbreaker, hresult, hexecuted]
      exact h.ack
  cases pc with
  | clearAck sent =>
      refine ⟨hcmdIs h.1, ?_⟩
      rw [hbreaker]
      exact h.2
  | setCmd sent | waitAck sent => exact hwaiting h
  | loadResult sent => exact ⟨hwaiting h.1, hsem.trans h.2⟩
  | unlock ret =>
      intro hret
      obtain ⟨sent, hsent, hmem⟩ := h hret
      exact ⟨sent, hsent, by rw [hexecuted]; exact hmem⟩
  | _ => trivial

theorem Commands.congr {s s' : State n} (hs : Commands s) (hcmd : s'.cmd = s.cmd)
    (hcall : s'.cmdCall = s.cmdCall) (hbreaker : s'.breaker = s.breaker)
    (hresult : s'.cmdResult = s.cmdResult) (hcalls : s'.calls = s.calls)
    (hexecuted : s'.log.executed = s.log.executed) : Commands s' := by
  constructor
  · rw [hexecuted]
    exact hs.nodup
  · rw [hexecuted, hcalls]
    exact hs.executed_lt
  · rw [hbreaker, hcalls]
    exact hs.taken_lt
  · rw [hcmd, hcall, hcalls]
    exact hs.cmd_lt
  · rw [hcmd, hcall, hexecuted]
    exact hs.cmd_new
  · rw [hcmd, hcall, hbreaker]
    exact hs.cmd_taken
  · rw [hbreaker, hexecuted]
    exact hs.pending_new
  · rw [hbreaker, hexecuted]
    exact hs.outcome
  · rw [hbreaker, hresult]
    exact hs.result

/-- A step of caller `i` to `pc` keeps the channel when it keeps the commands, the lock
and what `i` knows, and the other lock holders are not disturbed. -/
theorem Channel.move {s s' : State n} {i : Fin n} {pc : CallerPc}
    (hcallers : s'.callers = Function.update s.callers i pc) (hcommands : Commands s')
    (hlock : pc.locked = true → s'.controlLock = some i) (hknows : pc.Knows s')
    (hothers : ∀ j, j ≠ i → (s.callers j).locked = true → s'.controlLock = some j ∧
      (s.callers j).Knows s')
    (hown : ∀ r ∈ s'.log.returned, r.result = true ∨ r.acked = true →
      ∃ sent, r.sent = some sent ∧ (sent, r.result) ∈ s'.log.executed) : Channel s' := by
  refine ⟨hcommands, fun j hj => ?_, fun j => ?_, hown⟩
  · rw [hcallers] at hj
    by_cases hji : j = i
    · subst hji
      rw [Function.update_self] at hj
      exact hlock hj
    · rw [Function.update_of_ne hji] at hj
      exact (hothers j hji hj).1
  · rw [hcallers]
    by_cases hji : j = i
    · subst hji
      rw [Function.update_self]
      exact hknows
    · rw [Function.update_of_ne hji]
      cases hj : (s.callers j).locked with
      | true => exact (hothers j hji hj).2
      | false => exact CallerPc.knows_of_unlocked hj

/-- A step of caller `i` to `pc` that leaves the channel and the lock alone. -/
theorem Channel.goto {s : State n} {i : Fin n} {pc : CallerPc} (hs : Channel s)
    (hlock : pc.locked = true → s.controlLock = some i) (hknows : pc.Knows s) :
    Channel (s.callerGoto i pc) := by
  refine Channel.move rfl (hs.commands.congr rfl rfl rfl rfl rfl rfl) hlock
    (hknows.congr rfl rfl rfl rfl rfl rfl) (fun j _ hj => ⟨hs.locked j hj, ?_⟩) hs.own
  exact (hs.knows j).congr rfl rfl rfl rfl rfl rfl

/-- While caller `i` holds the lock, nobody else does. -/
theorem Channel.alone {s : State n} (hs : Channel s) {i j : Fin n}
    (hi : (s.callers i).locked = true) (hji : j ≠ i) (hj : (s.callers j).locked = true) : False := by
  have heq := (hs.locked j hj).symm.trans (hs.locked i hi)
  exact hji (Option.some.inj heq)

theorem Channel.caller {s s' : State n} {i : Fin n} {woke : Bool} (hs : Channel s)
    (hquiet : ackQuiet s (.caller i woke)) (hstep : callerStep s i woke = some s') :
    Channel s' := by
  have hknows := hs.knows i
  have hlocked := hs.locked i
  have halone := fun {j} => hs.alone (i := i) (j := j)
  unfold callerStep at hstep
  cases hpc : s.callers i with
  | idle =>
      rw [hpc] at hstep
      cases hstep
  | testStop | testResume =>
      rw [hpc] at hstep
      cases hstep
      split
      · exact hs.goto nofun trivial
      · exact hs.goto nofun trivial
  | lock cmd =>
      rw [hpc] at hstep
      simp only at hstep
      split at hstep
      case isFalse => cases hstep
      case isTrue hfree =>
        cases hstep
        refine Channel.move rfl (hs.commands.congr rfl rfl rfl rfl rfl rfl) (fun _ => rfl) trivial
          (fun j _ hj => ?_) hs.own
        rw [hs.locked j hj] at hfree
        cases hfree
  | loadSems cmd =>
      rw [hpc] at hstep hlocked
      cases hstep
      split
      · exact hs.goto (fun _ => hlocked rfl) trivial
      · exact hs.goto (fun _ => hlocked rfl) nofun
  | storeCmd cmd =>
      rw [hpc] at hstep hlocked halone
      cases hstep
      have hc := hs.commands
      refine Channel.move rfl ?_ (fun _ => hlocked rfl) ⟨fun _ => rfl, ?_⟩
        (fun j hji hj => (halone rfl hji hj).elim) hs.own
      · refine ⟨hc.nodup, fun e he => Nat.lt_succ_of_lt (hc.executed_lt e he),
          fun t ht => Nat.lt_succ_of_lt (hc.taken_lt t ht), fun _ => Nat.lt_succ_self _,
          fun _ e he => (hc.executed_lt e he).ne, fun _ t ht => (hc.taken_lt t ht).ne,
          hc.pending_new, hc.outcome, hc.result⟩
      · intro t ht heq
        exact absurd heq (hc.taken_lt t ht).ne
  | clearAck sent =>
      rw [hpc] at hstep hlocked halone hknows
      cases hstep
      have hquiet := hquiet sent (by rw [hpc]; rfl)
      refine Channel.move rfl (hs.commands.congr rfl rfl rfl rfl rfl rfl) (fun _ => hlocked rfl)
        ⟨hknows.1, fun t ht => hknows.2 t ht (hquiet t ht), nofun⟩
        (fun j hji hj => (halone rfl hji hj).elim) hs.own
  | setCmd sent =>
      rw [hpc] at hstep hlocked halone hknows
      cases hstep
      exact Channel.move rfl (hs.commands.congr rfl rfl rfl rfl rfl rfl) (fun _ => hlocked rfl)
        (CallerPc.Knows.congr (show (CallerPc.waitAck sent).Knows s from hknows)
          rfl rfl rfl rfl rfl rfl)
        (fun j hji hj => (halone rfl hji hj).elim) hs.own
  | waitAck sent =>
      rw [hpc] at hstep hlocked hknows
      simp only at hstep
      split at hstep
      case isTrue =>
        split at hstep
        case isTrue hack =>
          cases hstep
          exact hs.goto (fun _ => hlocked rfl) ⟨hknows, hack⟩
        case isFalse => cases hstep
      case isFalse =>
        cases hstep
        exact hs.goto (fun _ => hlocked rfl) nofun
  | loadResult sent =>
      rw [hpc] at hstep hlocked hknows
      cases hstep
      exact hs.goto (fun _ => hlocked rfl) fun _ => ⟨sent, rfl, (hknows.1.ack hknows.2).2⟩
  | unlock ret =>
      rw [hpc] at hstep halone hknows
      cases hstep
      refine Channel.move rfl (hs.commands.congr rfl rfl rfl rfl rfl rfl) nofun trivial
        (fun j hji hj => (halone rfl hji hj).elim) fun r hr hret => ?_
      obtain hr | hr := List.mem_append.mp hr
      · exact hs.own r hr hret
      · rw [List.mem_singleton.mp hr] at hret ⊢
        exact hknows hret

/-! ## Runs -/

theorem Channel.step {s s' : State n} {a : Action n} (hs : Channel s) (hquiet : ackQuiet s a)
    (hstep : step s a = some s') : Channel s' := by
  cases a with
  | caller i woke => exact hs.caller hquiet hstep
  | breaker ok =>
      obtain ⟨hmove, hframe⟩ := breakerStep_move hstep
      have hgrow : ∀ e ∈ s.log.executed, e ∈ s'.log.executed := by
        intro e he
        cases hmove with
        | execute t ok _ _ _ _ _ _ _ _ _ hexecuted =>
            rw [hexecuted]
            exact List.mem_append_left _ he
        | other _ _ _ _ _ _ _ hexecuted | take _ _ _ _ _ _ _ _ _ hexecuted
        | store _ _ _ _ _ _ _ hexecuted | ack _ _ _ _ _ _ _ hexecuted =>
            rw [hexecuted]
            exact he
      refine ⟨hs.commands.breaker hmove hframe, fun i hi => ?_, fun i => ?_, fun r hr hret => ?_⟩
      · rw [hframe.callers] at hi
        rw [hframe.controlLock]
        exact hs.locked i hi
      · rw [hframe.callers]
        exact (hs.knows i).breaker hs.commands hmove hframe
      · rw [hframe.returned] at hr
        obtain ⟨sent, hsent, hmem⟩ := hs.own r hr hret
        exact ⟨sent, hsent, hgrow _ hmem⟩
  | request i request =>
      simp only [Breaker.step] at hstep
      split at hstep <;> cases hstep
      refine hs.goto (fun hlocked => ?_) ?_
      · cases request <;> cases hlocked
      · cases request <;> trivial
  | hit | pulse | armWatchdog ticks =>
      cases hstep
      exact ⟨hs.commands.congr rfl rfl rfl rfl rfl rfl, hs.locked,
        fun i => (hs.knows i).congr rfl rfl rfl rfl rfl rfl, hs.own⟩

theorem Channel.init : Channel (State.init n) where
  commands := ⟨List.nodup_nil, nofun, nofun, nofun, nofun, nofun, nofun, nofun, nofun⟩
  locked := nofun
  knows _ := trivial
  own := nofun

/-- On a run in which no call clears `ACK_SEM` under the command of an earlier one,
commands and results always match, whatever Pin answers and whichever waits time
out. -/
theorem matched_of_quiet (n : Nat) (as : List (Action n))
    (hquiet : Guarded step ackQuiet (State.init n) as) :
    Always step Matched (State.init n) as := by
  have halways := hquiet.always (fun hI hC => Channel.step hI hC) Channel.init
  exact fun pre t hpre hrun =>
    ⟨(halways pre t hpre hrun).own, (halways pre t hpre hrun).commands.nodup⟩

/-! ## A late acknowledgement -/

instance (s : State n) : (a : Action n) → Decidable (ackQuiet s a)
  | .caller i _ =>
      inferInstanceAs (Decidable (∀ sent ∈ (s.callers i).clears, ∀ taken ∈ s.breaker.taken,
        taken.call = sent.call))
  | .request _ _ | .hit | .pulse | .armWatchdog _ | .breaker _ => isTrue trivial

/-- The stop of the query server takes longer than its wait.  The script host asks for a
stop as well, and its call clears `ACK_SEM` before the first stop is acknowledged. -/
def lateAck : List (Action 2) :=
  sendCommand queryServer .stop ++ List.replicate 6 (.breaker true) ++
    List.replicate 2 (.caller queryServer false) ++
    .request scriptHost .stop :: List.replicate 5 (.caller scriptHost false) ++
    List.replicate 6 (.breaker true) ++ .caller scriptHost false :: receiveAck scriptHost

/-- The script host's call returns true for the stop of the query server.  Its own
command has not been executed. -/
theorem late_ack_taken : ¬ ∀ (n : Nat) (as : List (Action n)),
    Always step Matched (State.init n) as := by
  intro hall
  have hrun : (run step (State.init 2) lateAck).map
      (fun s => (s.log.returned, s.log.executed)) =
      some ([⟨some ⟨0, cmdStop⟩, false, false⟩, ⟨some ⟨1, cmdStop⟩, true, true⟩],
        [(⟨0, cmdStop⟩, true)]) := by decide +kernel
  obtain ⟨s, hs, hlog⟩ := Option.map_eq_some_iff.mp hrun
  simp only [Prod.mk.injEq] at hlog
  obtain ⟨sent, hsent, hmem⟩ := ((hall 2 lateAck).last hs).own ⟨some ⟨1, cmdStop⟩, true, true⟩
    (by rw [hlog.1]; decide) (.inl rfl)
  cases hsent
  rw [hlog.2] at hmem
  simp at hmem

/-- A stop that times out before the breaker takes it, and a resume that overwrites it. -/
theorem matched_of_quiet_run :
    Always step Matched (State.init 2)
      (sendCommand queryServer .stop ++ List.replicate 2 (.caller queryServer false) ++
        .request scriptHost (.command cmdResume) :: List.replicate 5 (.caller scriptHost false) ++
        List.replicate 10 (.breaker true) ++ receiveAck scriptHost) :=
  matched_of_quiet 2 _ (by decide +kernel)

end PinBridge.Breaker
