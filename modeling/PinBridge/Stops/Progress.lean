import PinBridge.Stops.Machine

/-!
# Progress past execution traps

A trap stop redirects its thread in front of the trapped instruction, and nothing suppresses the
replay: `on_execute` looks at neither `RESUME_SKIP` nor the stepper.  So a persistent trap claims
the next stop at the replay.  `trapStops_advance` says that a thread executes the instruction
between two trap stops there if no attempt at an instruction in front of which a trap stop has
put the thread claims another stop.
-/

namespace PinBridge.Stops

open Breakpoints (Table SlotIndex)
open Transition

variable {τ : Type*} [DecidableEq τ]

/-! ## The property -/

/-- The later stop at the same thread and address has a higher count. -/
def TrapStop.Advances (later earlier : TrapStop τ) : Prop :=
  earlier.thread = later.thread → earlier.address = later.address → earlier.count < later.count

/-- Between two trap stops of a thread at an address, the thread has executed the instruction
there.  The newest stop is the first. -/
def State.Progresses (s : State τ) : Prop := s.log.trapStops.Pairwise TrapStop.Advances

variable (is64 : Bool)

/-- A thread that a trap stop has put in front of its instruction attempts it without another
claim: the breakpoint callback redirects it first, `STOP_CLAIMED` is taken, or no live trap
matches. -/
def Unblocked (s : State τ) : Action τ → Prop
  | .attempt t c =>
      s.log.held t (s.ips t) = true → (s.firstCallback is64 t c).redirected = false →
        s.trapClaims t = false
  | _ => True

instance (s : State τ) : (a : Action τ) → Decidable (Unblocked is64 s a)
  | .attempt t _ => inferInstanceAs (Decidable (s.log.held t (s.ips t) = true → _ → _))
  | .compile _ | .setBreakpoint .. | .flush _ | .removeBreakpoint _ | .setTrap _ | .removeTrap _
  | .stop | .edit .. | .resume | .step .. | .resumed => isTrue trivial

/-! ## The invariant -/

/-- What is known about a stop that is pending, or has been published. -/
structure Advancing (s : State τ) : Prop where
  published : ∀ e ∈ s.log.trapStops, e.count ≤ s.log.executions e.thread e.address ∧
    (e.count = s.log.executions e.thread e.address → s.log.held e.thread e.address = true)
  pending : ∀ e ∈ s.pending, e.count ≤ s.log.executions e.thread e.address ∧
    (e.count = s.log.executions e.thread e.address → s.redirect = some (e.thread, e.address)) ∧
    ∀ e' ∈ s.log.trapStops, e.Advances e'
  claimed : s.pending ≠ none → s.stopClaimed = true
  stopped : s.phase = .stopped → s.pending = none
  progresses : s.Progresses

/-- What `exact_stop` and the first callback of thread `t` leave alone. -/
structure Outcome.Passive (s : State τ) (t : τ) (o : Outcome τ) : Prop where
  traps : o.state.traps = s.traps
  stopClaimed : o.state.stopClaimed = s.stopClaimed
  pending : o.state.pending = s.pending
  phase : o.state.phase = s.phase
  executions : o.state.log.executions = s.log.executions
  held : o.state.log.held = s.log.held
  trapStops : o.state.log.trapStops = s.log.trapStops
  redirect : o.redirected = false → o.state.redirect = s.redirect ∧ o.state.ips t = s.ips t
  free : o.redirected = true → s.redirect = none

omit [DecidableEq τ] in
theorem Outcome.Passive.refl (s : State τ) (t : τ) : Outcome.Passive s t ⟨s, false⟩ :=
  ⟨rfl, rfl, rfl, rfl, rfl, rfl, rfl, fun _ => ⟨rfl, rfl⟩, nofun⟩

omit [DecidableEq τ] in
/-- A callback that changes something else first. -/
theorem Outcome.Passive.of_state {s s' : State τ} {t : τ} {o : Outcome τ}
    (h : Outcome.Passive s t ⟨s', false⟩) (ho : Outcome.Passive s' t o) :
    Outcome.Passive s t o where
  traps := ho.traps.trans h.traps
  stopClaimed := ho.stopClaimed.trans h.stopClaimed
  pending := ho.pending.trans h.pending
  phase := ho.phase.trans h.phase
  executions := ho.executions.trans h.executions
  held := ho.held.trans h.held
  trapStops := ho.trapStops.trans h.trapStops
  redirect hstay := ⟨(ho.redirect hstay).1.trans (h.redirect rfl).1,
    (ho.redirect hstay).2.trans (h.redirect rfl).2⟩
  free hgone := (h.redirect rfl).1.symm.trans (ho.free hgone)

theorem State.exactStop_passive (s : State τ) (t : τ) (address : UInt64) (redirects : Bool) :
    Outcome.Passive s t (s.exactStop t address redirects) := by
  simp only [State.exactStop]
  split
  · rename_i hfree
    refine ⟨rfl, rfl, rfl, rfl, rfl, rfl, rfl, nofun, fun _ => ?_⟩
    exact Option.isNone_iff_eq_none.mp (Bool.and_eq_true_iff.mp hfree).2
  · exact { Outcome.Passive.refl s t with }

theorem State.onHit_passive (s : State τ) (t : τ) (i : SlotIndex) (redirects : Bool) :
    Outcome.Passive s t (s.onHit is64 t i redirects) := by
  have hreport : ∀ s' : State τ, Outcome.Passive s t ⟨s', false⟩ →
      Outcome.Passive s t (s'.report is64 t i redirects) := by
    intro s' h
    simp only [State.report]
    refine h.of_state (.of_state ?_ (State.exactStop_passive _ t _ redirects))
    exact { Outcome.Passive.refl s' t with }
  simp only [State.onHit]
  split
  · exact { Outcome.Passive.refl s t with }
  split
  case h_2 => exact hreport s (.refl s t)
  split
  · split
    · exact { Outcome.Passive.refl s t with }
    · exact hreport _ { Outcome.Passive.refl s t with }
  · exact hreport s (.refl s t)

theorem State.onStepHit_passive (s : State τ) (t : τ) (index : Fin maxCandidates)
    (redirects : Bool) : Outcome.Passive s t (s.onStepHit t index redirects) := by
  simp only [State.onStepHit]
  split
  · exact { Outcome.Passive.refl s t with }
  split
  · refine .of_state ?_ (State.exactStop_passive _ t _ redirects)
    exact { Outcome.Passive.refl s t with }
  · exact .refl s t

omit [DecidableEq τ] in
theorem State.pass_passive (s : State τ) (t : τ) : Outcome.Passive s t ⟨s.pass t, false⟩ := by
  unfold State.pass
  split
  · exact { Outcome.Passive.refl s t with }
  · exact .refl s t

theorem State.firstCallback_passive (s : State τ) (t : τ) (c : Attempt) :
    Outcome.Passive s t (s.firstCallback is64 t c) := by
  unfold State.firstCallback
  split
  · split
    · exact State.onHit_passive is64 s t _ c.redirects
    · exact s.pass_passive t
  · split
    · exact (s.pass_passive t).of_state (State.onStepHit_passive _ t _ c.redirects)
    · exact s.pass_passive t

/-! ## Attempts -/

/-- `Advancing` with a pending stop of thread `t` that is about to execute its instruction. -/
structure Executing (s : State τ) (t : τ) : Prop where
  published : ∀ e ∈ s.log.trapStops, e.count ≤ s.log.executions e.thread e.address ∧
    (e.count = s.log.executions e.thread e.address → s.log.held e.thread e.address = true)
  pending : ∀ e ∈ s.pending, e.count ≤ s.log.executions e.thread e.address ∧
    (e.count = s.log.executions e.thread e.address →
      s.redirect = some (e.thread, e.address) ∨ e.thread = t ∧ e.address = s.ips t) ∧
    ∀ e' ∈ s.log.trapStops, e.Advances e'
  claimed : s.pending ≠ none → s.stopClaimed = true
  progresses : s.Progresses

theorem Executing.proceed {s : State τ} {t : τ} (h : Executing s t) (c : Attempt)
    (hrunning : s.phase ≠ .stopped) : Advancing (s.proceed t c) := by
  have hexecutions : ∀ u address, (s.proceed t c).log.executions u address =
      if u = t ∧ address = s.ips t then s.log.executions u address + 1
      else s.log.executions u address := by
    intro u address
    simp only [State.proceed, State.execute]
    by_cases hu : u = t
    · subst hu
      by_cases haddress : address = s.ips u
      · subst haddress
        simp
      · simp [haddress]
    · simp [hu]
  have hheld : ∀ u address, ¬ (u = t ∧ address = s.ips t) →
      (s.proceed t c).log.held u address = s.log.held u address := by
    intro u address hother
    simp only [State.proceed, State.execute]
    by_cases hu : u = t
    · subst hu
      rw [Function.update_self, Function.update_of_ne fun heq => hother ⟨rfl, heq⟩]
    · rw [Function.update_of_ne hu]
  refine ⟨fun e he => ?_, fun e he => ?_, h.claimed, fun hstopped => absurd hstopped hrunning,
    h.progresses⟩
  · obtain ⟨hle, hcount⟩ := h.published e he
    rw [hexecutions]
    split
    · exact ⟨by omega, fun heq => by omega⟩
    · rename_i hother
      rw [hheld _ _ hother]
      exact ⟨hle, hcount⟩
  · obtain ⟨hle, hcount, hadvances⟩ := h.pending e he
    rw [hexecutions]
    split
    · exact ⟨by omega, fun heq => by omega, hadvances⟩
    · rename_i hother
      exact ⟨hle, fun heq => (hcount heq).resolve_right hother, hadvances⟩

omit [DecidableEq τ] in
theorem Advancing.executing {s : State τ} (h : Advancing s) (t : τ) : Executing s t where
  published := h.published
  pending e he :=
    ⟨(h.pending e he).1, fun heq => .inl ((h.pending e he).2.1 heq), (h.pending e he).2.2⟩
  claimed := h.claimed
  progresses := h.progresses

/-- A claim at an instruction in front of which no trap stop has put the thread. -/
theorem State.onExecute_advancing {s : State τ} (h : Advancing s) {t : τ}
    (hrunning : s.phase ≠ .stopped)
    (hguard : s.log.held t (s.ips t) = true → s.trapClaims t = false) (redirects : Bool) :
    (s.onExecute t redirects).state.phase = s.phase ∧
      Executing (s.onExecute t redirects).state t ∧
      ((s.onExecute t redirects).redirected = true → Advancing (s.onExecute t redirects).state) := by
  unfold State.onExecute
  split
  case isFalse => exact ⟨rfl, h.executing t, nofun⟩
  rename_i hclaims
  have hnew : ∀ e ∈ s.log.trapStops,
      TrapStop.Advances ⟨t, s.ips t, s.log.executions t (s.ips t)⟩ e := by
    rintro e he (ht : e.thread = t) (ha : e.address = s.ips t)
    obtain ⟨hle, hcount⟩ := h.published e he
    rw [ht, ha] at hle hcount
    refine lt_of_le_of_ne hle fun heq => ?_
    rw [hguard (hcount heq)] at hclaims
    cases hclaims
  simp only [State.exactStop]
  split
  · refine ⟨rfl, ⟨h.published, fun e he => ?_, fun _ => rfl, h.progresses⟩, fun _ =>
      ⟨h.published, fun e he => ?_, fun _ => rfl, fun hstopped => absurd hstopped hrunning,
        h.progresses⟩⟩
    · cases he
      exact ⟨le_refl _, fun _ => .inl rfl, hnew⟩
    · cases he
      exact ⟨le_refl _, fun _ => rfl, hnew⟩
  · refine ⟨rfl, ⟨h.published, fun e he => ?_, fun _ => rfl, h.progresses⟩, nofun⟩
    cases he
    exact ⟨le_refl _, fun _ => .inr ⟨rfl, rfl⟩, hnew⟩

omit [DecidableEq τ] in
theorem Advancing.passive {s : State τ} (h : Advancing s) {t : τ} {o : Outcome τ}
    (ho : Outcome.Passive s t o) : Advancing o.state := by
  have hredirect : ∀ p, s.redirect = some p → o.state.redirect = some p := by
    intro p hp
    cases hgone : o.redirected with
    | true =>
        rw [ho.free hgone] at hp
        cases hp
    | false => exact (ho.redirect hgone).1.trans hp
  refine ⟨?_, ?_, ?_, ?_, ?_⟩
  · rw [ho.trapStops, ho.executions, ho.held]
    exact h.published
  · rw [ho.pending, ho.executions, ho.trapStops]
    intro e he
    obtain ⟨hle, hcount, hadvances⟩ := h.pending e he
    exact ⟨hle, fun heq => hredirect _ (hcount heq), hadvances⟩
  · rw [ho.pending, ho.stopClaimed]
    exact h.claimed
  · rw [ho.phase, ho.pending]
    exact h.stopped
  · rw [State.Progresses, ho.trapStops]
    exact h.progresses

theorem Advancing.logAttempt {s : State τ} (h : Advancing s) (t : τ) :
    Advancing (s.logAttempt t) :=
  ⟨h.published, h.pending, h.claimed, h.stopped, h.progresses⟩

theorem Advancing.attempt {s : State τ} (h : Advancing s) {t : τ} {c : Attempt}
    (hguard : Unblocked is64 s (.attempt t c)) (hrunning : s.phase ≠ .stopped) :
    Advancing (s.attempt is64 t c) := by
  have hpassive := State.firstCallback_passive is64 s t c
  have hfirst := h.passive hpassive
  refine Advancing.logAttempt ?_ t
  simp only [State.callbacks, Outcome.andThen]
  cases hgone : (s.firstCallback is64 t c).redirected with
  | true =>
      simp only [if_true, hgone]
      exact hfirst
  | false =>
      have hips := (hpassive.redirect hgone).2
      obtain ⟨hphase, hexecuting, hadvancing⟩ := State.onExecute_advancing hfirst
        (by rwa [hpassive.phase]) (t := t) (fun hheld => by
          rw [hpassive.held, hips] at hheld
          have := hguard hheld hgone
          rwa [State.trapClaims, State.matching, hpassive.stopClaimed, hpassive.traps, hips])
        c.redirects
      simp only [Bool.false_eq_true, if_false]
      split
      · rename_i hredirected
        exact hadvancing hredirected
      · exact hexecuting.proceed c (by rwa [hphase, hpassive.phase])

/-! ## Commands -/

/-- The pending stop is published. -/
theorem Advancing.stop {s : State τ} (h : Advancing s) : Advancing s.stop := by
  have hheld : ∀ t address, s.log.held t address = true → s.stop.log.held t address = true :=
    fun t address hheld => Bool.or_eq_true_iff.mpr (.inl hheld)
  cases hpending : s.pending with
  | none =>
      have hstops : s.stop.log.trapStops = s.log.trapStops := by simp [State.stop, hpending]
      refine ⟨fun e he => ?_, nofun, fun hne => absurd rfl hne, fun _ => rfl, ?_⟩
      · rw [hstops] at he
        obtain ⟨hle, hcount⟩ := h.published e he
        exact ⟨hle, fun heq => hheld _ _ (hcount heq)⟩
      · rw [State.Progresses, hstops]
        exact h.progresses
  | some e =>
      obtain ⟨hle, hcount, hadvances⟩ := h.pending e hpending
      have hstops : s.stop.log.trapStops = e :: s.log.trapStops := by simp [State.stop, hpending]
      refine ⟨fun e' he => ?_, nofun, fun hne => absurd rfl hne, fun _ => rfl, ?_⟩
      · rw [hstops] at he
        rcases List.mem_cons.mp he with rfl | he
        · refine ⟨hle, fun heq => Bool.or_eq_true_iff.mpr (.inr ?_)⟩
          rw [hpending, hcount heq]
          simp
        · obtain ⟨hle, hcount⟩ := h.published e' he
          exact ⟨hle, fun heq => hheld _ _ (hcount heq)⟩
      · rw [State.Progresses, hstops]
        exact List.pairwise_cons.mpr ⟨hadvances, h.progresses⟩

theorem Advancing.step {s s' : State τ} {a : Action τ} (h : Advancing s)
    (hguard : Unblocked is64 s a) (hstep : step is64 s a = some s') : Advancing s' := by
  cases a with
  | attempt t c =>
      simp only [Stops.step] at hstep
      split at hstep <;> cases hstep
      rename_i henabled
      exact h.attempt is64 hguard henabled.1
  | compile | setBreakpoint | flush | setTrap | removeTrap =>
      cases hstep
      exact { h with }
  | removeBreakpoint id =>
      cases hstep
      unfold State.removeBreakpoint
      split
      · exact { h with }
      · exact h
  | stop =>
      simp only [Stops.step] at hstep
      split at hstep <;> cases hstep
      exact h.stop
  | edit t ip =>
      simp only [Stops.step] at hstep
      split at hstep <;> cases hstep
      exact { h with }
  | resume | step =>
      simp only [Stops.step] at hstep
      split at hstep <;> cases hstep
      rename_i hstopped
      have hnone := h.stopped hstopped
      refine ⟨h.published, fun e he => ?_, h.claimed, nofun, h.progresses⟩
      cases hnone.symm.trans he
  | resumed =>
      simp only [Stops.step] at hstep
      split at hstep <;> cases hstep
      exact ⟨h.published, nofun, fun hne => absurd rfl hne, nofun, h.progresses⟩

/-! ## Runs -/

omit [DecidableEq τ] in
theorem Advancing.init (ips : τ → UInt64) : Advancing (State.init ips) where
  published := nofun
  pending := nofun
  claimed hne := absurd rfl hne
  stopped _ := rfl
  progresses := .nil

/-- Between two trap stops of a thread at an address the thread has executed the instruction
there, on every run of any threads and commands whose attempts are not blocked. -/
theorem trapStops_advance {as : List (Action τ)} (ips : τ → UInt64)
    (h : Guarded (step is64) (Unblocked is64) (State.init ips) as) :
    Always (step is64) State.Progresses (State.init ips) as := by
  have hadvancing := Guarded.always (I := Advancing)
    (fun hadvancing hguard hstep => hadvancing.step is64 hguard hstep) h (Advancing.init ips)
  intro pre s hpre hrun
  exact (hadvancing pre s hpre hrun).progresses

/-- Thread `t` is about to run into a persistent trap where no breakpoint stands. -/
structure Trapped (s : State τ) (t : τ) : Prop where
  running : s.phase = .running
  free : s.redirect = none
  unclaimed : s.stopClaimed = false
  unbroken : s.breaks (s.ips t) = false
  compiled : none ∈ s.cache (s.ips t)
  trap : ∃ trap ∈ s.traps, trap.oneShot = false ∧ trap.covers t (s.ips t) = true

/-- The trap stop of a trapped thread, up to the end of the resume. -/
theorem Trapped.cycle {s : State τ} {t : τ} (h : Trapped s t) {c : Attempt}
    (hc : c.redirects = true ∧ c.slot = none ∧ c.landing = none) :
    ∃ s', run (step is64) s [.attempt t c, .stop, .resume, .resumed] = some s' ∧ Trapped s' t ∧
      s'.ips t = s.ips t ∧ s'.log.executions = s.log.executions ∧
      s'.log.trapStops = ⟨t, s.ips t, s.log.executions t (s.ips t)⟩ :: s.log.trapStops := by
  obtain ⟨trap, hmem, hone, hcovers⟩ := h.trap
  have hfirst : s.firstCallback is64 t c = ⟨s, false⟩ := by
    simp [State.firstCallback, State.pass, h.unbroken, hc.2]
  have hclaims : s.trapClaims t = true := by
    simp only [State.trapClaims, h.unclaimed, Bool.not_false, Bool.true_and, Bool.not_eq_true',
      List.isEmpty_eq_false_iff]
    exact List.ne_nil_of_mem (List.mem_filter.mpr ⟨hmem, hcovers⟩)
  have hcallbacks : s.callbacks is64 t c = ⟨{ s with
      traps := s.traps.filter fun trap => !(trap.oneShot && trap.covers t (s.ips t))
      stopClaimed := true
      pending := some ⟨t, s.ips t, s.log.executions t (s.ips t)⟩
      lastHit := some (t, s.ips t)
      redirect := some (t, s.ips t)
      ips := Function.update s.ips t (s.ips t)
      log := { s.log with attempted := Function.update s.log.attempted t (some (s.ips t)) } },
      true⟩ := by
    simp [State.callbacks, Outcome.andThen, hfirst, State.onExecute, hclaims, State.exactStop,
      hc.1, h.free]
  have hattempt : (s.attempt is64 t c) = (s.callbacks is64 t c).state.logAttempt t := by
    rw [State.attempt, hcallbacks]
    rfl
  have hpersists : trap ∈ s.traps.filter fun trap => !(trap.oneShot && trap.covers t (s.ips t)) :=
    List.mem_filter.mpr ⟨hmem, by simp [hone]⟩
  refine ⟨(s.attempt is64 t c).stop.resume.resumed, ?_, ?_, ?_, ?_, ?_⟩
  · have hstopped : s.phase ≠ .stopped := by rw [h.running]; exact nofun
    have hphase : (s.attempt is64 t c).phase = .running := by
      rw [hattempt, hcallbacks]
      exact h.running
    simp [run_cons, Stops.step, hstopped, h.free, hphase, State.stop, State.resume, hc.2.1,
      h.compiled]
  · rw [hattempt, hcallbacks]
    refine ⟨rfl, rfl, rfl, ?_, ?_, trap, hpersists, hone, ?_⟩
    · simpa [State.logAttempt, State.stop, State.resume, State.resumed, State.breaks]
        using h.unbroken
    · simpa [State.logAttempt, State.stop, State.resume, State.resumed] using h.compiled
    · simpa [State.logAttempt, State.stop, State.resume, State.resumed] using hcovers
  · rw [hattempt, hcallbacks]
    simp [State.logAttempt, State.stop, State.resume, State.resumed]
  · rw [hattempt, hcallbacks]
    rfl
  · rw [hattempt, hcallbacks]
    rfl

/-- A plain resume from the stop of a persistent trap leads to the next stop there, and the
thread has executed nothing in between. -/
theorem Trapped.stops_again {s : State τ} {t : τ} (h : Trapped s t) {c : Attempt}
    (hc : c.redirects = true ∧ c.slot = none ∧ c.landing = none) :
    ∃ s', run (step is64) s [.attempt t c, .stop, .resume, .resumed, .attempt t c, .stop, .resume,
        .resumed] = some s' ∧
      s'.log.trapStops = ⟨t, s.ips t, s.log.executions t (s.ips t)⟩ ::
        ⟨t, s.ips t, s.log.executions t (s.ips t)⟩ :: s.log.trapStops := by
  obtain ⟨u, hrun, htrapped, hips, hexecutions, hstops⟩ := h.cycle is64 hc
  obtain ⟨v, hrun', -, -, -, hstops'⟩ := htrapped.cycle is64 hc
  refine ⟨v, ?_, ?_⟩
  · show run (step is64) s ([.attempt t c, .stop, .resume, .resumed] ++
      [.attempt t c, .stop, .resume, .resumed]) = some v
    rw [run_append, hrun]
    exact hrun'
  · rw [hstops', hstops, hips, hexecutions]

/-- An attempt of code without breakpoint callbacks, at an instruction that leads to `next`. -/
def plainTo (next : UInt64) : Attempt := ⟨next, none, true, none, false, false⟩

/-- A persistent trap is removed at its stop and set again after the instruction. -/
theorem trapStops_advance_removed :
    Always (step true) State.Progresses (State.init fun _ : Nat => 0x1000)
      [.setTrap ⟨⟨0x1000, 0x1001, false, none⟩, 1⟩, .compile 0x1000, .attempt 1 (plainTo 0x1000),
        .stop, .removeTrap 1, .resume, .resumed, .attempt 1 (plainTo 0x1000),
        .setTrap ⟨⟨0x1000, 0x1001, false, none⟩, 2⟩, .attempt 1 (plainTo 0x1000), .stop] :=
  trapStops_advance true _ (by decide +kernel)

/-- A persistent trap stops thread 1, and stops it again at the replay. -/
def blocked : List (Action Nat) :=
  [.setTrap ⟨⟨0x1000, 0x1001, false, none⟩, 1⟩, .compile 0x1000, .attempt 1 (plainTo 0x2000),
    .stop, .resume, .resumed, .attempt 1 (plainTo 0x2000), .stop]

/-- Thread 1 has two trap stops and has executed nothing. -/
theorem trap_stop_repeats :
    ¬ ∀ (is64 : Bool) (ips : Nat → UInt64) (as : List (Action Nat)) (s : State Nat),
      run (step is64) (State.init ips) as = some s → s.Progresses := by
  intro h
  have hrepeats : (run (step true) (State.init fun _ => 0x1000) blocked).map
      (fun s => s.log.trapStops) = some [⟨1, 0x1000, 0⟩, ⟨1, 0x1000, 0⟩] := by
    decide +kernel
  obtain ⟨s, hrun, hs⟩ := Option.map_eq_some_iff.mp hrepeats
  have := h true _ blocked s hrun
  rw [State.Progresses, hs] at this
  exact absurd ((List.pairwise_cons.mp this).1 _ List.mem_cons_self rfl rfl) (Nat.lt_irrefl 0)

end PinBridge.Stops
