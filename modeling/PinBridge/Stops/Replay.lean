import PinBridge.Lib.Sizes
import PinBridge.Stops.Machine

/-!
# Replays of breakpoints

`RESUME_SKIP` is a thread and an address, armed by a plain resume from the last hit, whatever
stopped the thread there.  It is consumed only when the thread executes some breakpoint.  So it
outlives the replay when no breakpoint stands at the address at the replay, and then swallows a
hit.  A callback whose slot has been given to another address is worse: it reports that address
and takes the thread there.  `hits_expected` says when neither happens: then an execution of a
live breakpoint is reported, or it is the second attempt at the instruction that the last stop
took the thread back to, or it is the instruction that a step starts from.
-/

namespace PinBridge.Stops

open Breakpoints (Table SlotIndex)
open Transition
open scoped Sizes

variable {τ : Type*} [DecidableEq τ]

/-! ## The property -/

/-- The execution was reported as what it is, or it was the replay of a stop, or a step started
from it. -/
def Hit.Expected (h : Hit τ) : Prop :=
  match h.verdict with
  | .reported address => address = h.address
  | .resumeSkip => h.attempted = some h.address ∧ h.stoppedAt = some h.address
  | .startReplay => h.stoppedAt = some h.address
  | .missed => False

/-- What an attempt of thread `t` must find.  The slot of the breakpoint callback, if it is
active, is that of the instruction, and a suppression that applies to it is fresh.  A landing
callback that is left from an earlier step does not claim the landing of this one. -/
def State.Timely (s : State τ) (t : τ) (c : Attempt) : Prop :=
  match c.slot with
  | some i => (s.table.slots i).active = true → (s.table.slots i).address = s.ips t ∧
      if s.stepper.replays t (s.ips t) then s.log.startFresh = true
      else s.skip = some (t, s.ips t) → s.log.skipFresh = true
  | none => ∀ index ∈ c.landing, s.stepper.claims index t = true →
      s.stepper.candidateAddress index = s.ips t

/-- What the steps of a run must find.  `remove` meets an active slot.  A plain resume finds the
thread of the last hit at its address only if that hit has redirected it.  A step starts from
where its thread was stopped, and leaves the thread of a fresh `RESUME_SKIP` at its address. -/
def Timely (s : State τ) : Action τ → Prop
  | .attempt t c => s.Timely t c
  | .removeBreakpoint id => ∀ i ∈ s.table.owner id, (s.table.slots i).active = true
  | .resume => ∀ p ∈ s.armedSkip, s.redirect = some p
  | .step t _ => s.log.stoppedAt t = some (s.ips t) ∧
      ∀ p ∈ s.skip, s.log.skipFresh = true → s.ips p.1 = p.2
  | _ => True

instance (s : State τ) (t : τ) : (c : Attempt) → Decidable (s.Timely t c)
  | ⟨_, some i, _, _, _, _⟩ =>
      inferInstanceAs (Decidable ((s.table.slots i).active = true → _ ∧ ite _ _ (_ → _)))
  | ⟨_, none, _, landing, _, _⟩ => inferInstanceAs (Decidable (∀ index ∈ landing, _ → _))

instance (s : State τ) : (a : Action τ) → Decidable (Timely s a)
  | .attempt t c => inferInstanceAs (Decidable (s.Timely t c))
  | .removeBreakpoint id => inferInstanceAs (Decidable (∀ i ∈ s.table.owner id, _))
  | .resume => inferInstanceAs (Decidable (∀ p ∈ s.armedSkip, _))
  | .step t _ => inferInstanceAs (Decidable (s.log.stoppedAt t = _ ∧ ∀ p ∈ s.skip, _))
  | .compile _ | .setBreakpoint .. | .flush _ | .setTrap _ | .removeTrap _ | .stop | .edit ..
  | .resumed => isTrue trivial

/-! ## What the callbacks change -/

/-- The step may have ended, and its replay may have been consumed. -/
structure Stepper.Calmer (p p' : Stepper τ) : Prop where
  tid : p'.tid = p.tid
  startIp : p'.startIp = p.startIp
  stepping : p'.stepping = true → p.stepping = true
  replayPending : p'.replayPending = true → p.replayPending = true

omit [DecidableEq τ] in
theorem Stepper.Calmer.refl (p : Stepper τ) : p.Calmer p := ⟨rfl, rfl, id, id⟩

omit [DecidableEq τ] in
theorem Stepper.Calmer.trans {p q r : Stepper τ} (h : p.Calmer q) (h' : q.Calmer r) : p.Calmer r :=
  ⟨h'.tid.trans h.tid, h'.startIp.trans h.startIp, fun hr => h.stepping (h'.stepping hr),
    fun hr => h.replayPending (h'.replayPending hr)⟩

omit [DecidableEq τ] in
theorem Stepper.Calmer.stop (p : Stepper τ) : p.Calmer { p with stepping := false } :=
  ⟨rfl, rfl, nofun, id⟩

omit [DecidableEq τ] in
theorem Stepper.Calmer.consume (p : Stepper τ) : p.Calmer { p with replayPending := false } :=
  ⟨rfl, rfl, id, nofun⟩

/-- The effect of the callbacks of thread `t` on the threads, the suppressions and the log. -/
structure Outcome.Quiet (s : State τ) (t : τ) (o : Outcome τ) : Prop where
  phase : o.state.phase = s.phase
  ips : o.state.ips = s.ips
  stoppedAt : o.state.log.stoppedAt = s.log.stoppedAt
  skipFresh : o.state.log.skipFresh = s.log.skipFresh
  startFresh : o.state.log.startFresh = s.log.startFresh
  stepper : s.stepper.Calmer o.state.stepper
  skip : ∀ p ∈ o.state.skip, s.skip = some p
  redirect : o.state.redirect = if o.redirected then some (t, s.ips t) else s.redirect
  attempted : o.state.log.attempted =
    if o.redirected then Function.update s.log.attempted t (some (s.ips t)) else s.log.attempted

theorem Outcome.Quiet.refl (s : State τ) (t : τ) : Outcome.Quiet s t ⟨s, false⟩ :=
  ⟨rfl, rfl, rfl, rfl, rfl, .refl _, fun _ h => h, rfl, rfl⟩

/-- The next callback runs if the first has not redirected the thread. -/
theorem Outcome.Quiet.andThen {s : State τ} {t : τ} {o : Outcome τ} {f : State τ → Outcome τ}
    (h : Outcome.Quiet s t o) (hf : Outcome.Quiet o.state t (f o.state)) :
    Outcome.Quiet s t (o.andThen f) := by
  unfold Outcome.andThen
  split
  · exact h
  · rename_i hstay
    have hredirect := h.redirect
    have hattempted := h.attempted
    rw [if_neg hstay] at hredirect hattempted
    refine ⟨hf.phase.trans h.phase, hf.ips.trans h.ips, hf.stoppedAt.trans h.stoppedAt,
      hf.skipFresh.trans h.skipFresh, hf.startFresh.trans h.startFresh,
      h.stepper.trans hf.stepper, fun p hp => h.skip p (hf.skip p hp), ?_, ?_⟩
    · rw [hf.redirect, hredirect, h.ips]
    · rw [hf.attempted, hattempted, h.ips]

/-- A callback that changes something else first. -/
theorem Outcome.Quiet.of_state {s s' : State τ} {t : τ} {o : Outcome τ}
    (h : Outcome.Quiet s t ⟨s', false⟩) (ho : Outcome.Quiet s' t o) : Outcome.Quiet s t o :=
  h.andThen (f := fun _ => o) ho

theorem State.exactStop_quiet {s : State τ} {t : τ} {address : UInt64} (h : address = s.ips t)
    (redirects : Bool) : Outcome.Quiet s t (s.exactStop t address redirects) := by
  subst h
  simp only [State.exactStop]
  split
  · refine ⟨rfl, ?_, rfl, rfl, rfl, .refl _, fun _ h => h, rfl, rfl⟩
    exact Function.update_eq_self t s.ips
  · exact { Outcome.Quiet.refl s t with }

variable (is64 : Bool)

theorem Stepper.claimBreakpoint_calmer (p : Stepper τ) (t : τ) (address : UInt64) :
    p.Calmer (p.claimBreakpoint t address) := by
  unfold Stepper.claimBreakpoint
  split
  · exact .stop p
  · exact .refl p

theorem State.report_quiet {s : State τ} {t : τ} {i : SlotIndex}
    (haddress : (s.table.slots i).address = s.ips t) (redirects : Bool) :
    Outcome.Quiet s t (s.report is64 t i redirects) := by
  simp only [State.report]
  refine .of_state ?_ (State.exactStop_quiet (by exact haddress) redirects)
  exact { Outcome.Quiet.refl s t with stepper := s.stepper.claimBreakpoint_calmer t _ }

theorem State.onHit_quiet {s : State τ} {t : τ} {i : SlotIndex}
    (haddress : (s.table.slots i).address = s.ips t) (redirects : Bool) :
    Outcome.Quiet s t (s.onHit is64 t i redirects) := by
  simp only [State.onHit]
  split
  · exact { Outcome.Quiet.refl s t with stepper := .consume s.stepper }
  split
  case h_2 => exact State.report_quiet is64 haddress redirects
  split
  · split
    · exact { Outcome.Quiet.refl s t with skip := nofun }
    · refine .of_state ?_ (State.report_quiet is64 (by exact haddress) redirects)
      exact { Outcome.Quiet.refl s t with skip := nofun }
  · exact State.report_quiet is64 haddress redirects

theorem State.onStepHit_quiet {s : State τ} {t : τ} {index : Fin maxCandidates}
    (h : s.stepper.claims index t = true → s.stepper.candidateAddress index = s.ips t)
    (redirects : Bool) : Outcome.Quiet s t (s.onStepHit t index redirects) := by
  simp only [State.onStepHit]
  split
  · exact { Outcome.Quiet.refl s t with stepper := .consume s.stepper }
  split
  · rename_i hclaims
    refine .of_state ?_ (State.exactStop_quiet (by exact h hclaims) redirects)
    exact { Outcome.Quiet.refl s t with stepper := .stop s.stepper }
  · exact .refl s t

theorem State.onExecute_quiet (s : State τ) (t : τ) (redirects : Bool) :
    Outcome.Quiet s t (s.onExecute t redirects) := by
  unfold State.onExecute
  split
  · refine .of_state ?_ (State.exactStop_quiet rfl redirects)
    exact { Outcome.Quiet.refl s t with }
  · exact .refl s t

/-! ## The table -/

/-- What an attempt can do to the table: slots are retired, and hits are counted. -/
structure Dwindled (t t' : Table) : Prop where
  ok : t'.Ok
  exact : t'.Exact
  live : ∀ j, (t'.slots j).Live → (t.slots j).Live ∧ (t'.slots j).address = (t.slots j).address

theorem Dwindled.refl {t : Table} (hok : t.Ok) (hexact : t.Exact) : Dwindled t t :=
  ⟨hok, hexact, fun _ h => ⟨h, rfl⟩⟩

/-- What the callbacks do to the table, the code and the hits. -/
structure Outcome.Steady (s : State τ) (o : Outcome τ) : Prop where
  table : Dwindled s.table o.state.table
  cache : o.state.cache = s.cache
  unflushed : o.state.unflushed = s.unflushed
  hits : ∀ h ∈ o.state.log.hits, h ∈ s.log.hits ∨ h.Expected

/-- What the other callbacks leave alone. -/
structure Outcome.Same (s : State τ) (o : Outcome τ) : Prop where
  table : o.state.table = s.table
  cache : o.state.cache = s.cache
  unflushed : o.state.unflushed = s.unflushed
  hits : o.state.log.hits = s.log.hits

omit [DecidableEq τ] in
theorem Outcome.Steady.same {s : State τ} {o o' : Outcome τ} (h : o.Steady s)
    (h' : o'.Same o.state) : o'.Steady s := by
  refine ⟨?_, h'.cache.trans h.cache, h'.unflushed.trans h.unflushed, ?_⟩
  · rw [h'.table]
    exact h.table
  · rw [h'.hits]
    exact h.hits

omit [DecidableEq τ] in
theorem Outcome.Same.steady {s : State τ} {o : Outcome τ} (h : o.Same s) (hok : s.table.Ok)
    (hexact : s.table.Exact) : o.Steady s :=
  Outcome.Steady.same (o := ⟨s, false⟩) ⟨.refl hok hexact, rfl, rfl, fun _ => .inl⟩ h

theorem State.exactStop_same (s : State τ) (t : τ) (address : UInt64) (redirects : Bool) :
    (s.exactStop t address redirects).Same s := by
  simp only [State.exactStop]
  split <;> exact ⟨rfl, rfl, rfl, rfl⟩

theorem Outcome.Steady.exactStop {s s' : State τ} (h : Outcome.Steady s ⟨s', false⟩) (t : τ)
    (address : UInt64) (redirects : Bool) : (s'.exactStop t address redirects).Steady s :=
  h.same (State.exactStop_same s' t address redirects)

theorem State.onExecute_same (s : State τ) (t : τ) (redirects : Bool) :
    (s.onExecute t redirects).Same s := by
  unfold State.onExecute
  split
  · obtain ⟨htable, hcache, hunflushed, hhits⟩ :=
      State.exactStop_same (_ : State τ) t (s.ips t) redirects
    exact ⟨htable, hcache, hunflushed, hhits⟩
  · exact ⟨rfl, rfl, rfl, rfl⟩

theorem State.onStepHit_same (s : State τ) (t : τ) (index : Fin maxCandidates)
    (redirects : Bool) : (s.onStepHit t index redirects).Same s := by
  simp only [State.onStepHit]
  split
  · exact ⟨rfl, rfl, rfl, rfl⟩
  split
  · obtain ⟨htable, hcache, hunflushed, hhits⟩ :=
      State.exactStop_same (_ : State τ) t (s.stepper.candidateAddress index) redirects
    exact ⟨htable, hcache, hunflushed, hhits⟩
  · exact ⟨rfl, rfl, rfl, rfl⟩

theorem Dwindled.countHit {t : Table} (hok : t.Ok) (hexact : t.Exact) (i : SlotIndex) :
    Dwindled t (t.countHit i) := by
  obtain ⟨hcount, hcountExact⟩ := hok.countHit i
  refine ⟨hcount, hcountExact hexact, fun j hj => ?_⟩
  by_cases hji : j = i
  · subst hji
    simpa [Table.countHit, Breakpoints.Slot.Live] using hj
  · simpa [Table.countHit, Function.update_of_ne hji] using hj

/-- The slot is active when it is retired. -/
theorem Dwindled.retire {t t' : Table} (h : Dwindled t t') {i : SlotIndex}
    (hactive : (t'.slots i).active = true) (used : Bool) :
    Dwindled t (t'.retire is64 i used) := by
  refine ⟨h.ok.retire is64 i used,
    (Table.retire_exact_iff is64 h.ok h.exact i used).mpr hactive, fun j hj => ?_⟩
  by_cases hji : j = i
  · subst hji
    simp [Table.retire, Breakpoints.Slot.Live] at hj
  · simp only [Table.retire, Function.update_of_ne hji] at hj ⊢
    exact h.live j hj

theorem State.report_steady {s : State τ} {t : τ} {i : SlotIndex} (hok : s.table.Ok)
    (hexact : s.table.Exact) (hactive : (s.table.slots i).active = true)
    (haddress : (s.table.slots i).address = s.ips t) (redirects : Bool) :
    (s.report is64 t i redirects).Steady s := by
  have hcounted := Dwindled.countHit hok hexact i
  have hstill : ((s.table.countHit i).slots i).active = true := by
    simp [Table.countHit, hactive]
  simp only [State.report]
  refine Outcome.Steady.exactStop ?_ t _ redirects
  refine ⟨?_, rfl, rfl, fun h hh => ?_⟩
  · show Dwindled s.table (if _ then _ else _)
    split
    · exact hcounted.retire is64 hstill _
    · exact hcounted
  · rcases List.mem_cons.mp hh with rfl | hh
    · exact .inr haddress
    · exact .inl hh

theorem State.onHit_steady {s : State τ} {t : τ} {i : SlotIndex} (hok : s.table.Ok)
    (hexact : s.table.Exact) (hactive : (s.table.slots i).active = true)
    (haddress : (s.table.slots i).address = s.ips t)
    (hstart : s.stepper.replays t (s.ips t) = true → s.log.stoppedAt t = some (s.ips t))
    (hskip : s.stepper.replays t (s.ips t) ≠ true → s.skip = some (t, s.ips t) →
      s.log.attempted t = some (s.ips t) ∧ s.log.stoppedAt t = some (s.ips t))
    (redirects : Bool) : (s.onHit is64 t i redirects).Steady s := by
  have hreport : ∀ skip, (State.report is64 { s with skip } t i redirects).Steady s := fun skip => by
    obtain ⟨htable, hcache, hunflushed, hhits⟩ :=
      State.report_steady is64 (s := { s with skip }) hok hexact hactive haddress redirects
    exact ⟨htable, hcache, hunflushed, hhits⟩
  simp only [State.onHit, haddress]
  split
  · rename_i hreplays
    refine ⟨.refl hok hexact, rfl, rfl, fun h hh => ?_⟩
    rcases List.mem_cons.mp hh with rfl | hh
    · exact .inr (hstart hreplays)
    · exact .inl hh
  rename_i hreplays
  split
  case h_2 => exact hreport s.skip
  rename_i u skipped hpair
  split
  · rename_i hu
    split
    · rename_i hskipped
      refine ⟨.refl hok hexact, rfl, rfl, fun h hh => ?_⟩
      rcases List.mem_cons.mp hh with rfl | hh
      · exact .inr (hskip hreplays (by rw [hpair, hu, hskipped]))
      · exact .inl hh
    · exact hreport none
  · exact hreport s.skip

/-! ## The invariant -/

/-- What a fresh suppression and the redirected thread say about the last stop. -/
structure Tracked (s : State τ) : Prop where
  table : s.table.Ok
  exact : s.table.Exact
  /-- The code at a live breakpoint has its slot. -/
  compiled : ∀ i, (s.table.slots i).Live → s.unflushed (s.table.slots i).address = false →
    ∀ slot ∈ s.cache (s.table.slots i).address, slot = some i
  skip : ∀ t address, s.skip = some (t, address) → s.log.skipFresh = true →
    s.log.attempted t = some address ∧ s.log.stoppedAt t = some address ∧
      (s.phase ≠ .stopped → s.ips t = address)
  redirect : ∀ t address, s.redirect = some (t, address) →
    s.log.attempted t = some address ∧ (s.phase ≠ .stopped → s.ips t = address) ∧
      (s.phase = .stopped → s.log.stoppedAt t = some address)
  start : s.stepper.stepping = true → s.stepper.replayPending = true →
    s.log.startFresh = true → ∀ t, s.stepper.tid = some t →
      s.log.stoppedAt t = some s.stepper.startIp
  hits : ∀ h ∈ s.log.hits, h.Expected

omit [DecidableEq τ] in
/-- The code at a live breakpoint calls `on_hit_ctx` with its slot. -/
theorem Tracked.slot_eq {s : State τ} (h : Tracked s) {address : UInt64}
    (hbreaks : s.breaks address = true) {slot : Option SlotIndex} (hslot : slot ∈ s.cache address) :
    ∃ i, slot = some i ∧ (s.table.slots i).active = true ∧ (s.table.slots i).address = address := by
  obtain ⟨hposition, hflushed⟩ := Bool.and_eq_true_iff.mp hbreaks
  obtain ⟨i, hi⟩ := Option.isSome_iff_exists.mp hposition
  obtain ⟨hused, haddress, hactive⟩ :=
    Breakpoints.Slot.matches_iff.mp (Table.position_eq_some hi)
  subst haddress
  exact ⟨i, h.compiled i ⟨hused, hactive⟩ (by simpa using hflushed) slot hslot, hactive, rfl⟩

omit [DecidableEq τ] in
/-- Where `on_hit_ctx` finds no active slot, no live breakpoint stands. -/
theorem Tracked.pass_eq {s : State τ} (h : Tracked s) {t : τ} {c : Attempt}
    (hcached : c.slot ∈ s.cache (s.ips t))
    (hpassive : ∀ i, c.slot = some i → (s.table.slots i).active = false) : s.pass t = s := by
  unfold State.pass
  split
  · rename_i hbreaks
    obtain ⟨i, hslot, hactive, -⟩ := h.slot_eq hbreaks hcached
    rw [hpassive i hslot] at hactive
    cases hactive
  · rfl

/-- The first callback of a timely attempt. -/
theorem State.firstCallback_tracked {s : State τ} (h : Tracked s) {t : τ} {c : Attempt}
    (hcached : c.slot ∈ s.cache (s.ips t)) (hguard : s.Timely t c) :
    Outcome.Quiet s t (s.firstCallback is64 t c) ∧ (s.firstCallback is64 t c).Steady s := by
  have hrefl : Outcome.Steady s ⟨s, false⟩ := ⟨.refl h.table h.exact, rfl, rfl, fun _ => .inl⟩
  unfold State.Timely at hguard
  unfold State.firstCallback
  split
  · rename_i i hslot
    simp only [hslot] at hguard
    split
    · rename_i hactive
      obtain ⟨haddress, hguard⟩ := hguard hactive
      have hstart : s.stepper.replays t (s.ips t) = true →
          s.log.stoppedAt t = some (s.ips t) := fun hreplays => by
        rw [if_pos hreplays] at hguard
        obtain ⟨⟨⟨hstepping, htid⟩, hip⟩, hpending⟩ := by
          simpa [Stepper.replays] using hreplays
        rw [← hip]
        exact h.start hstepping hpending hguard t htid
      have hskip : s.stepper.replays t (s.ips t) ≠ true → s.skip = some (t, s.ips t) →
          s.log.attempted t = some (s.ips t) ∧ s.log.stoppedAt t = some (s.ips t) :=
        fun hreplays hpair => by
          rw [if_neg hreplays] at hguard
          obtain ⟨hattempted, hstopped, -⟩ := h.skip t _ hpair (hguard hpair)
          exact ⟨hattempted, hstopped⟩
      exact ⟨State.onHit_quiet is64 haddress c.redirects,
        State.onHit_steady is64 h.table h.exact hactive haddress hstart hskip c.redirects⟩
    · rename_i hretired
      have hpass := h.pass_eq hcached fun j hj => by
        rw [hslot] at hj
        cases hj
        exact Bool.not_eq_true _ ▸ hretired
      rw [hpass]
      exact ⟨.refl s t, hrefl⟩
  · rename_i hslot
    simp only [hslot] at hguard
    rw [h.pass_eq hcached fun i hi => by rw [hslot] at hi; cases hi]
    cases hlanding : c.landing with
    | some index =>
        exact ⟨State.onStepHit_quiet (hguard index hlanding) c.redirects,
          (State.onStepHit_same s t index c.redirects).steady h.table h.exact⟩
    | none => exact ⟨.refl s t, hrefl⟩

/-- The callbacks of a timely attempt. -/
theorem State.callbacks_tracked {s : State τ} (h : Tracked s) {t : τ} {c : Attempt}
    (hcached : c.slot ∈ s.cache (s.ips t)) (hguard : s.Timely t c) :
    Outcome.Quiet s t (s.callbacks is64 t c) ∧ (s.callbacks is64 t c).Steady s := by
  obtain ⟨hquiet, hsteady⟩ := State.firstCallback_tracked is64 h hcached hguard
  refine ⟨hquiet.andThen (State.onExecute_quiet _ t c.redirects), ?_⟩
  unfold State.callbacks Outcome.andThen
  split
  · exact hsteady
  · exact hsteady.same (State.onExecute_same _ t c.redirects)

theorem Stepper.onStepEvent_calmer (p : Stepper τ) (t : τ) (address : UInt64) (parks : Bool) :
    p.Calmer (p.onStepEvent t address parks) := by
  unfold Stepper.onStepEvent
  repeat' split
  · exact .consume p
  · exact .stop p
  · exact .refl p
  · exact .refl p

/-- The effect of an attempt of thread `t` before it is logged. -/
structure Moved (s s' : State τ) (t : τ) : Prop where
  phase : s'.phase = s.phase
  ips : ∀ u, u ≠ t → s'.ips u = s.ips u
  attempted : ∀ u, u ≠ t → s'.log.attempted u = s.log.attempted u
  stoppedAt : s'.log.stoppedAt = s.log.stoppedAt
  skipFresh : s'.log.skipFresh = s.log.skipFresh
  startFresh : s'.log.startFresh = s.log.startFresh
  stepper : s.stepper.Calmer s'.stepper
  skip : ∀ p ∈ s'.skip, s.skip = some p
  redirect : ∀ p, s'.redirect = some p → p.1 ≠ t ∧ s.redirect = some p ∨
    p.1 = t ∧ s'.log.attempted t = some p.2 ∧ s'.ips t = p.2

theorem Outcome.Quiet.moved {s : State τ} {t : τ} {o : Outcome τ} (h : Outcome.Quiet s t o)
    (hfree : s.redirect.all (fun p => p.1 != t) = true) (c : Attempt) :
    Moved s (if o.redirected then o.state else o.state.proceed t c) t := by
  have hredirect := h.redirect
  have hattempted := h.attempted
  split <;> rename_i hgone
  · rw [if_pos hgone] at hredirect hattempted
    refine ⟨h.phase, fun u _ => by rw [h.ips], fun u hu => ?_, h.stoppedAt, h.skipFresh,
      h.startFresh, h.stepper, h.skip, fun p hp => ?_⟩
    · rw [hattempted, Function.update_of_ne hu]
    · rw [hredirect] at hp
      cases hp
      refine .inr ⟨rfl, ?_, by rw [h.ips]⟩
      rw [hattempted, Function.update_self]
  · rw [if_neg hgone] at hredirect hattempted
    refine ⟨h.phase, fun u hu => ?_, fun u hu => ?_, h.stoppedAt, h.skipFresh, h.startFresh, ?_,
      h.skip, fun p hp => ?_⟩
    · simp only [State.proceed, State.execute, Function.update_of_ne hu, h.ips]
    · simp only [State.proceed, State.execute, Function.update_of_ne hu, hattempted]
    · simp only [State.proceed, State.execute]
      split
      · exact h.stepper.trans (Stepper.onStepEvent_calmer _ _ _ _)
      · exact h.stepper
    · have hsame : s.redirect = some p := hredirect.symm.trans hp
      rw [hsame] at hfree
      exact .inl ⟨by simpa using hfree, hsame⟩

/-- An attempt of thread `t` leaves no suppression of `t` fresh. -/
theorem Tracked.attempt {s : State τ} (h : Tracked s) {t : τ} {c : Attempt}
    (hguard : s.Timely t c) (hrunning : s.phase ≠ .stopped)
    (hfree : s.redirect.all (fun p => p.1 != t) = true) (hcached : c.slot ∈ s.cache (s.ips t)) :
    Tracked (s.attempt is64 t c) := by
  obtain ⟨hquiet, hsteady⟩ := State.callbacks_tracked is64 h hcached hguard
  have hmoved := hquiet.moved hfree c
  have hsame : Outcome.Same (s.callbacks is64 t c).state
      ⟨if (s.callbacks is64 t c).redirected then (s.callbacks is64 t c).state
        else (s.callbacks is64 t c).state.proceed t c, false⟩ := by
    split <;> exact ⟨rfl, rfl, rfl, rfl⟩
  obtain ⟨htable, hcache, hunflushed, hhits⟩ := hsteady.same hsame
  rw [State.attempt]
  generalize (if (s.callbacks is64 t c).redirected then (s.callbacks is64 t c).state
      else (s.callbacks is64 t c).state.proceed t c) = r
    at hmoved htable hcache hunflushed hhits
  refine ⟨htable.ok, htable.exact, fun i hlive hflushed => ?_, fun u address hskip hfresh => ?_,
    fun u address hredirect => ?_,
    fun hstepping hpending hfresh u htid => ?_, ?_⟩
  · obtain ⟨hbefore, haddress⟩ := htable.live i hlive
    have hflushed : r.unflushed (r.table.slots i).address = false := hflushed
    show ∀ slot ∈ r.cache (r.table.slots i).address, slot = some i
    rw [haddress, hunflushed] at hflushed
    rw [haddress, hcache]
    exact h.compiled i hbefore hflushed
  · have hskip : r.skip = some (u, address) := hskip
    obtain ⟨hfresh, hu⟩ := Bool.and_eq_true_iff.mp hfresh
    have hu : u ≠ t := by simpa [hskip] using hu
    rw [hmoved.skipFresh] at hfresh
    obtain ⟨hattempted, hstopped, hips⟩ := h.skip u address (hmoved.skip _ hskip) hfresh
    refine ⟨(hmoved.attempted u hu).trans hattempted, ?_, fun _ => ?_⟩
    · simp only [State.logAttempt, Function.update_of_ne hu, hmoved.stoppedAt, hstopped]
    · exact (hmoved.ips u hu).trans (hips hrunning)
  · have hredirect : r.redirect = some (u, address) := hredirect
    rcases hmoved.redirect _ hredirect with ⟨hu, hsame⟩ | ⟨hu, hattempted, hips⟩
    · obtain ⟨hattempted, hips, -⟩ := h.redirect u address hsame
      refine ⟨(hmoved.attempted u hu).trans hattempted, fun _ => (hmoved.ips u hu).trans (hips hrunning),
        fun hstopped => absurd (hmoved.phase.symm.trans hstopped) hrunning⟩
    · obtain rfl : u = t := hu
      exact ⟨hattempted, fun _ => hips, fun hstopped =>
        absurd (hmoved.phase.symm.trans hstopped) hrunning⟩
  · obtain ⟨hfresh, hu⟩ := Bool.and_eq_true_iff.mp hfresh
    have htid : r.stepper.tid = some u := htid
    have hu : u ≠ t := by simpa [htid] using hu
    rw [hmoved.startFresh] at hfresh
    have hstopped := h.start (hmoved.stepper.stepping hstepping)
      (hmoved.stepper.replayPending hpending) hfresh u (hmoved.stepper.tid.symm.trans htid)
    simp only [State.logAttempt, Function.update_of_ne hu, hmoved.stoppedAt, hstopped,
      hmoved.stepper.startIp]
  · exact fun hit hhit => (hhits hit hhit).elim (h.hits hit) id

/-! ## Every execution is noted -/

theorem State.onHit_notes (s : State τ) (t : τ) (i : SlotIndex) (redirects : Bool) :
    ∃ verdict, (s.onHit is64 t i redirects).state.log.hits =
      ⟨t, s.ips t, verdict, s.log.stoppedAt t, s.log.attempted t⟩ :: s.log.hits := by
  have hreport : ∀ s' : State τ, s'.log = s.log → s'.ips = s.ips → ∃ verdict,
      (s'.report is64 t i redirects).state.log.hits =
        ⟨t, s.ips t, verdict, s.log.stoppedAt t, s.log.attempted t⟩ :: s.log.hits := by
    intro s' hlog hips
    refine ⟨.reported (s'.table.slots i).address, ?_⟩
    simp only [State.report]
    rw [(State.exactStop_same _ _ _ _).hits, State.note, hlog, hips]
  simp only [State.onHit]
  split
  · exact ⟨.startReplay, rfl⟩
  split
  case h_2 => exact hreport s rfl rfl
  split
  · split
    · exact ⟨.resumeSkip, rfl⟩
    · exact hreport _ rfl rfl
  · exact hreport s rfl rfl

omit [DecidableEq τ] in
theorem State.pass_notes (s : State τ) (t : τ) :
    if s.breaks (s.ips t) then ∃ verdict, (s.pass t).log.hits =
      ⟨t, s.ips t, verdict, s.log.stoppedAt t, s.log.attempted t⟩ :: s.log.hits
    else (s.pass t).log.hits = s.log.hits := by
  unfold State.pass
  split
  · exact ⟨.missed, rfl⟩
  · rfl

theorem State.firstCallback_notes (s : State τ) (t : τ) (c : Attempt) :
    if s.strikes t c then ∃ verdict, (s.firstCallback is64 t c).state.log.hits =
      ⟨t, s.ips t, verdict, s.log.stoppedAt t, s.log.attempted t⟩ :: s.log.hits
    else (s.firstCallback is64 t c).state.log.hits = s.log.hits := by
  unfold State.firstCallback State.strikes
  cases hslot : c.slot with
  | some i =>
      by_cases hactive : (s.table.slots i).active = true
      · simp only [Option.any_some, hactive, Bool.or_true, if_true]
        exact State.onHit_notes is64 s t i c.redirects
      · simp only [Option.any_some, hactive, Bool.or_false]
        exact s.pass_notes t
  | none =>
      rw [Option.any_none, Bool.or_false]
      cases c.landing with
      | some index =>
          dsimp only
          rw [((s.pass t).onStepHit_same t index c.redirects).hits]
          exact s.pass_notes t
      | none => exact s.pass_notes t

/-- An attempt adds one entry to the hits if a live breakpoint stands at the instruction or
`on_hit_ctx` finds its slot active, and none otherwise. -/
theorem State.attempt_notes (s : State τ) (t : τ) (c : Attempt) :
    if s.strikes t c then ∃ verdict, (s.attempt is64 t c).log.hits =
      ⟨t, s.ips t, verdict, s.log.stoppedAt t, s.log.attempted t⟩ :: s.log.hits
    else (s.attempt is64 t c).log.hits = s.log.hits := by
  have hcallbacks : (s.callbacks is64 t c).state.log.hits =
      (s.firstCallback is64 t c).state.log.hits := by
    unfold State.callbacks Outcome.andThen
    split
    · rfl
    · exact (State.onExecute_same _ _ _).hits
  have hattempt : (s.attempt is64 t c).log.hits = (s.callbacks is64 t c).state.log.hits := by
    show (if _ then _ else _ : State τ).log.hits = _
    split <;> rfl
  rw [hattempt, hcallbacks]
  exact s.firstCallback_notes is64 t c

/-! ## Commands -/

theorem Tracked.stop {s : State τ} (h : Tracked s) (hrunning : s.phase = .running) :
    Tracked s.stop := by
  have hphase : s.phase ≠ .stopped := by rw [hrunning]; exact nofun
  refine ⟨h.table, h.exact, h.compiled, fun t address hskip hfresh => ?_,
    fun t address hredirect => ?_, nofun, h.hits⟩
  · obtain ⟨hattempted, -, hips⟩ := h.skip t address hskip hfresh
    exact ⟨hattempted, congrArg some (hips hphase), fun hne => absurd rfl hne⟩
  · obtain ⟨hattempted, hips, -⟩ := h.redirect t address hredirect
    exact ⟨hattempted, fun hne => absurd rfl hne, fun _ => congrArg some (hips hphase)⟩

omit [DecidableEq τ] in
theorem Tracked.resume {s : State τ} (h : Tracked s) (hstopped : s.phase = .stopped)
    (hguard : ∀ p ∈ s.armedSkip, s.redirect = some p) : Tracked s.resume := by
  refine ⟨h.table, h.exact, h.compiled, fun t address hskip _ => ?_, nofun, h.start, h.hits⟩
  obtain ⟨hattempted, -, hat⟩ := h.redirect t address (hguard _ hskip)
  refine ⟨hattempted, hat hstopped, fun _ => ?_⟩
  have := (Option.mem_filter_iff.mp hskip).2
  exact eq_of_beq this

omit [DecidableEq τ] in
theorem Tracked.stepCommand {s : State τ} (h : Tracked s) {t : τ} {candidates : List UInt64}
    (hguard : s.log.stoppedAt t = some (s.ips t) ∧
      ∀ p ∈ s.skip, s.log.skipFresh = true → s.ips p.1 = p.2) :
    Tracked (s.step t candidates) := by
  refine ⟨h.table, h.exact, h.compiled, fun u address hskip hfresh => ?_, nofun,
    fun _ _ _ u htid => ?_, h.hits⟩
  · obtain ⟨hattempted, hat, -⟩ := h.skip u address hskip hfresh
    exact ⟨hattempted, hat, fun _ => hguard.2 _ hskip hfresh⟩
  · cases htid
    exact hguard.1

/-! ## The code -/

omit [DecidableEq τ] in
theorem Tracked.compile {s : State τ} (h : Tracked s) (address : UInt64) :
    Tracked (s.compile address) := by
  refine { h with compiled := fun i hlive hflushed slot hslot => ?_ }
  by_cases haddress : (s.table.slots i).address = address
  · subst haddress
    simp only [State.compile, Function.update_self, List.mem_cons] at hslot
    rcases hslot with rfl | hslot
    · exact (h.exact.found i hlive).2
    · exact h.compiled i hlive hflushed slot hslot
  · simp only [State.compile, Function.update_of_ne haddress] at hslot
    exact h.compiled i hlive hflushed slot hslot

omit [DecidableEq τ] in
theorem Tracked.flush {s : State τ} (h : Tracked s) (address : UInt64) :
    Tracked (s.flush address) := by
  refine { h with compiled := fun i hlive hflushed slot hslot => ?_ }
  by_cases haddress : (s.table.slots i).address = address
  · simp [State.flush, haddress] at hslot
  · simp only [State.flush, Function.update_of_ne haddress] at hflushed hslot
    exact h.compiled i hlive hflushed slot hslot

omit [DecidableEq τ] in
/-- The slot is not active, or the code has been flushed, or nothing has changed there. -/
theorem Tracked.setBreakpoint {s : State τ} (h : Tracked s) (address : UInt64) (oneShot : Bool) :
    Tracked (s.setBreakpoint is64 address oneShot) := by
  obtain ⟨hok, hexact⟩ := h.table.set is64 address oneShot
  refine { h with table := hok, exact := hexact h.exact, compiled := fun i hlive hflushed => ?_ }
  cases hposition : s.table.position (Breakpoints.Slot.matches address) with
  | some j =>
      have htable : (s.table.set is64 address oneShot).1 = s.table := by
        unfold Table.set
        split
        · rfl
        · simp only [hposition]
      simp only [State.setBreakpoint, htable, hposition, Option.isSome_some, if_true]
        at hlive hflushed ⊢
      exact h.compiled i hlive hflushed
  | none =>
      simp only [State.setBreakpoint, hposition, Option.isSome_none, Bool.false_eq_true, if_false]
        at hlive hflushed ⊢
      have hother : ((s.table.set is64 address oneShot).1.slots i).address ≠ address := fun heq => by
        rw [heq, Function.update_self] at hflushed
        cases hflushed
      rw [Function.update_of_ne hother] at hflushed
      have hsame : (s.table.set is64 address oneShot).1.slots i = s.table.slots i := by
        unfold Table.set at hother ⊢
        split at hother
        · rw [if_pos (by assumption)]
        · rename_i hzero
          rw [if_neg hzero]
          simp only [hposition] at hother ⊢
          split at hother
          · rename_i j _
            by_cases hij : i = j
            · subst hij
              simp [Table.add] at hother
            · simp [Table.add, Function.update_of_ne hij]
          · rfl
      rw [hsame] at hlive hflushed ⊢
      exact h.compiled i hlive hflushed

omit [DecidableEq τ] in
theorem Tracked.removeBreakpoint {s : State τ} (h : Tracked s) {id : UInt32}
    (hguard : ∀ i ∈ s.table.owner id, (s.table.slots i).active = true) :
    Tracked (s.removeBreakpoint is64 id) := by
  unfold State.removeBreakpoint Table.remove
  cases howner : s.table.owner id with
  | none => exact h
  | some i =>
      have htable := (Dwindled.refl h.table h.exact).retire is64 (hguard i howner) false
      refine Tracked.flush (s := { s with table := s.table.retire is64 i false }) ?_ _
      refine { h with table := htable.ok, exact := htable.exact, compiled := fun j hlive => ?_ }
      obtain ⟨hbefore, haddress⟩ := htable.live j hlive
      rw [haddress]
      exact h.compiled j hbefore

theorem Tracked.step {s s' : State τ} {a : Action τ} (h : Tracked s) (hguard : Timely s a)
    (hstep : step is64 s a = some s') : Tracked s' := by
  cases a with
  | attempt t c =>
      simp only [Stops.step] at hstep
      split at hstep <;> cases hstep
      rename_i henabled
      exact h.attempt is64 hguard henabled.1 henabled.2.1 henabled.2.2
  | compile address =>
      cases hstep
      exact h.compile address
  | setBreakpoint address oneShot =>
      cases hstep
      exact h.setBreakpoint is64 address oneShot
  | flush address =>
      cases hstep
      exact h.flush address
  | removeBreakpoint id =>
      cases hstep
      exact h.removeBreakpoint is64 hguard
  | setTrap trap =>
      cases hstep
      exact { h with }
  | removeTrap id =>
      cases hstep
      exact { h with }
  | stop =>
      simp only [Stops.step] at hstep
      split at hstep <;> cases hstep
      rename_i hrunning
      exact h.stop hrunning
  | edit t ip =>
      simp only [Stops.step] at hstep
      split at hstep <;> cases hstep
      rename_i hstopped
      refine { h with skip := fun u address hskip hfresh => ?_, redirect := fun u address hr => ?_ }
      · obtain ⟨hattempted, hat, -⟩ := h.skip u address hskip hfresh
        exact ⟨hattempted, hat, fun hne => absurd hstopped hne⟩
      · obtain ⟨hattempted, -, hat⟩ := h.redirect u address hr
        exact ⟨hattempted, fun hne => absurd hstopped hne, hat⟩
  | resume =>
      simp only [Stops.step] at hstep
      split at hstep <;> cases hstep
      rename_i hstopped
      exact h.resume hstopped hguard
  | step t candidates =>
      simp only [Stops.step] at hstep
      split at hstep <;> cases hstep
      exact h.stepCommand hguard
  | resumed =>
      simp only [Stops.step] at hstep
      split at hstep <;> cases hstep
      rename_i hresuming
      have hphase : s.phase ≠ .stopped := by rw [hresuming]; exact nofun
      refine { h with skip := fun u address hskip hfresh => ?_, redirect := fun u address hr => ?_ }
      · obtain ⟨hattempted, hat, hips⟩ := h.skip u address hskip hfresh
        exact ⟨hattempted, hat, fun _ => hips hphase⟩
      · obtain ⟨hattempted, hips, -⟩ := h.redirect u address hr
        exact ⟨hattempted, fun _ => hips hphase, nofun⟩

/-! ## Runs -/

omit [DecidableEq τ] in
theorem Tracked.init (ips : τ → UInt64) : Tracked (State.init ips) where
  table := .init
  exact := .init
  compiled := nofun
  skip := nofun
  redirect := nofun
  start := nofun
  hits := nofun

end PinBridge.Stops
