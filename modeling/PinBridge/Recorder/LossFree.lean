import PinBridge.Recorder.Session

/-!
# No silent loss

The invariant of a session: the slab is a well-formed ring, the ledger balances,
and the drain thread has read a prefix of the reserved events whose length is its
cursor.  Every step of the session that is up to date keeps it.  Once `DRAIN_DONE`
is set the prefix is the whole of it.

`staleExit` is a run whose exit test is out of date.  The only event of the session
is reserved, published and returned true between the drain thread's load of `CLAIM`
and its load of `ARMED`.
-/

namespace PinBridge.Recorder

open Transition

variable {pool : Pool}

/-! ## The drain thread -/

/-- Nothing is read yet. -/
structure Opening (s : State pool) : Prop where
  drained : s.statics.drained = 0
  written : s.statics.written = 0
  read : s.history.read = []

/-- The locals of the drain thread after it has taken `n` events. -/
structure Taken (s : State pool) (l : DrainLocals) (n : Nat) : Prop where
  cap : l.cap = s.statics.slabCap
  read : s.history.read = s.history.reserved.take n
  run : l.run = s.history.read.foldl DrainRun.push DrainRun.init

/-- The drain thread at the head of its loop. -/
structure Looping (s : State pool) (l : DrainLocals) : Prop where
  taken : Taken s l l.next
  drained : s.statics.drained = l.next
  written : s.statics.written = l.next

/-- The tag of the drain thread's slot is published. -/
def Published (s : State pool) : Prop :=
  s.ring.tags (s.ring.drained % s.ring.cap) = s.ring.drained + 1

/-- Nobody reserves any more, and everything reserved is read. -/
structure Closed (s : State pool) : Prop where
  armed : s.statics.armed = false
  quiet : ∀ t, (s.threads t).quiet = true
  drained : s.statics.drained = s.statics.claim
  written : s.statics.written = s.statics.claim
  read : s.history.read = s.history.reserved

/-- The file of the session is closed. -/
def Filed (s : State pool) : Prop :=
  ∃ mask, s.file = some (agentRecords mask s.history.read)

/-- What holds at each access of the drain thread. -/
def DrainOk (s : State pool) : DrainPc → Prop
  | .absent => if s.statics.drainDone then Closed s ∧ Filed s else Opening s
  | .loadSlab _ | .loadCap _ => Opening s
  | .writeHeader _ cap | .writeStart _ cap => Opening s ∧ cap = s.statics.slabCap
  | .loadClaim l => Looping s l
  | .loadTag l | .holeArmed l | .holeInFlight l => Looping s l ∧ l.next < s.statics.claim
  | .readPayload l => Looping s l ∧ Published s
  | .addWritten l =>
      Taken s l (l.next + 1) ∧ s.statics.drained = l.next ∧ s.statics.written = l.next ∧
        Published s
  | .storeDrained l =>
      Taken s l l.next ∧ s.statics.drained + 1 = l.next ∧ s.statics.written = l.next ∧
        Published s
  | .exitArmed l claim => Looping s l ∧ claim ≤ l.next
  | .exitInFlight l claim => Looping s l ∧ claim ≤ l.next ∧ s.statics.armed = false
  | .finalFlush l => Looping s l ∧ Closed s
  | .loadWritten l =>
      Closed s ∧ l.next = s.statics.claim ∧ l.run.out = drainRecords s.history.read
  | .writeStop l recorded =>
      Closed s ∧ l.next = s.statics.claim ∧ l.run.out = drainRecords s.history.read ∧
        recorded = s.statics.claim
  | .complete => Closed s ∧ Filed s
  | _ => False

/-- The query server does not prepare another session and has not failed to spawn. -/
def ControlPc.settled (pc : ControlPc) : Bool := !pc.preparing && !pc.unspawned

/-- The invariant of a session. -/
structure Inv (s : State pool) : Prop where
  ring : s.ring.Ok
  ledger : Ledger s
  locals : ∀ t, (s.threads t).LocalOk s.statics
  drain : DrainOk s s.drainer
  done : s.statics.drainDone = true → s.drainer = .absent
  control : s.control.settled = true
  spawning : s.control.spawns = true → s.drainer = .absent ∧ s.statics.drainDone = false

theorem SubmitPc.quiet_of_outside {pc : SubmitPc} (h : pc.inside = false) : pc.quiet = true := by
  cases pc <;> first | rfl | cases h

/-! ## Steps that the drain thread does not notice -/

/-- What the other parties leave alone. -/
structure Unnoticed (s s' : State pool) : Prop where
  cap : s'.statics.slabCap = s.statics.slabCap
  claim : s.statics.claim ≤ s'.statics.claim
  drained : s'.statics.drained = s.statics.drained
  written : s'.statics.written = s.statics.written
  drainDone : s'.statics.drainDone = s.statics.drainDone
  armed : s.statics.armed = false → s'.statics.armed = false
  reserved : s.history.reserved <+: s'.history.reserved
  read : s'.history.read = s.history.read
  file : s'.file = s.file
  published : Published s → Published s'
  closed : Closed s → Closed s'

theorem Taken.unnoticed {s s' : State pool} (h : Unnoticed s s') {l : DrainLocals} {n : Nat}
    (hn : n ≤ s.history.reserved.length) (ht : Taken s l n) : Taken s' l n where
  cap := ht.cap.trans h.cap.symm
  read := by
    obtain ⟨rest, hrest⟩ := h.reserved
    rw [h.read, ht.read, ← hrest, List.take_append_of_le_length hn]
  run := by rw [ht.run, h.read]

theorem DrainOk.unnoticed {s s' : State pool} (hring : s.ring.Ok) (h : Unnoticed s s')
    {pc : DrainPc} (hpc : DrainOk s pc) : DrainOk s' pc := by
  have hlen : s.history.reserved.length = s.statics.claim := hring.log_length
  have hle : s.statics.drained ≤ s.statics.claim := hring.drained_le
  have hpublished : Published s → s.statics.drained < s.statics.claim := fun hp =>
    (hring.tagged _ _ (Nat.mod_lt _ hring.cap_pos) hp).1
  have hopening : Opening s → Opening s' := fun ho =>
    ⟨h.drained.trans ho.drained, h.written.trans ho.written, h.read.trans ho.read⟩
  have hlooping : ∀ {l}, Looping s l → Looping s' l := fun hl =>
    ⟨hl.taken.unnoticed h (by have := hl.drained; omega), h.drained.trans hl.drained,
      h.written.trans hl.written⟩
  have hfiled : Filed s → Filed s' := by
    rintro ⟨mask, hfile⟩
    exact ⟨mask, by rw [h.file, hfile, h.read]⟩
  -- a closed session stays as it is
  have hclaim : Closed s → s'.statics.claim = s.statics.claim := by
    intro hc
    have := (h.closed hc).drained
    rw [h.drained, hc.drained] at this
    exact this.symm
  cases pc with
  | absent =>
      simp only [DrainOk, h.drainDone] at hpc ⊢
      by_cases hdone : s.statics.drainDone = true
      · rw [if_pos hdone] at hpc ⊢
        exact ⟨h.closed hpc.1, hfiled hpc.2⟩
      · rw [if_neg hdone] at hpc ⊢
        exact hopening hpc
  | loadSlab mask | loadCap mask => exact hopening hpc
  | writeHeader mask cap | writeStart mask cap => exact ⟨hopening hpc.1, hpc.2.trans h.cap.symm⟩
  | loadClaim l => exact hlooping hpc
  | loadTag l | holeArmed l | holeInFlight l =>
      exact ⟨hlooping hpc.1, hpc.2.trans_le h.claim⟩
  | readPayload l => exact ⟨hlooping hpc.1, h.published hpc.2⟩
  | addWritten l =>
      obtain ⟨htaken, hdrained, hwritten, hp⟩ := hpc
      have := hpublished hp
      exact ⟨htaken.unnoticed h (by omega), h.drained.trans hdrained, h.written.trans hwritten,
        h.published hp⟩
  | storeDrained l =>
      obtain ⟨htaken, hdrained, hwritten, hp⟩ := hpc
      have := hpublished hp
      exact ⟨htaken.unnoticed h (by omega), by rw [h.drained, hdrained],
        h.written.trans hwritten, h.published hp⟩
  | exitArmed l claim => exact ⟨hlooping hpc.1, hpc.2⟩
  | exitInFlight l claim => exact ⟨hlooping hpc.1, hpc.2.1, h.armed hpc.2.2⟩
  | finalFlush l => exact ⟨hlooping hpc.1, h.closed hpc.2⟩
  | loadWritten l =>
      obtain ⟨hc, hnext, hout⟩ := hpc
      exact ⟨h.closed hc, by rw [hclaim hc, hnext], by rw [h.read, hout]⟩
  | writeStop l recorded =>
      obtain ⟨hc, hnext, hout, hrec⟩ := hpc
      exact ⟨h.closed hc, by rw [hclaim hc, hnext], by rw [h.read, hout], by rw [hclaim hc, hrec]⟩
  | complete => exact ⟨h.closed hpc.1, hfiled hpc.2⟩
  | _ => exact hpc

/-! ## Producers -/

/-- What a producer leaves alone. -/
theorem submitStep_frame {g g' : Statics} {h h' : History} {spurious : Bool} {pc pc' : SubmitPc}
    (hstep : submitStep g h spurious pc = some (g', h', pc')) :
    g'.written = g.written ∧ g'.armed = g.armed ∧ g'.drainDone = g.drainDone ∧
      h'.read = h.read := by
  cases pc with
  | idle => cases hstep
  | recheckArmed event | exchange event cap current =>
      simp only [submitStep] at hstep
      split at hstep <;> cases hstep <;> exact ⟨rfl, rfl, rfl, rfl⟩
  | _ =>
      cases hstep
      exact ⟨rfl, rfl, rfl, rfl⟩

/-- Behind a closed gate a quiet call stays quiet. -/
theorem submitStep_quiet {g g' : Statics} {h h' : History} {spurious : Bool} {pc pc' : SubmitPc}
    (hstep : submitStep g h spurious pc = some (g', h', pc')) (harmed : g.armed = false)
    (hquiet : pc.quiet = true) :
    pc'.quiet = true ∧ g'.claim = g.claim ∧ h'.reserved = h.reserved := by
  cases pc with
  | idle => cases hstep
  | loadSlab event | checkArmed event =>
      cases hstep
      refine ⟨?_, rfl, rfl⟩
      split <;> rfl
  | enter event =>
      cases hstep
      exact ⟨rfl, rfl, rfl⟩
  | recheckArmed event =>
      simp only [submitStep, harmed, Bool.false_eq_true, if_false] at hstep
      cases hstep
      exact ⟨rfl, rfl, rfl⟩
  | leave recorded =>
      cases hstep
      exact ⟨rfl, rfl, rfl⟩
  | _ => cases hquiet

theorem Inv.submit {s s' : State pool} (hs : Inv s) {t : pool.Thread} {spurious : Bool}
    (hcount : (s.threads t).countable s.history)
    (hstep : step s (.submit t spurious) = some s') : Inv s' := by
  have hledger := hs.ledger.submit hcount hstep
  obtain ⟨⟨g, h, pc⟩, hsub, hs'⟩ := Option.map_eq_some_iff.mp hstep
  have hlt : s.statics.claim < 2 ^ 64 := by
    have := hs.ledger.accepted
    have := hs.ledger.accepted_lt
    omega
  have hroom : (s.threads t).deciding = true → s.statics.claim + 1 < 2 ^ 64 := by
    intro hdeciding
    have := hs.ledger.room hdeciding
    omega
  obtain ⟨hring, hreserved, hpublished⟩ := submit_ring hs.ring (hs.locals t) hlt hroom hsub
  obtain ⟨hlocal, hcap, hclaim, hdrained⟩ := submitStep_local hsub hroom (hs.locals t)
  obtain ⟨hwritten, harmed, hdone, hread⟩ := submitStep_frame hsub
  have hunnoticed : Unnoticed s s' := by
    cases hs'
    refine ⟨hcap, hclaim, hdrained, hwritten, hdone, harmed.trans, hreserved, hread, rfl, ?_, ?_⟩
    · intro hp
      unfold Published at hp ⊢
      simpa only [State.ring, hdrained, hcap] using hpublished hp
    · intro hc
      obtain ⟨hquiet, hclaim, hres⟩ := submitStep_quiet hsub hc.armed (hc.quiet t)
      refine ⟨harmed.trans hc.armed, fun u => ?_, ?_, ?_, ?_⟩
      · by_cases hu : u = t
        · subst hu
          simpa using hquiet
        · simpa [Function.update_of_ne hu] using hc.quiet u
      · exact (hdrained.trans hc.drained).trans hclaim.symm
      · exact (hwritten.trans hc.written).trans hclaim.symm
      · exact (hread.trans hc.read).trans hres.symm
  have hdrain := hs.drain.unnoticed hs.ring hunnoticed
  cases hs'
  exact {
    ring := hring
    ledger := hledger
    locals := by
      intro u
      by_cases hu : u = t
      · subst hu
        simpa using hlocal
      · have hmono := (hs.locals u).mono hcap hclaim hdrained.ge
        simpa [Function.update_of_ne hu] using hmono
    drain := hdrain
    done := fun hd => hs.done (hdone.symm.trans hd)
    control := hs.control
    spawning := fun hspawn => by
      obtain ⟨habsent, hd⟩ := hs.spawning hspawn
      exact ⟨habsent, hdone.trans hd⟩ }

theorem Inv.call {s s' : State pool} (hs : Inv s) {t : pool.Thread} {event : Event}
    (hstep : step s (.call t event) = some s') : Inv s' := by
  have hexact := (inFlightExact_step hs.ledger.inFlight hstep).mpr trivial
  simp only [step] at hstep
  split at hstep
  case h_2 => cases hstep
  case h_1 hidle =>
    cases hstep
    have hring : State.ring { s with threads := Function.update s.threads t (.loadSlab event) } =
        s.ring := by
      have hmove := s.ring_move s.statics s.history t (.loadSlab event)
      rw [s.ring_stay (by rw [hidle]; rfl)] at hmove
      exact hmove
    have hthreads : ∀ {P : SubmitPc → Prop}, P (.loadSlab event) → (∀ u, P (s.threads u)) →
        ∀ u, P (Function.update s.threads t (.loadSlab event) u) := by
      intro P hnew hold u
      rw [Function.update_apply]
      split
      · exact hnew
      · exact hold u
    have hunnoticed : Unnoticed s
        { s with threads := Function.update s.threads t (.loadSlab event) } := by
      refine ⟨rfl, le_refl _, rfl, rfl, rfl, id, List.prefix_refl _, rfl, rfl, id, fun hc => ?_⟩
      exact ⟨hc.armed, hthreads (P := fun pc => pc.quiet = true) rfl hc.quiet, hc.drained,
        hc.written, hc.read⟩
    have hcarried := Tally.tally_update SubmitPc.carried s.threads t (.loadSlab event)
    have hdeciding := Tally.count_update (p := fun pc : SubmitPc => pc.deciding = true)
      (g := s.threads) t (.loadSlab event)
    rw [hidle] at hcarried hdeciding
    exact {
      ring := by rw [hring]; exact hs.ring
      ledger := {
        accepted_lt := hs.ledger.accepted_lt
        sequences := hs.ledger.sequences
        reserved := by
          have := hs.ledger.reserved
          simp only [SubmitPc.carried, add_zero] at hcarried
          rw [hcarried]
          exact this
        accepted := by
          exact hs.ledger.accepted.trans (congrArg _ hdeciding.symm)
        inFlight := hexact }
      locals := hthreads (P := fun pc => pc.LocalOk s.statics) trivial hs.locals
      drain := hs.drain.unnoticed hs.ring hunnoticed
      done := hs.done
      control := hs.control
      spawning := hs.spawning }

/-! ## The query server -/

/-- Within a session the query server spawns the drain thread, closes the gate and
reports a failed flush. -/
theorem controlStep_settled {s s' : State pool} {ok : Bool} {pc : ControlPc}
    (hstep : controlStep s ok pc = some s') (hsettled : pc.settled = true)
    (hspawn : pc.spawns = true → ok = true) :
    s'.threads = s.threads ∧ s'.history = s.history ∧ s'.file = s.file ∧
      (s'.control.settled = true ∧ s'.control.spawns = false) ∧
      (∃ armed failed, (s.statics.armed = false → armed = false) ∧
        s'.statics = { s.statics with armed := armed, failed := failed }) ∧
      (s'.drainer = s.drainer ∨ pc.spawns = true ∧ ∃ mask, s'.drainer = .loadSlab mask) := by
  cases pc with
  | idle => cases hstep
  | spawn spec =>
      rw [hspawn rfl] at hstep
      cases hstep
      exact ⟨rfl, rfl, rfl, ⟨rfl, rfl⟩, ⟨_, _, id, rfl⟩, .inr ⟨rfl, _, rfl⟩⟩
  | flush ranges =>
      cases ranges with
      | nil =>
          cases hstep
          exact ⟨rfl, rfl, rfl, ⟨rfl, rfl⟩, ⟨_, _, id, rfl⟩, .inl rfl⟩
      | cons r ranges =>
          cases hstep
          refine ⟨rfl, rfl, rfl, ?_, ⟨_, _, id, rfl⟩, .inl rfl⟩
          cases ok <;> exact ⟨rfl, rfl⟩
  | flushFailed lo hi =>
      cases hstep
      exact ⟨rfl, rfl, rfl, ⟨rfl, rfl⟩, ⟨_, _, id, rfl⟩, .inl rfl⟩
  | stopSwap error =>
      cases hstep
      refine ⟨rfl, rfl, rfl, ?_, ⟨false, _, fun _ => rfl, rfl⟩, .inl rfl⟩
      simp only [State.update]
      split <;> exact ⟨rfl, rfl⟩
  | stopDrainDone error =>
      cases hstep
      refine ⟨rfl, rfl, rfl, ?_, ⟨_, _, id, rfl⟩, .inl rfl⟩
      simp only [State.goto]
      split <;> exact ⟨rfl, rfl⟩
  | stopPoll error left =>
      cases left with
      | zero =>
          cases hstep
          exact ⟨rfl, rfl, rfl, ⟨rfl, rfl⟩, ⟨_, _, id, rfl⟩, .inl rfl⟩
      | succ left =>
          cases hstep
          refine ⟨rfl, rfl, rfl, ?_, ⟨_, _, id, rfl⟩, .inl rfl⟩
          simp only [State.goto]
          split <;> exact ⟨rfl, rfl⟩
  | stopTimedOut error | stopLogWritten error | stopLogDropped error | stopWritten error
  | stopDropped error written =>
      cases hstep
      exact ⟨rfl, rfl, rfl, ⟨rfl, rfl⟩, ⟨_, _, id, rfl⟩, .inl rfl⟩
  | _ => cases hsettled

theorem Inv.control_step {s s' : State pool} (hs : Inv s) {ok : Bool}
    (hsession : inSession s (.control ok)) (hstep : step s (.control ok) = some s') : Inv s' := by
  obtain ⟨hthreads, hhistory, hfile, ⟨hsettled, hnospawn⟩, ⟨armed, failed, harmed, hstatics⟩,
    hdrainer⟩ := controlStep_settled hstep hs.control hsession
  have hring : s'.ring = s.ring := by
    simp only [State.ring, hthreads, hhistory, hstatics]
  have hunnoticed : Unnoticed s s' := by
    refine ⟨?_, ?_, ?_, ?_, ?_, ?_, ?_, ?_, hfile, ?_, fun hc => ⟨?_, ?_, ?_, ?_, ?_⟩⟩
    all_goals simp only [hstatics, hhistory, hthreads, Published, hring]
    · exact le_refl _
    · exact harmed
    · exact List.prefix_refl _
    · exact id
    · exact harmed hc.armed
    · exact hc.quiet
    · exact hc.drained
    · exact hc.written
    · exact hc.read
  have hdrain := hs.drain.unnoticed hs.ring hunnoticed
  refine ⟨by rw [hring]; exact hs.ring, ⟨?_, ?_, ?_, ?_, ?_⟩, ?_, ?_, ?_, hsettled, ?_⟩
  · rw [hhistory]
    exact hs.ledger.accepted_lt
  · rw [hhistory, hstatics]
    exact hs.ledger.sequences
  · rw [hhistory, hthreads]
    exact hs.ledger.reserved
  · rw [hhistory, hthreads, hstatics]
    exact hs.ledger.accepted
  · have := hs.ledger.inFlight
    unfold State.InFlightExact State.insideCount at this ⊢
    rw [hthreads, hstatics]
    exact this
  · intro t
    rw [hthreads]
    exact (hs.locals t).mono (by rw [hstatics]) (by rw [hstatics]) (by rw [hstatics])
  · obtain hsame | ⟨hspawn, mask, hnew⟩ := hdrainer
    · rw [hsame]
      exact hdrain
    · -- the drain thread starts on an empty session
      obtain ⟨habsent, hopen⟩ := hs.spawning hspawn
      rw [hnew]
      rw [habsent] at hdrain
      simpa [DrainOk, hunnoticed.drainDone, hopen] using hdrain
  · intro hdone
    rw [hunnoticed.drainDone] at hdone
    obtain hsame | ⟨hspawn, -⟩ := hdrainer
    · rw [hsame]
      exact hs.done hdone
    · rw [(hs.spawning hspawn).2] at hdone
      cases hdone
  · intro hspawn
    rw [hnospawn] at hspawn
    cases hspawn

/-! ## The drain thread's own steps -/

/-- The drain thread writes its cursor, its counter, its reads and its file. -/
structure Drains (s s' : State pool) : Prop where
  threads : s'.threads = s.threads
  control : s'.control = s.control
  accepted : s'.history.accepted = s.history.accepted
  reserved : s'.history.reserved = s.history.reserved
  recorded : s'.history.recorded = s.history.recorded
  cap : s'.statics.slabCap = s.statics.slabCap
  claim : s'.statics.claim = s.statics.claim
  dropped : s'.statics.dropped = s.statics.dropped
  inFlight : s'.statics.inFlight = s.statics.inFlight
  drained : s.statics.drained ≤ s'.statics.drained

theorem Inv.drains {s s' : State pool} (hs : Inv s) (h : Drains s s')
    (hpresent : s.drainer ≠ .absent) (hring : s'.ring.Ok) (hdrain : DrainOk s' s'.drainer)
    (hdone : s'.statics.drainDone = true → s'.drainer = .absent) : Inv s' where
  ring := hring
  ledger := {
    accepted_lt := by rw [h.accepted]; exact hs.ledger.accepted_lt
    sequences := by rw [h.reserved, h.claim]; exact hs.ledger.sequences
    reserved := by rw [h.recorded, h.threads, h.reserved]; exact hs.ledger.reserved
    accepted := by
      rw [h.accepted, h.claim, h.dropped, h.threads]
      exact hs.ledger.accepted
    inFlight := by
      have := hs.ledger.inFlight
      unfold State.InFlightExact State.insideCount at this ⊢
      rw [h.inFlight, h.threads]
      exact this }
  locals t := by
    rw [h.threads]
    exact (hs.locals t).mono h.cap h.claim.ge h.drained
  drain := hdrain
  done := hdone
  control := by rw [h.control]; exact hs.control
  spawning hspawn := by
    rw [h.control] at hspawn
    exact absurd (hs.spawning hspawn).1 hpresent

/-- The drain thread moves to `pc` and changes nothing else. -/
theorem Inv.drains_to {s : State pool} (hs : Inv s) (hpresent : s.drainer ≠ .absent) {pc : DrainPc}
    (hdrain : DrainOk s pc) : Inv { s with drainer := pc } := by
  have hunnoticed : Unnoticed s { s with drainer := pc } :=
    ⟨rfl, le_refl _, rfl, rfl, rfl, id, List.prefix_refl _, rfl, rfl, id, fun hc =>
      ⟨hc.armed, hc.quiet, hc.drained, hc.written, hc.read⟩⟩
  exact hs.drains ⟨rfl, rfl, rfl, rfl, rfl, rfl, rfl, rfl, rfl, le_refl _⟩ hpresent hs.ring
    (hdrain.unnoticed hs.ring hunnoticed) fun hdone => absurd (hs.done hdone) hpresent

/-- When the exit test passes and is up to date, the session is closed. -/
theorem Inv.closed_of_exit {s : State pool} (hs : Inv s) {l : DrainLocals} {claim : Nat}
    (hloop : Looping s l) (hle : claim ≤ l.next) (harmed : s.statics.armed = false)
    (hzero : s.statics.inFlight = 0) (hclaim : s.statics.claim = claim) : Closed s := by
  have hnext : l.next = s.statics.claim := by
    have := hs.ring.drained_le
    have := hloop.drained
    simp only [State.ring] at *
    omega
  have hlen : s.history.reserved.length = s.statics.claim := hs.ring.log_length
  refine ⟨harmed, fun t => ?_, hloop.drained.trans hnext, hloop.written.trans hnext, ?_⟩
  · apply SubmitPc.quiet_of_outside
    exact (s.insideCount_eq_zero).mp (hs.ledger.inFlight.symm.trans hzero) t
  · rw [hloop.taken.read, hnext, ← hlen, List.take_length]

section

variable {s : State pool} {l : DrainLocals}

/-- The loop begins. -/
theorem Opening.looping {mask : UInt32} (h : Opening s) :
    Looping s ⟨s.statics.slabCap, mask, 0, DrainRun.init⟩ := by
  refine ⟨⟨rfl, ?_, ?_⟩, h.drained, h.written⟩
  · rw [h.read, List.take_zero]
  · rw [h.read]
    rfl

/-- No counter wraps. -/
theorem Inv.claim_lt (hs : Inv s) : s.statics.claim < 2 ^ 64 := by
  have := hs.ledger.accepted
  have := hs.ledger.accepted_lt
  omega

/-- What is published is not drained. -/
theorem Inv.drained_lt (hs : Inv s) (hp : Published s) : s.statics.drained < s.statics.claim :=
  (hs.ring.tagged _ _ (Nat.mod_lt _ hs.ring.cap_pos) hp).1

/-- The drain thread finds the tag of its slot. -/
theorem Inv.published (hs : Inv s) (hloop : Looping s l) (hlt : l.next < s.statics.claim)
    (htag : s.statics.tags (l.next % l.cap) = wrappingAdd l.next 1) : Published s := by
  have := hs.claim_lt
  have hdrained := hloop.drained
  rw [wrappingAdd_of_lt (by omega)] at htag
  unfold Published
  simpa only [State.ring, hdrained, ← hloop.taken.cap] using htag

/-- With no producer inside, every reserved slot is published. -/
theorem Inv.tag_of_outside (hs : Inv s) (hloop : Looping s l) (hlt : l.next < s.statics.claim)
    (hzero : s.statics.inFlight = 0) :
    s.statics.tags (l.next % l.cap) = wrappingAdd l.next 1 := by
  have := hs.claim_lt
  have hfree : ∀ t, (s.ring.holders t).held = none := by
    intro t
    have hout := (s.insideCount_eq_zero).mp (hs.ledger.inFlight.symm.trans hzero) t
    change ((s.threads t).holder).held = none
    cases hthread : s.threads t with
    | writePayload event cap claim | storeTag event cap claim =>
        rw [hthread] at hout
        cases hout
    | _ => rfl
  rw [wrappingAdd_of_lt (by omega), hloop.taken.cap]
  exact hs.ring.tags_eq_of_free hfree hloop.drained.le hlt

/-- The drain thread takes the event of its slot. -/
theorem Inv.readPayload (hs : Inv s) (hpresent : s.drainer ≠ .absent) (hloop : Looping s l)
    (hp : Published s) :
    Inv { s with
      history := { s.history with
        read := s.history.read ++ [s.statics.payloads (l.next % l.cap)] }
      drainer := .addWritten
        { l with run := l.run.push (s.statics.payloads (l.next % l.cap)) } } := by
  have hlog := hs.ring.slots_eq hp
  simp only [State.ring] at hlog
  rw [← hloop.taken.cap, hloop.drained] at hlog
  refine hs.drains ⟨rfl, rfl, rfl, rfl, rfl, rfl, rfl, rfl, rfl, le_refl _⟩ hpresent hs.ring
    ⟨⟨hloop.taken.cap, ?_, ?_⟩, hloop.drained, hloop.written, hp⟩
    fun hdone => absurd (hs.done hdone) hpresent
  · simp only
    rw [hloop.taken.read, List.take_add_one, hlog]
    rfl
  · simp only
    rw [List.foldl_append, hloop.taken.run]
    rfl

/-- It counts the event. -/
theorem Inv.addWritten (hs : Inv s) (hpresent : s.drainer ≠ .absent)
    (hok : DrainOk s (.addWritten l)) :
    Inv { s with
      statics := { s.statics with written := wrappingAdd s.statics.written 1 }
      drainer := .storeDrained { l with next := wrappingAdd l.next 1 } } := by
  obtain ⟨htaken, hdrained, hwritten, hp⟩ := hok
  have := hs.drained_lt hp
  have := hs.claim_lt
  have hnext : wrappingAdd l.next 1 = l.next + 1 := wrappingAdd_of_lt (by omega)
  refine hs.drains ⟨rfl, rfl, rfl, rfl, rfl, rfl, rfl, rfl, rfl, le_refl _⟩ hpresent hs.ring
    ⟨⟨htaken.cap, ?_, htaken.run⟩, ?_, ?_, hp⟩ fun hdone => absurd (hs.done hdone) hpresent
  · simp only [hnext]
    exact htaken.read
  · simp only [hnext, hdrained]
  · simp only [hnext, hwritten]

/-- It frees the slot. -/
theorem Inv.storeDrained (hs : Inv s) (hpresent : s.drainer ≠ .absent)
    (hok : DrainOk s (.storeDrained l)) :
    Inv { s with
      statics := { s.statics with drained := l.next }
      drainer := .loadClaim l } := by
  obtain ⟨htaken, hdrained, hwritten, hp⟩ := hok
  have hring := hs.ring.advance hp
  have heq : State.ring { s with
      statics := { s.statics with drained := l.next }, drainer := .loadClaim l } =
      s.ring.advance := by
    simp only [State.ring, TaggedRing.Ring.advance, hdrained]
  rw [← heq] at hring
  refine hs.drains ⟨rfl, rfl, rfl, rfl, rfl, rfl, rfl, rfl, rfl, ?_⟩ hpresent hring
    ⟨⟨htaken.cap, htaken.read, htaken.run⟩, rfl, hwritten⟩
    fun hdone => absurd (hs.done hdone) hpresent
  simp only
  omega

/-- It closes the file. -/
theorem Inv.writeStop (hs : Inv s) (hpresent : s.drainer ≠ .absent) {recorded : Nat}
    (hok : DrainOk s (.writeStop l recorded)) :
    Inv { s with file := some (traceRecords l recorded), drainer := .complete } := by
  obtain ⟨hc, hnext, hout, hrec⟩ := hok
  have hlen : s.history.reserved.length = s.statics.claim := hs.ring.log_length
  refine hs.drains ⟨rfl, rfl, rfl, rfl, rfl, rfl, rfl, rfl, rfl, le_refl _⟩ hpresent hs.ring
    ⟨⟨hc.armed, hc.quiet, hc.drained, hc.written, hc.read⟩, l.mask, ?_⟩
    fun hdone => absurd (hs.done hdone) hpresent
  simp only [traceRecords, agentRecords, hout, hnext, hrec, hc.read, hlen]

/-- It sets `DRAIN_DONE`. -/
theorem Inv.complete (hs : Inv s) (hpresent : s.drainer ≠ .absent) (hok : DrainOk s .complete) :
    Inv { s with statics := { s.statics with drainDone := true }, drainer := .absent } := by
  obtain ⟨hc, hfiled⟩ := hok
  exact hs.drains ⟨rfl, rfl, rfl, rfl, rfl, rfl, rfl, rfl, rfl, le_refl _⟩ hpresent hs.ring
    ⟨⟨hc.armed, hc.quiet, hc.drained, hc.written, hc.read⟩, hfiled⟩ fun _ => rfl

end

theorem Inv.drain_step {s s' : State pool} (hs : Inv s) (hup : s.drainer.upToDate s.statics)
    (hstep : step s (.drain true) = some s') : Inv s' := by
  obtain ⟨⟨g, h, file, pc⟩, hdrain, hs'⟩ := Option.map_eq_some_iff.mp hstep
  have hpresent : s.drainer ≠ .absent := fun habsent => by
    rw [habsent] at hdrain
    cases hdrain
  have hok := hs.drain
  cases hpc : s.drainer with
  | absent => exact absurd hpc hpresent
  | loadSlab mask | writeHeader mask cap =>
      rw [hpc] at hdrain hok
      cases hdrain
      cases hs'
      exact hs.drains_to hpresent hok
  | loadCap mask =>
      rw [hpc] at hdrain hok
      cases hdrain
      cases hs'
      exact hs.drains_to hpresent ⟨hok, rfl⟩
  | writeStart mask cap =>
      rw [hpc] at hdrain hok
      cases hdrain
      cases hs'
      obtain ⟨hopening, rfl⟩ := hok
      exact hs.drains_to hpresent hopening.looping
  | loadClaim l =>
      rw [hpc] at hdrain hok
      cases hdrain
      cases hs'
      dsimp only
      split
      · exact hs.drains_to hpresent ⟨hok, ‹_›⟩
      · exact hs.drains_to hpresent ⟨hok, by omega⟩
  | loadTag l =>
      rw [hpc] at hdrain hok
      cases hdrain
      cases hs'
      dsimp only
      split
      case isTrue htag => exact hs.drains_to hpresent ⟨hok.1, hs.published hok.1 hok.2 htag⟩
      case isFalse => exact hs.drains_to hpresent hok
  | readPayload l =>
      rw [hpc] at hdrain hok
      simp only [drainStep, Bool.not_true, Bool.and_false, Bool.false_eq_true, if_false] at hdrain
      cases hdrain
      cases hs'
      exact hs.readPayload hpresent hok.1 hok.2
  | addWritten l =>
      rw [hpc] at hdrain hok
      cases hdrain
      cases hs'
      exact hs.addWritten hpresent hok
  | storeDrained l =>
      rw [hpc] at hdrain hok
      cases hdrain
      cases hs'
      exact hs.storeDrained hpresent hok
  | holeArmed l =>
      rw [hpc] at hdrain hok
      cases hdrain
      cases hs'
      dsimp only
      split
      · exact hs.drains_to hpresent hok.1
      · exact hs.drains_to hpresent hok
  | holeInFlight l =>
      rw [hpc] at hdrain hok hup
      cases hdrain
      cases hs'
      dsimp only
      split
      case isTrue hzero => exact absurd (hs.tag_of_outside hok.1 hok.2 hzero) (hup hzero)
      case isFalse => exact hs.drains_to hpresent hok.1
  | exitArmed l claim =>
      rw [hpc] at hdrain hok
      cases hdrain
      cases hs'
      dsimp only
      split
      case isTrue => exact hs.drains_to hpresent hok.1
      case isFalse harmed =>
        rw [Bool.not_eq_true] at harmed
        exact hs.drains_to hpresent ⟨hok.1, hok.2, harmed⟩
  | exitInFlight l claim =>
      rw [hpc] at hdrain hok hup
      cases hdrain
      cases hs'
      obtain ⟨hloop, hclaim, harmed⟩ := hok
      dsimp only
      split
      case isTrue hzero =>
        exact hs.drains_to hpresent
          ⟨hloop, hs.closed_of_exit hloop hclaim harmed hzero (hup hzero)⟩
      case isFalse => exact hs.drains_to hpresent hloop
  | finalFlush l =>
      rw [hpc] at hdrain hok
      simp only [drainStep, Bool.not_true, Bool.and_false, Bool.false_eq_true, if_false] at hdrain
      cases hdrain
      cases hs'
      obtain ⟨hloop, hc⟩ := hok
      refine hs.drains_to hpresent ⟨hc, by rw [← hc.drained, hloop.drained], ?_⟩
      simp only [drainRecords]
      rw [hloop.taken.run]
  | loadWritten l =>
      rw [hpc] at hdrain hok
      cases hdrain
      cases hs'
      exact hs.drains_to hpresent ⟨hok.1, hok.2.1, hok.2.2, hok.1.written⟩
  | writeStop l recorded =>
      rw [hpc] at hdrain hok
      cases hdrain
      cases hs'
      exact hs.writeStop hpresent hok
  | complete =>
      rw [hpc] at hdrain hok
      cases hdrain
      cases hs'
      exact hs.complete hpresent hok
  | _ =>
      rw [hpc] at hok
      exact hok.elim

/-! ## Runs -/

/-- Every step of the session that is up to date keeps the invariant. -/
theorem Inv.step {s s' : State pool} {a : Action pool} (hs : Inv s)
    (hguard : inSession s a ∧ upToDate s a) (hstep : step s a = some s') : Inv s' := by
  obtain ⟨hsession, hup⟩ := hguard
  cases a with
  | call t event => exact hs.call hstep
  | submit t spurious => exact hs.submit hup hstep
  | start spec => exact hsession.elim
  | stop =>
      simp only [Recorder.step] at hstep
      split at hstep <;> cases hstep
      have hunnoticed : Unnoticed s (s.goto (.stopSwap none)) :=
        ⟨rfl, le_refl _, rfl, rfl, rfl, id, List.prefix_refl _, rfl, rfl, id, fun hc =>
          ⟨hc.armed, hc.quiet, hc.drained, hc.written, hc.read⟩⟩
      exact ⟨hs.ring, ⟨hs.ledger.accepted_lt, hs.ledger.sequences, hs.ledger.reserved,
        hs.ledger.accepted, hs.ledger.inFlight⟩, hs.locals,
        hs.drain.unnoticed hs.ring hunnoticed, hs.done, rfl, (by rintro ⟨⟩)⟩
  | control ok => exact hs.control_step hsession hstep
  | drain ok =>
      obtain rfl : ok = true := hsession
      exact hs.drain_step hup hstep

theorem SessionStart.inv {s : State pool} (h : SessionStart s) : Inv s := by
  have hcarried : ∀ t, (s.threads t).carried = 0 := by
    intro t
    have := h.threads t
    cases hpc : s.threads t with
    | writePayload event cap claim | storeTag event cap claim =>
        rw [hpc] at this
        cases this
    | leave recorded =>
        cases recorded with
        | none => rfl
        | some event =>
            rw [hpc] at this
            cases this
    | _ => rfl
  have hquiet : ∀ t, (s.threads t).holder.held = none ∧ (s.threads t).deciding = false ∧
      (s.threads t).LocalOk s.statics := by
    intro t
    have := h.threads t
    cases hpc : s.threads t <;> first | exact ⟨rfl, rfl, trivial⟩ | (rw [hpc] at this; cases this)
  obtain ⟨spec, hspec⟩ := h.control
  refine ⟨?_, ⟨?_, ?_, ?_, ?_, h.inFlight⟩, fun t => (hquiet t).2.2, ?_, ?_, ?_, ?_⟩
  · exact TaggedRing.Ring.Ok.of_empty h.cap_pos h.claim h.drained
      (congrArg History.reserved h.history) h.tags fun t => (hquiet t).1
  · rw [h.history]
    decide
  · rw [h.history, h.claim]
    rfl
  · rw [h.history, Tally.tally_eq_zero hcarried]
    rfl
  · have hzero : Tally.count (fun pc : SubmitPc => pc.deciding = true) s.threads = 0 := by
      rw [Tally.count_eq_zero]
      intro t
      simp [(hquiet t).2.1]
    rw [h.history, h.claim, h.dropped, hzero]
    rfl
  · rw [h.drainer]
    simp only [DrainOk, h.drainDone, Bool.false_eq_true, if_false]
    exact ⟨h.drained, h.written, congrArg History.read h.history⟩
  · intro hdone
    rw [h.drainDone] at hdone
    cases hdone
  · rw [hspec]
    rfl
  · exact fun _ => ⟨h.drainer, h.drainDone⟩

end PinBridge.Recorder
