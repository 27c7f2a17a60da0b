import PinBridge.Recorder.InFlight
import Mathlib.Tactic.Abel

/-!
# One recording session

From the moment `start_spec` opens the producer gate to `DRAIN_DONE`, the slab is
a tagged ring: `try_reserve` reserves, the payload write and the tag store publish,
and the drain loop reads.  `State.ring` is that ring, and every step of a producer
is an operation of it (`submit_ring`).

The drain loop ends when it finds `next` caught up with `CLAIM`, then `ARMED` down,
then `IN_FLIGHT` zero.  The three reads happen one after the other.  A producer
that reserves, publishes and leaves after the first of them is not seen by any, and
its event stays in the slab.  The same happens to the test for an unpublished slot.
`upToDate` says that what the drain thread read first still holds when it reads
`IN_FLIGHT`.  A session whose steps are up to date loses nothing.
-/

namespace PinBridge.Recorder

open Transition
open TaggedRing (Ring Holder)

variable {pool : Pool}

/-! ## Sessions -/

/-- `start_spec` has just opened the producer gate.  A thread may be anywhere in
`submit` where it holds no reservation. -/
structure SessionStart (s : State pool) : Prop where
  cap_pos : 0 < s.statics.slabCap
  tags : ∀ slot, slot < s.statics.slabCap → s.statics.tags slot = 0
  claim : s.statics.claim = 0
  drained : s.statics.drained = 0
  dropped : s.statics.dropped = 0
  written : s.statics.written = 0
  drainDone : s.statics.drainDone = false
  inFlight : s.InFlightExact
  control : ∃ spec, s.control = .spawn spec
  drainer : s.drainer = .absent
  history : s.history = History.empty
  threads : ∀ t, (s.threads t).quiet = true

/-- The query server is about to spawn the drain thread. -/
def ControlPc.spawns : ControlPc → Bool
  | .spawn _ => true
  | _ => false

/-- A step of the session: no further `start_spec`, the drain thread is spawned,
and its I/O succeeds. -/
def inSession (s : State pool) : Action pool → Prop
  | .start _ => False
  | .control ok => s.control.spawns = true → ok = true
  | .drain ok => ok = true
  | _ => True

/-- What `drain_main` compared before it reads `IN_FLIGHT` still holds when it reads
zero. -/
def DrainPc.upToDate (g : Statics) : DrainPc → Prop
  | .exitInFlight _ claim => g.inFlight = 0 → g.claim = claim
  | .holeInFlight l => g.inFlight = 0 → g.tags (l.next % l.cap) ≠ wrappingAdd l.next 1
  | _ => True

/-- A call of `submit` is counted by a 64-bit word. -/
def SubmitPc.countable (h : History) : SubmitPc → Prop
  | .recheckArmed _ => h.accepted + 1 < 2 ^ 64
  | _ => True

/-- The tests of the drain thread are up to date, and fewer than `2 ^ 64` calls are
accepted. -/
def upToDate (s : State pool) : Action pool → Prop
  | .drain _ => s.drainer.upToDate s.statics
  | .submit t _ => (s.threads t).countable s.history
  | _ => True

instance (s : State pool) : (a : Action pool) → Decidable (inSession s a)
  | .start _ => isFalse id
  | .control ok => inferInstanceAs (Decidable (s.control.spawns = true → ok = true))
  | .drain ok => inferInstanceAs (Decidable (ok = true))
  | .call _ _ | .submit _ _ | .stop => isTrue trivial

instance (g : Statics) : (pc : DrainPc) → Decidable (pc.upToDate g)
  | .exitInFlight _ claim => inferInstanceAs (Decidable (g.inFlight = 0 → g.claim = claim))
  | .holeInFlight l =>
      inferInstanceAs
        (Decidable (g.inFlight = 0 → g.tags (l.next % l.cap) ≠ wrappingAdd l.next 1))
  | .absent | .loadSlab _ | .loadCap _ | .writeHeader _ _ | .writeStart _ _ | .loadClaim _
  | .loadTag _ | .readPayload _ | .addWritten _ | .storeDrained _ | .holeArmed _ | .holeFailed _
  | .holeDropped _ | .exitArmed _ _ | .finalFlush _ | .lossDisarm _ | .lossFailed _
  | .lossInFlight _ | .lossClaim _ | .lossDropped _ _ | .lossDrained _ _ | .loadWritten _
  | .writeStop _ _ | .stopFailed | .failFailed | .failArmed | .failInFlight | .failClaim
  | .failDrained _ | .failDropped _ _ | .failStore _ | .complete => isTrue trivial

instance (h : History) : (pc : SubmitPc) → Decidable (pc.countable h)
  | .recheckArmed _ => inferInstanceAs (Decidable (h.accepted + 1 < 2 ^ 64))
  | .idle | .loadSlab _ | .checkArmed _ | .enter _ | .loadCap _ | .loadClaim _ _
  | .loadDrained _ _ _ | .exchange _ _ _ | .overflow | .writePayload _ _ _ | .storeTag _ _ _
  | .leave _ => isTrue trivial

instance (s : State pool) : (a : Action pool) → Decidable (upToDate s a)
  | .drain _ => inferInstanceAs (Decidable (s.drainer.upToDate s.statics))
  | .submit t _ => inferInstanceAs (Decidable ((s.threads t).countable s.history))
  | .call _ _ | .start _ | .stop | .control _ => isTrue trivial

/-! ## The first session of a process -/

/-- The state in which `start_spec` has opened the gate of the first session, when no
thread has moved. -/
def State.armed (pool : Pool) (recordCap : Option Nat) (spec : StartSpec) : State pool :=
  { State.init pool recordCap with
    statics := { Statics.init with
      slab := true
      slabCap := slabCapacity recordCap
      armed := true
      drainDone := false
      sessionStarted := true }
    control := .spawn spec }

/-- `start_spec` opens the gate after sixteen accesses. -/
theorem run_start (recordCap : Option Nat) {spec : StartSpec} (hspec : spec.check = .ok ()) :
    run step (State.init pool recordCap) (.start spec :: List.replicate 16 (.control true)) =
      some (State.armed pool recordCap spec) := by
  have hchecks : run step (State.init pool recordCap) [.start spec, .control true, .control true] =
      some ((State.init pool recordCap).goto (.ensureSlab spec)) := by
    have hcheck : controlStep (State.init pool recordCap) true (.startDrainDone spec) =
        some ((State.init pool recordCap).goto (.ensureSlab spec)) := by
      simp only [controlStep, hspec]
      rfl
    exact congrArg (Option.bind · fun t => run step t []) hcheck
  have hresets : run step ((State.init pool recordCap).goto (.ensureSlab spec))
      (List.replicate 14 (.control true)) =
      some { State.armed pool recordCap spec with
        statics := { (State.armed pool recordCap spec).statics with
          tags := fun slot => if slot < slabCapacity recordCap then 0 else 0 } } := rfl
  have hsplit : (.start spec :: List.replicate 16 (.control true) : List (Action pool)) =
      [.start spec, .control true, .control true] ++ List.replicate 14 (.control true) := rfl
  rw [hsplit, run_append, hchecks, Option.bind_some, hresets]
  simp only [ite_self]
  rfl

/-- The slab as a ring. -/
def State.ring (s : State pool) : Ring pool.Thread Event where
  cap := s.statics.slabCap
  claim := s.statics.claim
  drained := s.statics.drained
  tags := s.statics.tags
  slots := s.statics.payloads
  log := s.history.reserved
  holders t := (s.threads t).holder

theorem holder_update (threads : pool.Thread → SubmitPc) (t : pool.Thread) (pc : SubmitPc) :
    (fun u => (Function.update threads t pc u).holder) =
      Function.update (fun u => (threads u).holder) t pc.holder :=
  Function.comp_update SubmitPc.holder threads t pc

/-- The locals of a call agree with the statics. -/
def SubmitPc.LocalOk (g : Statics) : SubmitPc → Prop
  | .loadClaim _ cap => cap = g.slabCap
  | .loadDrained _ cap current => cap = g.slabCap ∧ current ≤ g.claim
  | .exchange _ cap current => cap = g.slabCap ∧ current < g.drained + g.slabCap
  | .writePayload _ cap _ | .storeTag _ cap _ => cap = g.slabCap
  | _ => True

theorem SubmitPc.LocalOk.mono {g g' : Statics} (hcap : g'.slabCap = g.slabCap)
    (hclaim : g.claim ≤ g'.claim) (hdrained : g.drained ≤ g'.drained) {pc : SubmitPc}
    (h : pc.LocalOk g) : pc.LocalOk g' := by
  cases pc with
  | loadClaim event cap => exact h.trans hcap.symm
  | loadDrained event cap current => exact ⟨h.1.trans hcap.symm, h.2.trans hclaim⟩
  | exchange event cap current =>
      refine ⟨h.1.trans hcap.symm, ?_⟩
      have := h.2
      omega
  | writePayload event cap claim | storeTag event cap claim => exact h.trans hcap.symm
  | _ => trivial

/-- A successful capacity check leaves room, also when `DRAINED` has overtaken the
loaded `CLAIM`. -/
theorem lt_of_wrappingSub_lt {current drained cap : Nat} (hcurrent : current < 2 ^ 64)
    (h : wrappingSub current drained < cap) : current < drained + cap := by
  rcases Nat.lt_or_ge current drained with hlt | hle
  · omega
  · rw [wrappingSub_of_le hle hcurrent] at h
    omega

/-- A call keeps its locals in agreement, and moves `CLAIM` up and nothing else of
what they refer to. -/
theorem submitStep_local {g g' : Statics} {h h' : History} {spurious : Bool} {pc pc' : SubmitPc}
    (hstep : submitStep g h spurious pc = some (g', h', pc'))
    (hroom : pc.deciding = true → g.claim + 1 < 2 ^ 64) (hlocal : pc.LocalOk g) :
    pc'.LocalOk g' ∧ g'.slabCap = g.slabCap ∧ g.claim ≤ g'.claim ∧ g'.drained = g.drained := by
  cases pc with
  | idle => cases hstep
  | recheckArmed event =>
      simp only [submitStep] at hstep
      split at hstep <;> cases hstep <;> exact ⟨trivial, rfl, le_refl _, rfl⟩
  | loadSlab event | checkArmed event | loadCap event =>
      cases hstep
      refine ⟨?_, rfl, le_refl _, rfl⟩
      split <;> trivial
  | loadClaim event cap =>
      cases hstep
      exact ⟨⟨hlocal, le_refl _⟩, rfl, le_refl _, rfl⟩
  | loadDrained event cap current =>
      cases hstep
      refine ⟨?_, rfl, le_refl _, rfl⟩
      obtain ⟨hcap, hcurrent⟩ := hlocal
      split
      · trivial
      · have := hroom rfl
        refine ⟨hcap, ?_⟩
        rw [← hcap]
        exact lt_of_wrappingSub_lt (by omega) (by omega)
  | exchange event cap current =>
      simp only [submitStep] at hstep
      split at hstep
      case isTrue hwin =>
        cases hstep
        refine ⟨hlocal.1, rfl, ?_, rfl⟩
        have hcurrent := hwin.1
        have := hroom rfl
        change g.claim ≤ wrappingAdd current 1
        rw [wrappingAdd_of_lt (by omega)]
        omega
      case isFalse =>
        cases hstep
        exact ⟨⟨hlocal.1, le_refl _⟩, rfl, le_refl _, rfl⟩
  | writePayload event cap claim =>
      cases hstep
      exact ⟨hlocal, rfl, le_refl _, rfl⟩
  | enter event | overflow | storeTag event cap claim | leave recorded =>
      cases hstep
      exact ⟨trivial, rfl, le_refl _, rfl⟩

/-- The ring after thread `t` has moved to `pc`. -/
theorem State.ring_move (s : State pool) (g : Statics) (h : History) (t : pool.Thread)
    (pc : SubmitPc) :
    State.ring { s with statics := g, history := h, threads := Function.update s.threads t pc } =
      ⟨g.slabCap, g.claim, g.drained, g.tags, g.payloads, h.reserved,
        Function.update s.ring.holders t pc.holder⟩ := by
  simp only [State.ring, holder_update]

/-- A move that keeps what the thread holds keeps the ring. -/
theorem State.ring_stay (s : State pool) {t : pool.Thread} {pc : SubmitPc}
    (hpc : pc.holder = (s.threads t).holder) :
    Function.update s.ring.holders t pc.holder = s.ring.holders :=
  Function.update_eq_self_iff.mpr hpc

/-- A step of a producer is nothing, a reservation, a slot write or a publication on
the ring. -/
theorem submit_ring {s : State pool} {t : pool.Thread} {spurious : Bool} {g : Statics}
    {h : History} {pc : SubmitPc} (hring : s.ring.Ok) (hlocal : (s.threads t).LocalOk s.statics)
    (hclaim : s.statics.claim < 2 ^ 64)
    (hroom : (s.threads t).deciding = true → s.statics.claim + 1 < 2 ^ 64)
    (hstep : submitStep s.statics s.history spurious (s.threads t) = some (g, h, pc)) :
    let s' := { s with statics := g, history := h, threads := Function.update s.threads t pc }
    s'.ring.Ok ∧ s.history.reserved <+: h.reserved ∧
      (s.ring.tags (s.ring.drained % s.ring.cap) = s.ring.drained + 1 →
        s'.ring.tags (s.ring.drained % s.ring.cap) = s.ring.drained + 1) := by
  intro s'
  have hmove : s'.ring = _ := s.ring_move g h t pc
  have hstay : g.slabCap = s.statics.slabCap → g.claim = s.statics.claim →
      g.drained = s.statics.drained → g.tags = s.statics.tags →
      g.payloads = s.statics.payloads → h.reserved = s.history.reserved →
      pc.holder = (s.threads t).holder → s'.ring = s.ring := by
    intro h1 h2 h3 h4 h5 h6 h7
    rw [hmove, s.ring_stay h7, h1, h2, h3, h4, h5, h6]
    rfl
  have hsame : s'.ring = s.ring → h.reserved = s.history.reserved →
      s'.ring.Ok ∧ s.history.reserved <+: h.reserved ∧
        (s.ring.tags (s.ring.drained % s.ring.cap) = s.ring.drained + 1 →
          s'.ring.tags (s.ring.drained % s.ring.cap) = s.ring.drained + 1) := by
    intro heq hres
    rw [heq, hres]
    exact ⟨hring, List.prefix_refl _, id⟩
  cases hpc : s.threads t with
  | idle =>
      rw [hpc] at hstep
      cases hstep
  | enter event | loadClaim event cap | overflow | leave recorded =>
      rw [hpc] at hstep
      cases hstep
      exact hsame (hstay rfl rfl rfl rfl rfl rfl (by rw [hpc]; rfl)) rfl
  | loadSlab event | checkArmed event | loadCap event | loadDrained event cap current =>
      rw [hpc] at hstep
      cases hstep
      refine hsame (hstay rfl rfl rfl rfl rfl rfl ?_) rfl
      rw [hpc]
      split <;> rfl
  | recheckArmed event =>
      rw [hpc] at hstep
      simp only [submitStep] at hstep
      split at hstep <;> cases hstep <;>
        exact hsame (hstay rfl rfl rfl rfl rfl rfl (by rw [hpc]; rfl)) rfl
  | exchange event cap current =>
      rw [hpc] at hstep hlocal hroom
      simp only [submitStep] at hstep
      split at hstep
      case isTrue hwin =>
        cases hstep
        obtain ⟨hcurrent, -⟩ := hwin
        subst hcurrent
        have hfree : (s.ring.holders t).held = none := by
          change ((s.threads t).holder).held = none
          rw [hpc]
          rfl
        have hreserve := hring.reserve hfree hlocal.2
          { event with sequence := UInt64.ofNat (s.statics.claim + 1) }
        have heq : s'.ring = s.ring.reserve t
            { event with sequence := UInt64.ofNat (s.statics.claim + 1) } := by
          rw [hmove]
          simp only [Ring.reserve, State.ring, SubmitPc.holder, wrappingAdd_of_lt (hroom rfl)]
        rw [heq]
        exact ⟨hreserve, List.prefix_append _ _, id⟩
      case isFalse =>
        cases hstep
        exact hsame (hstay rfl rfl rfl rfl rfl rfl (by rw [hpc]; rfl)) rfl
  | writePayload event cap claim =>
      rw [hpc] at hstep hlocal
      cases hstep
      have hholds : s.ring.holders t = .reserved event claim := by
        change (s.threads t).holder = _
        rw [hpc]
        rfl
      have heq : s'.ring = s.ring.write t event claim := by
        rw [hmove]
        simp only [Ring.write, State.ring, SubmitPc.holder]
        rw [show cap = s.statics.slabCap from hlocal]
      rw [heq]
      exact ⟨hring.write hholds, List.prefix_refl _, id⟩
  | storeTag event cap claim =>
      rw [hpc] at hstep hlocal
      cases hstep
      have hholds : s.ring.holders t = .written event claim := by
        change (s.threads t).holder = _
        rw [hpc]
        rfl
      have hlt : claim < s.statics.claim :=
        hring.held_lt (i := t) (e := event) (k := claim) (by rw [hholds]; rfl)
      have heq : s'.ring = s.ring.publish t claim := by
        rw [hmove]
        simp only [Ring.publish, State.ring, SubmitPc.holder]
        rw [show cap = s.statics.slabCap from hlocal, wrappingAdd_of_lt (by omega)]
      rw [heq]
      exact ⟨hring.publish hholds, List.prefix_refl _, hring.publish_tags hholds⟩

/-! ## The ledger -/

/-- Where the accepted calls and the reserved events are. -/
structure Ledger (s : State pool) : Prop where
  accepted_lt : s.history.accepted < 2 ^ 64
  sequences : s.history.reserved.map (fun e => e.sequence.toNat) = List.range' 1 s.statics.claim
  reserved : (s.history.recorded : Multiset Event) + Tally.tally SubmitPc.carried s.threads =
    s.history.reserved
  accepted : s.history.accepted = s.statics.claim + s.statics.dropped +
    Tally.count (fun pc : SubmitPc => pc.deciding = true) s.threads
  inFlight : s.InFlightExact

/-- A reservation is carried until the call returns. -/
theorem submitStep_carried {g g' : Statics} {h h' : History} {spurious : Bool} {pc pc' : SubmitPc}
    (hstep : submitStep g h spurious pc = some (g', h', pc')) :
    (h'.recorded : Multiset Event) + pc'.carried + h.reserved =
      h.recorded + pc.carried + h'.reserved := by
  cases pc with
  | idle => cases hstep
  | enter event | loadClaim event cap | overflow | writePayload event cap claim
  | storeTag event cap claim =>
      cases hstep
      rfl
  | loadSlab event | checkArmed event | loadCap event | loadDrained event cap current =>
      cases hstep
      split <;> rfl
  | recheckArmed event =>
      simp only [submitStep] at hstep
      split at hstep <;> cases hstep <;> rfl
  | exchange event cap current =>
      simp only [submitStep] at hstep
      split at hstep
      case isTrue hwin =>
        cases hstep
        simp only [SubmitPc.carried, add_zero]
        rw [← Multiset.coe_add, Multiset.coe_singleton, add_assoc, add_comm {_}]
      case isFalse =>
        cases hstep
        rfl
  | leave recorded =>
      cases hstep
      cases recorded with
      | none => simp [SubmitPc.carried]
      | some event =>
          simp only [SubmitPc.carried, Option.toList_some, add_zero]
          rw [← Multiset.coe_add, Multiset.coe_singleton]

/-- An accepted call ends in a reservation or a drop. -/
theorem submitStep_accepted {g g' : Statics} {h h' : History} {spurious : Bool} {pc pc' : SubmitPc}
    (hstep : submitStep g h spurious pc = some (g', h', pc'))
    (hbound : pc.deciding = true → g.claim + g.dropped + 1 < 2 ^ 64) :
    h'.accepted + (if pc.deciding = true then 1 else 0) + (g.claim + g.dropped) =
      h.accepted + (if pc'.deciding = true then 1 else 0) + (g'.claim + g'.dropped) := by
  cases pc with
  | idle => cases hstep
  | enter event | loadClaim event cap | writePayload event cap claim
  | storeTag event cap claim | leave recorded =>
      cases hstep
      rfl
  | loadSlab event | checkArmed event | loadCap event | loadDrained event cap current =>
      cases hstep
      simp only [apply_ite SubmitPc.deciding]
      simp [SubmitPc.deciding]
  | recheckArmed event =>
      simp only [submitStep] at hstep
      split at hstep <;> cases hstep <;> simp [SubmitPc.deciding]
  | overflow =>
      cases hstep
      have := hbound rfl
      rw [wrappingAdd_of_lt (by omega)]
      simp [SubmitPc.deciding]
      omega
  | exchange event cap current =>
      have := hbound rfl
      simp only [submitStep] at hstep
      split at hstep
      case isTrue hwin =>
        cases hstep
        obtain ⟨rfl, -⟩ := hwin
        rw [wrappingAdd_of_lt (by omega)]
        simp [SubmitPc.deciding]
        omega
      case isFalse =>
        cases hstep
        rfl

/-- The next reservation carries the next sequence number. -/
theorem submitStep_sequences {g g' : Statics} {h h' : History} {spurious : Bool}
    {pc pc' : SubmitPc} (hstep : submitStep g h spurious pc = some (g', h', pc'))
    (hroom : pc.deciding = true → g.claim + 1 < 2 ^ 64)
    (hseq : h.reserved.map (fun e => e.sequence.toNat) = List.range' 1 g.claim) :
    h'.reserved.map (fun e => e.sequence.toNat) = List.range' 1 g'.claim := by
  cases pc with
  | idle => cases hstep
  | recheckArmed event =>
      simp only [submitStep] at hstep
      split at hstep <;> cases hstep <;> exact hseq
  | exchange event cap current =>
      simp only [submitStep] at hstep
      split at hstep
      case isTrue hwin =>
        cases hstep
        obtain ⟨rfl, -⟩ := hwin
        have hword := hroom rfl
        rw [wrappingAdd_of_lt hword, List.map_append, hseq, List.range'_concat]
        simp only [List.map_cons, List.map_nil, UInt64.toNat_ofNat', Nat.mod_eq_of_lt hword,
          one_mul, Nat.add_comm 1]
      case isFalse =>
        cases hstep
        exact hseq
  | _ =>
      cases hstep
      exact hseq

/-- The history of accepted calls changes at the second `ARMED` check. -/
theorem submitStep_accepted_lt {g g' : Statics} {h h' : History} {spurious : Bool}
    {pc pc' : SubmitPc} (hstep : submitStep g h spurious pc = some (g', h', pc'))
    (hcount : pc.countable h) (hlt : h.accepted < 2 ^ 64) : h'.accepted < 2 ^ 64 := by
  cases pc with
  | idle => cases hstep
  | recheckArmed event =>
      simp only [submitStep] at hstep
      split at hstep <;> cases hstep
      · exact hcount
      · exact hlt
  | exchange event cap current =>
      simp only [submitStep] at hstep
      split at hstep <;> cases hstep <;> exact hlt
  | _ =>
      cases hstep
      exact hlt

/-- A call that is still deciding has room for its own count. -/
theorem Ledger.room {s : State pool} (hs : Ledger s) {t : pool.Thread}
    (hdeciding : (s.threads t).deciding = true) :
    s.statics.claim + s.statics.dropped + 1 < 2 ^ 64 := by
  have := Tally.count_pos (p := fun pc : SubmitPc => pc.deciding = true) hdeciding
  have := hs.accepted
  have := hs.accepted_lt
  omega

theorem Ledger.submit {s s' : State pool} (hs : Ledger s) {t : pool.Thread} {spurious : Bool}
    (hcount : (s.threads t).countable s.history)
    (hstep : step s (.submit t spurious) = some s') : Ledger s' := by
  have hexact := (inFlightExact_step hs.inFlight hstep).mpr trivial
  obtain ⟨⟨g, h, pc⟩, hsub, hs'⟩ := Option.map_eq_some_iff.mp hstep
  cases hs'
  have hroom : (s.threads t).deciding = true → s.statics.claim + 1 < 2 ^ 64 := by
    intro hdeciding
    have := hs.room hdeciding
    omega
  constructor
  · exact submitStep_accepted_lt hsub hcount hs.accepted_lt
  · exact submitStep_sequences hsub hroom hs.sequences
  · -- what the call carried and what it carries now balance
    have hbalance := submitStep_carried hsub
    have htally := Tally.tally_update SubmitPc.carried s.threads t pc
    have hold := hs.reserved
    apply add_right_cancel (b := (s.threads t).carried + (s.history.reserved : Multiset Event))
    calc (h.recorded : Multiset Event) + Tally.tally SubmitPc.carried (Function.update s.threads t pc)
          + ((s.threads t).carried + s.history.reserved)
        = h.recorded + s.history.reserved + (Tally.tally SubmitPc.carried
            (Function.update s.threads t pc) + (s.threads t).carried) := by abel
      _ = (h.recorded + pc.carried + s.history.reserved) +
            Tally.tally SubmitPc.carried s.threads := by
          rw [htally]
          abel
      _ = (s.history.recorded + Tally.tally SubmitPc.carried s.threads) +
            ((s.threads t).carried + h.reserved) := by
          rw [hbalance]
          abel
      _ = h.reserved + ((s.threads t).carried + s.history.reserved) := by
          rw [hold]
          abel
  · have haccepted := submitStep_accepted hsub fun hd => hs.room hd
    have htally := Tally.count_update (p := fun pc : SubmitPc => pc.deciding = true)
      (g := s.threads) t pc
    have := hs.accepted
    simp only
    omega
  · exact hexact

end PinBridge.Recorder
