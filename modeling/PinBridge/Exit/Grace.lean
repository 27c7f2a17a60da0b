import PinBridge.Exit.Step
import PinBridge.Lib.Sizes

/-!
# What the grace covers

`GraceCovers` says what the grace is for.  A wait ends before the grace only when every
running plugin has been called for the phase, no handler is called twice, and a
handler gets the code of the exit routine that opened the phase.

Some windows break it.  The flag of a phase is set before its code and its generation
are stored, so that a tick under way delivers the code that was there before.  A tick
acknowledges the generation it finds when it has dispatched, which can be that of a
phase opened after a plugin was looked at (`windows_break`).  And
`on_prepare_for_fini` can write an old exit code back, or use up a `process.exit` handler
as a fallback before an exit routine runs.  `grace_covers` says that nothing else goes
wrong (`State.Orderly`).
-/

namespace PinBridge.Exit

open Transition (run Always Guarded)
open scoped Sizes

variable {τ π : Type*} (r : Registry π)

/-! ## What holds -/

/-- The grace covers the delivery. -/
structure State.GraceCovers (s : State τ π) : Prop where
  /-- A wait ends early when every running plugin has been called. -/
  covered : ∀ source ∈ s.early, ∀ p ∈ r.names, s.running p = true → ∀ h ∈ r.handlers p,
    s.Owed source h → ∃ i ∈ s.invocations, i.plugin = p ∧ i.handler = h ∧ i.event.arg1 = source
  /-- No handler is called twice. -/
  once : (s.invocations.map fun i => (i.plugin, i.handler.id)).Nodup
  /-- A handler gets the code of the exit routine that opened the phase. -/
  code : ∀ i ∈ s.invocations, ∀ c, s.opened i.event.arg1 = some (some c) →
    i.event.arg0 = c.signExtend 64

/-- The exit routine has set its flag and not stored its code. -/
def CallPc.storesExit : CallPc → Bool
  | .storeCode e => e.source = .api
  | _ => false

/-- The edge and the generation a thread waits for. -/
def CallPc.awaits : CallPc → Option (Edge × Nat)
  | .submit e generation | .loadGrace e generation | .wait e generation _ => some (e, generation)
  | _ => none

/-- No call falls into a window. -/
def State.CallOrderly (s : State τ π) : CallPc → Prop
  | .claim _ => s.exitRequested = false →
      ∀ i ∈ s.invocations, i.handler.selector = .processExit → s.running i.plugin = false
  | .storeCode e => e.nativePrepareReached = true → e.code = s.exitCode
  | _ => True

/-- No record of a dispatch falls into a window. -/
def State.DispatchOrderly (s : State τ π) (tick : Tick π) (d : Dispatch π) : DispatchPc → Prop
  | .loadExitCode => s.owes r d .api = true → ∀ t, (s.threads t).storesExit = false
  | .loadNative _ hadExitRequest =>
      hadExitRequest = false → s.owes r d .api = true → s.exitRequested = false
  | .lane =>
      (∃ record ∈ tick.priorityEvents, record.event.arg1 = .prepareFini ∧
        record.event.arg2 = false) → s.owes r d .api = true → s.exitRequested = false
  | _ => True

/-- No step of the host falls into a window. -/
def State.HostOrderly (s : State τ π) : HostPc π → Prop
  | .dispatch tick d => s.DispatchOrderly r tick d d.pc
  | .acknowledge tick => ∀ t, ∀ w ∈ (s.threads t).awaits, tick.missed w.1.source = false
  | _ => True

/-- No step falls into a window. -/
def State.Orderly (s : State τ π) : Action τ → Prop
  | .thread t _ => s.CallOrderly (s.threads t)
  | .host _ => s.HostOrderly r s.host
  | _ => True

instance (s : State τ π) : (pc : CallPc) → Decidable (s.CallOrderly pc)
  | .claim _ => inferInstanceAs (Decidable (_ → ∀ i ∈ s.invocations, _))
  | .storeCode _ => inferInstanceAs (Decidable (_ → _))
  | .idle | .addGeneration _ | .submit .. | .loadGrace .. | .wait .. | .claimPreparing _
  | .storeNative | .swapPreparing | .loadRequested | .loadCode _ =>
      inferInstanceAs (Decidable True)

instance [Fintype τ] (s : State τ π) (tick : Tick π) (d : Dispatch π) :
    (pc : DispatchPc) → Decidable (s.DispatchOrderly r tick d pc)
  | .loadExitCode => inferInstanceAs (Decidable (_ → ∀ t, (s.threads t).storesExit = false))
  | .loadNative .. => inferInstanceAs (Decidable (_ → _ → _))
  | .lane => inferInstanceAs (Decidable ((∃ record ∈ tick.priorityEvents, _) → _ → _))
  | .loadRequested | .loadPreparing | .loadPrepareCode | .loadHadRequest _ | .writeBack =>
      inferInstanceAs (Decidable True)

instance [Fintype τ] (s : State τ π) : (pc : HostPc π) → Decidable (s.HostOrderly r pc)
  | .dispatch tick d => inferInstanceAs (Decidable (s.DispatchOrderly r tick d d.pc))
  | .acknowledge tick =>
      let _ : ∀ t, Decidable (∀ w ∈ (s.threads t).awaits, tick.missed w.1.source = false) :=
        fun _ => Option.decidableForallMem _
      inferInstanceAs (Decidable (∀ t, ∀ w ∈ (s.threads t).awaits, tick.missed w.1.source = false))
  | .idle | .loadAcknowledged | .loadGeneration _ | .page _ | .next _ | .storeAcknowledged _ =>
      inferInstanceAs (Decidable True)

instance [Fintype τ] (s : State τ π) : (a : Action τ) → Decidable (s.Orderly r a)
  | .thread t _ => inferInstanceAs (Decidable (s.CallOrderly (s.threads t)))
  | .host _ => inferInstanceAs (Decidable (s.HostOrderly r s.host))
  | .exitRoutine .. | .prepareForFini _ | .becomeReady => inferInstanceAs (Decidable True)

/-! ## The invariant -/

/-- The phase of the event is open, and the event has its code. -/
def State.EventOk (s : State τ π) (event : ExitEvent) : Prop :=
  ∃ o, s.opened event.arg1 = some o ∧ ∀ c, o = some c → event.arg0 = c.signExtend 64

/-- Every running plugin has been called for the phase. -/
structure State.Served (s : State τ π) (source : Source) : Prop where
  opened : ∃ o, s.opened source = some o
  called : ∀ p ∈ r.names, s.running p = true → ∀ h ∈ r.handlers p, s.Owed source h →
    s.stickyDelivered p h.id = true

/-- The edge belongs to the party that opened the phase. -/
structure State.EdgeOk (s : State τ π) (e : Edge) : Prop where
  routine : e.nativePrepareReached = false → s.opened e.source = some (some e.code)
  native : e.nativePrepareReached = true →
    e.source = .prepareFini ∧ s.opened .prepareFini = some none
  prepare : e.nativePrepareReached = false → e.source = .prepareFini →
    s.stored = true ∧ s.opened .api = some (some e.code)

/-- The edge has stored its code. -/
def State.EdgeStored (s : State τ π) (e : Edge) : Prop :=
  s.EdgeOk e ∧ (e.source = .api → s.stored = true)

/-- What a call knows. -/
def State.CallKnows (s : State τ π) : CallPc → Prop
  | .storeCode e => s.EdgeOk e
  | .addGeneration e => s.EdgeStored e
  | .submit e generation | .loadGrace e generation | .wait e generation _ =>
      s.EdgeStored e ∧ generation ≤ s.generation ∧
        (generation ≤ s.acknowledged → s.Served r e.source)
  | .claimPreparing code => s.stored = true ∧ s.opened .api = some (some code)
  | .loadRequested | .loadCode _ => s.opened .prepareFini = some none
  | .idle | .claim _ | .storeNative | .swapPreparing => True

/-- A call of a handler is in order. -/
structure State.EntryOk (s : State τ π) (i : Invocation π) : Prop where
  handler : i.handler ∈ r.handlers i.plugin
  matched : i.handler.selector.matches i.event = true
  event : s.EventOk i.event

/-- The finished calls. -/
structure State.LogOk (s : State τ π) : Prop where
  entries : ∀ i ∈ s.log, s.EntryOk r i ∧ s.stickyDelivered i.plugin i.handler.id = true
  complete : ∀ p, s.running p = true → ∀ h ∈ r.handlers p, s.stickyDelivered p h.id = true →
    ∃ i ∈ s.log, i.plugin = p ∧ i.handler = h
  once : (s.log.map fun i => (i.plugin, i.handler.id)).Nodup

/-- The calls of a dispatch. -/
structure State.DispatchOk (s : State τ π) (d : Dispatch π) : Prop where
  entries : ∀ i ∈ d.calls, s.EntryOk r i ∧ i.plugin = d.name ∧
    i.handler.id ∈ d.deliveredSticky ∧ s.stickyDelivered d.name i.handler.id = false
  complete : d.failed = false → ∀ h ∈ r.handlers d.name, h.id ∈ d.deliveredSticky →
    ∃ i ∈ d.calls, i.handler = h
  once : (d.calls.map fun i => i.handler.id).Nodup

/-- A plugin has been dispatched. -/
def State.Done (s : State τ π) (tick : Tick π) (p : π) : Prop :=
  s.running p = true → ∀ source, ∀ h ∈ r.handlers p, s.Owed source h →
    s.stickyDelivered p h.id = true ∨ tick.missed source = true

/-- A dispatch has delivered for a phase. -/
def State.Passed (s : State τ π) (tick : Tick π) (d : Dispatch π) (source : Source) : Prop :=
  ∀ h ∈ r.handlers d.name, s.Owed source h →
    d.seen s.stickyDelivered h = true ∨ tick.missed source = true

/-- What a dispatch knows. -/
def State.DispatchKnows (s : State τ π) (tick : Tick π) (d : Dispatch π) : DispatchPc → Prop
  | .loadRequested => True
  | .loadExitCode => ∃ o, s.opened .api = some o
  | .loadPreparing => s.Passed r tick d .api
  | .loadPrepareCode => s.Passed r tick d .api ∧ ∃ o, s.opened .prepareFini = some o
  | .loadHadRequest code => s.Passed r tick d .api ∧
      ∃ o, s.opened .prepareFini = some o ∧ ∀ c, o = some c → code = c
  | .loadNative code hadExitRequest => s.Passed r tick d .api ∧
      (∃ o, s.opened .prepareFini = some o ∧ ∀ c, o = some c → code = c) ∧
      (hadExitRequest = true → s.exitRequested = true)
  | .lane | .writeBack => s.Passed r tick d .api ∧ s.Passed r tick d .prepareFini

/-- What the host knows in the second phase of a tick. -/
structure State.InDispatch (s : State τ π) (tick : Tick π) (d : Dispatch π) : Prop where
  events : ∀ record ∈ tick.priorityEvents, s.EventOk record.event
  done : ∀ p ∈ r.names, p ∈ tick.rest ∨ p = d.name ∨ s.Done r tick p
  calls : s.DispatchOk r d
  failed : d.pc ≠ .writeBack → d.failed = false
  knows : d.failed = false → s.DispatchKnows r tick d d.pc

/-- What the host knows. -/
def State.HostKnows (s : State τ π) : HostPc π → Prop
  | .next tick => (∀ record ∈ tick.priorityEvents, s.EventOk record.event) ∧
      ∀ p ∈ r.names, p ∈ tick.rest ∨ s.Done r tick p
  | .dispatch tick d => s.InDispatch r tick d
  | .acknowledge tick => ∀ p ∈ r.names, s.Done r tick p
  | .storeAcknowledged generation => generation ≤ s.generation ∧
      ∀ t, ∀ w ∈ (s.threads t).awaits, w.2 ≤ generation → s.Served r w.1.source
  | .idle | .loadAcknowledged | .loadGeneration _ | .page _ => True

/-- What holds of the statics. -/
structure State.StaticsOk (s : State τ π) : Prop where
  flag : ∀ source, s.flag source = (s.opened source).isSome
  acknowledged : s.acknowledged ≤ s.generation
  stored : s.stored = true → s.exitRequested = true
  code : s.stored = true → ∀ c, s.opened .api = some (some c) → s.exitCode = c
  prepare : ∀ c, s.opened .prepareFini = some (some c) →
    s.stored = true ∧ s.opened .api = some (some c)

/-- What holds in every run without windows. -/
structure State.Inv (s : State τ π) : Prop where
  statics : s.StaticsOk
  unstored : s.exitRequested = true → s.stored = false → ∃ t, (s.threads t).storesExit = true
  lane : ∀ record ∈ s.lane, s.EventOk record.event
  early : ∀ source ∈ s.early, s.Served r source
  log : s.LogOk r
  /-- A fallback is used while no exit is requested. -/
  fallback : ∀ i ∈ s.invocations, i.handler.selector = .processExit →
    i.event.arg1 = .prepareFini → s.running i.plugin = true → s.exitRequested = false
  calls : ∀ t, s.CallKnows r (s.threads t)
  host : s.HostKnows r s.host

/-! ## What stays -/

/-- Flags are set, handlers are called and plugins fail, and nothing of it is undone. -/
structure State.Later (s s' : State τ π) : Prop where
  exitRequested : s.exitRequested = true → s'.exitRequested = true
  opened : ∀ source o, s.opened source = some o → s'.opened source = some o
  stored : s.stored = true → s'.stored = true
  stickyDelivered : ∀ p id, s.stickyDelivered p id = true → s'.stickyDelivered p id = true
  running : ∀ p, s'.running p = true → s.running p = true
  generation : s.generation ≤ s'.generation

variable {r} {s s' : State τ π}

theorem State.Owed.mono (hlater : s.Later s') {source : Source} {h : Handler}
    (ho : s'.Owed source h) : s.Owed source h := by
  cases source with
  | api => exact ho
  | prepareFini =>
      intro hsel
      have hfalse := ho hsel
      cases hreq : s.exitRequested with
      | false => rfl
      | true =>
          rw [hlater.exitRequested hreq] at hfalse
          cases hfalse

theorem State.EventOk.mono (hlater : s.Later s') {event : ExitEvent} (h : s.EventOk event) :
    s'.EventOk event := by
  obtain ⟨o, ho, hcode⟩ := h
  exact ⟨o, hlater.opened _ _ ho, hcode⟩

theorem State.Served.mono (hlater : s.Later s') {source : Source} (h : s.Served r source) :
    s'.Served r source where
  opened := by
    obtain ⟨o, ho⟩ := h.opened
    exact ⟨o, hlater.opened _ _ ho⟩
  called p hp hrun k hk ho :=
    hlater.stickyDelivered _ _ (h.called p hp (hlater.running p hrun) k hk (ho.mono hlater))

theorem State.EdgeOk.mono (hlater : s.Later s') {e : Edge} (h : s.EdgeOk e) : s'.EdgeOk e where
  routine hn := hlater.opened _ _ (h.routine hn)
  native hn := ⟨(h.native hn).1, hlater.opened _ _ (h.native hn).2⟩
  prepare hn hsource :=
    ⟨hlater.stored (h.prepare hn hsource).1, hlater.opened _ _ (h.prepare hn hsource).2⟩

theorem State.EdgeStored.mono (hlater : s.Later s') {e : Edge} (h : s.EdgeStored e) :
    s'.EdgeStored e :=
  ⟨h.1.mono hlater, fun hsource => hlater.stored (h.2 hsource)⟩

/-- A call goes on knowing what it knows when acknowledged generations are served. -/
theorem State.CallKnows.of_served (hlater : s.Later s') {pc : CallPc}
    (hserved : ∀ w ∈ pc.awaits, w.2 ≤ s'.acknowledged →
      w.2 ≤ s.acknowledged ∨ s.Served r w.1.source)
    (h : s.CallKnows r pc) : s'.CallKnows r pc := by
  have hwaits : ∀ {e : Edge} {generation : Nat}, (e, generation) ∈ pc.awaits →
      s.EdgeStored e ∧ generation ≤ s.generation ∧
        (generation ≤ s.acknowledged → s.Served r e.source) →
      s'.EdgeStored e ∧ generation ≤ s'.generation ∧
        (generation ≤ s'.acknowledged → s'.Served r e.source) :=
    fun hw ⟨hedge, hle, hs⟩ => ⟨hedge.mono hlater, hle.trans hlater.generation,
      fun ha => ((hserved _ hw ha).elim hs id).mono hlater⟩
  cases pc with
  | storeCode e => exact State.EdgeOk.mono hlater h
  | addGeneration e => exact State.EdgeStored.mono hlater h
  | submit e generation => exact hwaits rfl h
  | loadGrace e generation => exact hwaits rfl h
  | wait e generation left => exact hwaits rfl h
  | claimPreparing code => exact ⟨hlater.stored h.1, hlater.opened _ _ h.2⟩
  | loadRequested => exact hlater.opened _ _ h
  | loadCode had => exact hlater.opened _ _ h
  | _ => trivial

theorem State.CallKnows.mono (hlater : s.Later s') (hack : s'.acknowledged = s.acknowledged)
    {pc : CallPc} (h : s.CallKnows r pc) : s'.CallKnows r pc :=
  h.of_served hlater fun _ _ hle => .inl (hack ▸ hle)

theorem State.EntryOk.mono (hlater : s.Later s') {i : Invocation π} (h : s.EntryOk r i) :
    s'.EntryOk r i :=
  ⟨h.handler, h.matched, h.event.mono hlater⟩

theorem State.Done.mono (hlater : s.Later s') {tick : Tick π} {p : π} (h : s.Done r tick p) :
    s'.Done r tick p :=
  fun hrun source k hk ho =>
    (h (hlater.running p hrun) source k hk (ho.mono hlater)).imp_left (hlater.stickyDelivered _ _)

/-- What the host knows stays known while no handler is called. -/
theorem State.DispatchOk.congr {d : Dispatch π} (h : s.DispatchOk r d) (hlater : s.Later s')
    (hsticky : s'.stickyDelivered = s.stickyDelivered) : s'.DispatchOk r d where
  entries i hi := by
    obtain ⟨hentry, hname, hmem, hnot⟩ := h.entries i hi
    exact ⟨hentry.mono hlater, hname, hmem, hsticky ▸ hnot⟩
  complete := h.complete
  once := h.once

theorem State.Passed.congr {tick : Tick π} {d : Dispatch π} {source : Source}
    (h : s.Passed r tick d source) (hlater : s.Later s')
    (hsticky : s'.stickyDelivered = s.stickyDelivered) : s'.Passed r tick d source := by
  intro k hk ho
  rw [hsticky]
  exact h k hk (ho.mono hlater)

theorem State.DispatchKnows.congr {tick : Tick π} {d : Dispatch π} {pc : DispatchPc}
    (h : s.DispatchKnows r tick d pc) (hlater : s.Later s')
    (hsticky : s'.stickyDelivered = s.stickyDelivered) : s'.DispatchKnows r tick d pc := by
  have hopened : ∀ {source : Source} {C : Option (BitVec 32) → Prop},
      (∃ o, s.opened source = some o ∧ C o) → ∃ o, s'.opened source = some o ∧ C o :=
    fun ⟨o, ho, hc⟩ => ⟨o, hlater.opened _ _ ho, hc⟩
  cases pc with
  | loadRequested => trivial
  | loadExitCode =>
      obtain ⟨o, ho⟩ := h
      exact ⟨o, hlater.opened _ _ ho⟩
  | loadPreparing => exact State.Passed.congr h hlater hsticky
  | loadPrepareCode =>
      obtain ⟨hpassed, o, ho⟩ := h
      exact ⟨hpassed.congr hlater hsticky, o, hlater.opened _ _ ho⟩
  | loadHadRequest code => exact ⟨h.1.congr hlater hsticky, hopened h.2⟩
  | loadNative code had =>
      exact ⟨h.1.congr hlater hsticky, hopened h.2.1, fun hh => hlater.exitRequested (h.2.2 hh)⟩
  | lane => exact ⟨h.1.congr hlater hsticky, h.2.congr hlater hsticky⟩
  | writeBack => exact ⟨h.1.congr hlater hsticky, h.2.congr hlater hsticky⟩

theorem State.InDispatch.congr {tick : Tick π} {d : Dispatch π} (h : s.InDispatch r tick d)
    (hlater : s.Later s') (hsticky : s'.stickyDelivered = s.stickyDelivered) :
    s'.InDispatch r tick d where
  events record hmem := (h.events record hmem).mono hlater
  done p hp := (h.done p hp).imp_right (Or.imp_right (State.Done.mono hlater))
  calls := h.calls.congr hlater hsticky
  failed := h.failed
  knows hf := (h.knows hf).congr hlater hsticky

theorem State.HostKnows.congr {pc : HostPc π} (h : s.HostKnows r pc) (hlater : s.Later s')
    (hsticky : s'.stickyDelivered = s.stickyDelivered)
    (hawaits : ∀ t, ∀ w ∈ (s'.threads t).awaits, w ∈ (s.threads t).awaits ∨ s.generation < w.2) :
    s'.HostKnows r pc := by
  cases pc with
  | next tick =>
      exact ⟨fun record hmem => (h.1 record hmem).mono hlater,
        fun p hp => (h.2 p hp).imp_right (State.Done.mono hlater)⟩
  | dispatch tick d => exact State.InDispatch.congr h hlater hsticky
  | acknowledge tick => exact fun p hp => (h p hp).mono hlater
  | storeAcknowledged generation =>
      refine ⟨h.1.trans hlater.generation, fun t w hw hle => ?_⟩
      obtain hw | hlt := hawaits t w hw
      · exact (h.2 t w hw hle).mono hlater
      · exact absurd (h.1.trans_lt hlt) (by omega)
  | _ => trivial

theorem State.LogOk.congr (h : s.LogOk r) (hlater : s.Later s')
    (hsticky : s'.stickyDelivered = s.stickyDelivered) (hlog : s'.log = s.log) : s'.LogOk r where
  entries i hi := by
    rw [hlog] at hi
    rw [hsticky]
    exact ⟨(h.entries i hi).1.mono hlater, (h.entries i hi).2⟩
  complete p hrun k hk hseen := by
    rw [hlog]
    exact h.complete p (hlater.running p hrun) k hk (hsticky ▸ hseen)
  once := hlog ▸ h.once

/-! ## Steps of a thread -/

/-- Nothing that anybody knows changes. -/
theorem State.Later.of_eq (hreq : s'.exitRequested = s.exitRequested) (hopened : s'.opened = s.opened)
    (hstored : s'.stored = s.stored) (hsticky : s'.stickyDelivered = s.stickyDelivered)
    (hrunning : s'.running = s.running) (hgeneration : s.generation ≤ s'.generation) :
    s.Later s' where
  exitRequested h := hreq ▸ h
  opened _ _ h := hopened ▸ h
  stored h := hstored ▸ h
  stickyDelivered _ _ h := hsticky ▸ h
  running _ h := hrunning ▸ h
  generation := hgeneration

/-- A phase opens. -/
theorem State.Later.of_open {p : Source} {o : Option (BitVec 32)} (h : s.StaticsOk)
    (hflag : s.flag p = false) (hreq : s.exitRequested = true → s'.exitRequested = true)
    (hopened : s'.opened = Function.update s.opened p (some o))
    (hstored : s'.stored = s.stored) (hsticky : s'.stickyDelivered = s.stickyDelivered)
    (hrunning : s'.running = s.running) (hgeneration : s'.generation = s.generation) :
    s.Later s' where
  exitRequested := hreq
  opened source' o' ho := by
    rw [hopened, Function.update_of_ne, ho]
    rintro rfl
    rw [h.flag, ho] at hflag
    cases hflag
  stored hs := hstored ▸ hs
  stickyDelivered _ _ hs := hsticky ▸ hs
  running _ hs := hrunning ▸ hs
  generation := hgeneration.ge

theorem State.EdgeOk.event {e : Edge} (h : s.EdgeOk e) : s.EventOk e.event := by
  cases hn : e.nativePrepareReached with
  | false =>
      refine ⟨some e.code, h.routine hn, fun c hc => ?_⟩
      cases hc
      rfl
  | true =>
      obtain ⟨hsource, hopened⟩ := h.native hn
      refine ⟨none, ?_, fun c hc => by cases hc⟩
      show s.opened e.source = some none
      rw [hsource, hopened]

/-- The first edge was opened by an exit routine. -/
theorem State.EdgeOk.api {e : Edge} (h : s.EdgeOk e) (hsource : e.source = .api) :
    s.opened .api = some (some e.code) := by
  cases hn : e.nativePrepareReached with
  | false => exact hsource ▸ h.routine hn
  | true =>
      rw [(h.native hn).1] at hsource
      cases hsource

theorem State.EdgeStored.finish {e : Edge} (h : s.EdgeStored e) : s.CallKnows r e.finish := by
  rw [Edge.finish]
  split
  next hsource => exact ⟨h.2 hsource, h.1.api hsource⟩
  next => trivial

theorem Edge.finish_awaits (e : Edge) : e.finish.awaits = none := by
  rw [Edge.finish]
  split <;> rfl

section

variable [DecidableEq τ] {t : τ}

/-- A thread moves and the host is where it was. -/
theorem State.Inv.move (h : s.Inv r) {p : CallPc}
    (hthreads : s'.threads = Function.update s.threads t p) (hhost : s'.host = s.host)
    (hlog : s'.log = s.log) (hack : s'.acknowledged = s.acknowledged)
    (hsticky : s'.stickyDelivered = s.stickyDelivered) (hrunning : s'.running = s.running)
    (hlater : s.Later s') (hstatics : s'.StaticsOk)
    (hunstored : s'.exitRequested = true → s'.stored = false → p.storesExit = true ∨
      s.exitRequested = true ∧ s.stored = false ∧ (s.threads t).storesExit = false)
    (hlane : ∀ record ∈ s'.lane, record ∈ s.lane ∨ s'.EventOk record.event)
    (hearly : ∀ source ∈ s'.early, source ∈ s.early ∨ s'.Served r source)
    (hfallback : s'.exitRequested = true → s.exitRequested = false → ∀ i ∈ s.invocations,
      i.handler.selector = .processExit → s.running i.plugin = false)
    (hself : s'.CallKnows r p)
    (hawaits : ∀ w ∈ p.awaits, w ∈ (s.threads t).awaits ∨ s.generation < w.2) : s'.Inv r := by
  have hthread : ∀ u, s'.threads u = if u = t then p else s.threads u := fun u => by
    rw [hthreads]
    exact Function.update_apply ..
  exact {
    statics := hstatics
    unstored hreq hst := by
      obtain hp | ⟨hreq', hst', ht⟩ := hunstored hreq hst
      · exact ⟨t, by rw [hthread, if_pos rfl, hp]⟩
      · obtain ⟨u, hu⟩ := h.unstored hreq' hst'
        refine ⟨u, ?_⟩
        rw [hthread, if_neg fun hut => ?_, hu]
        rw [hut, ht] at hu
        cases hu
    lane record hmem := (hlane record hmem).elim (fun hm => (h.lane record hm).mono hlater) id
    early source hmem := (hearly source hmem).elim (fun hm => (h.early source hm).mono hlater) id
    log := h.log.congr hlater hsticky hlog
    fallback i hi hsel hsource hrun := by
      rw [State.invocations, hlog, hhost] at hi
      rw [hrunning] at hrun
      have hfalse := h.fallback i hi hsel hsource hrun
      cases hreq : s'.exitRequested with
      | false => rfl
      | true =>
          rw [hfallback hreq hfalse i hi hsel] at hrun
          cases hrun
    calls u := by
      rw [hthread]
      split
      · exact hself
      · exact (h.calls u).mono hlater hack
    host := by
      rw [hhost]
      refine h.host.congr hlater hsticky fun u w hw => ?_
      rw [hthread] at hw
      split at hw
      next hut => exact hut ▸ hawaits w hw
      next => exact .inl hw }

/-- A thread moves and leaves the flags and the code. -/
theorem State.Inv.moveOnly (h : s.Inv r) {p : CallPc}
    (hthreads : s'.threads = Function.update s.threads t p) (hhost : s'.host = s.host)
    (hlog : s'.log = s.log) (hack : s'.acknowledged = s.acknowledged)
    (hsticky : s'.stickyDelivered = s.stickyDelivered) (hrunning : s'.running = s.running)
    (hreq : s'.exitRequested = s.exitRequested) (hprep : s'.preparing = s.preparing)
    (hopened : s'.opened = s.opened) (hstored : s'.stored = s.stored)
    (hcode : s'.exitCode = s.exitCode) (hgeneration : s.generation ≤ s'.generation)
    (hlane : ∀ record ∈ s'.lane, record ∈ s.lane ∨ s.EventOk record.event)
    (hearly : ∀ source ∈ s'.early, source ∈ s.early ∨ s.Served r source)
    (ht : (s.threads t).storesExit = false) (hself : s.Later s' → s'.CallKnows r p)
    (hawaits : ∀ w ∈ p.awaits, w ∈ (s.threads t).awaits ∨ s.generation < w.2) : s'.Inv r := by
  have hlater : s.Later s' := .of_eq hreq hopened hstored hsticky hrunning hgeneration
  refine h.move hthreads hhost hlog hack hsticky hrunning hlater ?_
    (fun hr hs => .inr ⟨hreq ▸ hr, hstored ▸ hs, ht⟩)
    (fun record hm => (hlane record hm).imp_right (State.EventOk.mono hlater))
    (fun source hm => (hearly source hm).imp_right (State.Served.mono hlater))
    (fun hr hf => ?_) (hself hlater) hawaits
  · exact {
      flag source := by
        rw [hopened, ← h.statics.flag source]
        cases source with
        | api => exact hreq
        | prepareFini => exact hprep
      acknowledged := by
        rw [hack]
        exact h.statics.acknowledged.trans hgeneration
      stored hst := by
        rw [hreq]
        exact h.statics.stored (hstored ▸ hst)
      code hst c hc := by
        rw [hcode]
        exact h.statics.code (hstored ▸ hst) c (hopened ▸ hc)
      prepare c hc := by
        rw [hstored, hopened]
        exact h.statics.prepare c (hopened ▸ hc) }
  · rw [hreq, hf] at hr
    cases hr

theorem State.Inv.storeCode (h : s.Inv r) {e : Edge} (hpc : s.threads t = .storeCode e)
    (horderly : s.CallOrderly (s.threads t)) :
    State.Inv r { s.goto t (.addGeneration e) with
      exitCode := e.code, stored := s.stored || decide (e.source = .api) } := by
  have hknows : s.EdgeOk e := by
    have hk := h.calls t
    rwa [hpc] at hk
  have hguard : e.nativePrepareReached = true → e.code = s.exitCode := by rwa [hpc] at horderly
  have hlater : s.Later { s.goto t (.addGeneration e) with
      exitCode := e.code, stored := s.stored || decide (e.source = .api) } :=
    ⟨id, fun _ _ ho => ho, fun hs => by simp [hs], fun _ _ hs => hs, fun _ hs => hs, le_rfl⟩
  refine h.move (p := .addGeneration e) rfl rfl rfl rfl rfl rfl hlater ?_ (fun hreq hst => ?_)
    (fun _ hm => .inl hm) (fun _ hm => .inl hm)
    (fun hreq hf => ?_) ⟨hknows.mono hlater, fun hsource => by simp [hsource]⟩
    (fun w hw => by cases hw)
  · exact {
      flag := h.statics.flag
      acknowledged := h.statics.acknowledged
      stored hst := by
        obtain hst | hsource : s.stored = true ∨ e.source = .api := by simpa using hst
        · exact h.statics.stored hst
        · have hflag := h.statics.flag .api
          rw [hknows.api hsource] at hflag
          exact hflag
      code hst c hc := by
        have hc : s.opened .api = some (some c) := hc
        show e.code = c
        cases hn : e.nativePrepareReached with
        | true =>
            have hsource := (hknows.native hn).1
            have hst : s.stored = true := by simpa [hsource] using hst
            rw [hguard hn]
            exact h.statics.code hst c hc
        | false =>
            have hopened : s.opened .api = some (some e.code) := by
              cases hsource : e.source with
              | api => exact hknows.api hsource
              | prepareFini => exact (hknows.prepare hn hsource).2
            rw [hopened] at hc
            exact Option.some.inj (Option.some.inj hc)
      prepare c hc := by
        have hp := h.statics.prepare c hc
        exact ⟨by simp [hp.1], hp.2⟩ }
  · obtain ⟨hst, hsource⟩ : s.stored = false ∧ e.source ≠ .api := by simpa using hst
    refine .inr ⟨hreq, hst, ?_⟩
    rw [hpc]
    simpa [CallPc.storesExit] using hsource
  · have hreq : s.exitRequested = true := hreq
    rw [hf] at hreq
    cases hreq

/-- An exit routine opens the first phase. -/
theorem State.Inv.claim (h : s.Inv r) {code : BitVec 32} (hpc : s.threads t = .claim code)
    (hreq : s.exitRequested = false) (horderly : s.CallOrderly (s.threads t)) :
    State.Inv r { s.goto t (.storeCode ⟨code, .api, false, false⟩) with
      exitRequested := true, opened := Function.update s.opened .api (some (some code)) } := by
  have hst : s.stored = false := by
    by_contra hst
    rw [h.statics.stored (by simpa using hst)] at hreq
    cases hreq
  have hprep : ∀ c, s.opened .prepareFini ≠ some (some c) := fun c hc => by
    rw [(h.statics.prepare c hc).1] at hst
    cases hst
  rw [hpc] at horderly
  refine h.move (p := .storeCode ⟨code, .api, false, false⟩) rfl rfl rfl rfl rfl rfl
    (State.Later.of_open (p := .api) h.statics hreq (fun _ => rfl) rfl rfl rfl rfl rfl) ?_
    (fun _ _ => .inl rfl)
    (fun _ hm => .inl hm) (fun _ hm => .inl hm) (fun _ hf => horderly hf) ?_
    (fun w hw => by cases hw)
  · exact {
      flag source := by
        cases source with
        | api => rfl
        | prepareFini => exact h.statics.flag .prepareFini
      acknowledged := h.statics.acknowledged
      stored _ := rfl
      code hs := by
        have hs : s.stored = true := hs
        rw [hst] at hs
        cases hs
      prepare c hc := absurd hc (hprep c) }
  · exact ⟨fun _ => rfl, nofun, nofun⟩

/-- A phase of `process.prepare_fini` opens. -/
theorem State.Inv.prepare (h : s.Inv r) {p : CallPc} {o : Option (BitVec 32)}
    (hpc : (s.threads t).storesExit = false) (hprep : s.preparing = false)
    (ho : ∀ c, o = some c → s.stored = true ∧ s.opened .api = some (some c))
    (hself : s.Later { s.goto t p with
        preparing := true, opened := Function.update s.opened .prepareFini (some o) } →
      State.CallKnows r { s.goto t p with
        preparing := true, opened := Function.update s.opened .prepareFini (some o) } p)
    (hawaits : p.awaits = none) :
    State.Inv r { s.goto t p with
      preparing := true, opened := Function.update s.opened .prepareFini (some o) } := by
  have hlater : s.Later { s.goto t p with
      preparing := true, opened := Function.update s.opened .prepareFini (some o) } :=
    State.Later.of_open (p := .prepareFini) h.statics hprep (fun hr => hr) rfl rfl rfl rfl rfl
  refine h.move (p := p) rfl rfl rfl rfl rfl rfl hlater ?_ (fun hr hs => .inr ⟨hr, hs, hpc⟩)
    (fun _ hm => .inl hm) (fun _ hm => .inl hm) (fun hr hf => ?_) (hself hlater)
    (fun w hw => by rw [hawaits] at hw; cases hw)
  · exact {
      flag source := by
        cases source with
        | api => exact h.statics.flag .api
        | prepareFini => rfl
      acknowledged := h.statics.acknowledged
      stored := h.statics.stored
      code hs c hc := h.statics.code hs c hc
      prepare c hc := ho c (Option.some.inj hc) }
  · have hr : s.exitRequested = true := hr
    rw [hf] at hr
    cases hr

/-- A step of a thread. -/
theorem State.Inv.callStep (h : s.Inv r) {a : CallAnswer}
    (horderly : s.CallOrderly (s.threads t)) (hs' : s.callStep t a (s.threads t) = some s') :
    s'.Inv r := by
  have hknows := h.calls t
  have hidle : ∀ {p : CallPc}, (s.threads t).storesExit = false →
      (s.Later (s.goto t p) → State.CallKnows r (s.goto t p) p) → p.awaits = none →
      State.Inv r (s.goto t p) := fun ht hself hawaits =>
    h.moveOnly rfl rfl rfl rfl rfl rfl rfl rfl rfl rfl rfl le_rfl (fun _ hm => .inl hm)
      (fun _ hm => .inl hm) ht hself (fun w hw => by rw [hawaits] at hw; cases hw)
  cases hpc : s.threads t with
  | idle =>
      rw [hpc] at hs'
      cases hs'
  | claim code =>
      rw [hpc, State.callStep] at hs'
      split at hs' <;> cases hs'
      next => exact hidle (by rw [hpc]; rfl) (fun _ => trivial) rfl
      next hreq => exact h.claim hpc (by simpa using hreq) horderly
  | storeCode e =>
      rw [hpc] at hs'
      cases hs'
      exact h.storeCode hpc horderly
  | addGeneration e =>
      rw [hpc] at hs' hknows
      cases hs'
      refine h.moveOnly (p := .submit e (s.generation + 1)) rfl rfl rfl rfl rfl rfl rfl rfl rfl rfl
        rfl (Nat.le_succ _) (fun _ hm => .inl hm) (fun _ hm => .inl hm) (by rw [hpc]; rfl)
        (fun hlater => ⟨State.EdgeStored.mono hlater hknows, le_rfl, fun hle => ?_⟩) (fun w hw => ?_)
      · exact absurd (hle.trans h.statics.acknowledged) (Nat.not_succ_le_self _)
      · cases hw
        exact .inr (Nat.lt_succ_self _)
  | submit e generation =>
      rw [hpc] at hknows
      have hawaits : ∀ w ∈ (CallPc.loadGrace e generation).awaits,
          w ∈ (s.threads t).awaits ∨ s.generation < w.2 := fun w hw => .inl (by rw [hpc]; exact hw)
      rw [hpc, State.callStep] at hs'
      split at hs' <;> cases hs'
      next =>
        exact h.moveOnly rfl rfl rfl rfl rfl rfl rfl rfl rfl rfl rfl le_rfl (fun _ hm => .inl hm)
          (fun _ hm => .inl hm) (by rw [hpc]; rfl) (fun hlater => hknows.mono hlater rfl)
          hawaits
      next sequence hsequence =>
        refine h.moveOnly rfl rfl rfl rfl rfl rfl rfl rfl rfl rfl rfl le_rfl (fun record hm => ?_)
          (fun _ hm => .inl hm) (by rw [hpc]; rfl) (fun hlater => hknows.mono hlater rfl)
          hawaits
        refine (List.mem_append.mp hm).imp_right fun hm => ?_
        rw [List.mem_singleton.mp hm]
        exact hknows.1.1.event
  | loadGrace e generation =>
      rw [hpc] at hknows
      rw [hpc, State.callStep] at hs'
      split at hs' <;> cases hs'
      next =>
        exact h.moveOnly rfl rfl rfl rfl rfl rfl rfl rfl rfl rfl rfl le_rfl (fun _ hm => .inl hm)
          (fun _ hm => .inl hm) (by rw [hpc]; rfl) (fun hlater => hknows.mono hlater rfl)
          (fun w hw => .inl (by rw [hpc]; exact hw))
      next =>
        exact hidle (by rw [hpc]; rfl)
          (fun hlater => (hknows.1.mono hlater).finish) e.finish_awaits
  | wait e generation left =>
      rw [hpc] at hknows
      have hfinish : ∀ {l : List Source}, (∀ source ∈ l, source ∈ s.early ∨ s.Served r source) →
          State.Inv r { s.goto t e.finish with early := l } := fun hl =>
        h.moveOnly rfl rfl rfl rfl rfl rfl rfl rfl rfl rfl rfl le_rfl (fun _ hm => .inl hm)
          hl (by rw [hpc]; rfl) (fun hlater => (hknows.1.mono hlater).finish)
          (fun w hw => by rw [e.finish_awaits] at hw; cases hw)
      cases left with
      | zero =>
          rw [hpc] at hs'
          cases hs'
          exact hfinish fun _ hm => .inl hm
      | succ left =>
          rw [hpc, State.callStep] at hs'
          split at hs' <;> cases hs'
          next hle =>
            refine hfinish fun source hm => ?_
            obtain rfl | hm := List.mem_cons.mp hm
            · exact .inr (hknows.2.2 hle)
            · exact .inl hm
          next =>
            exact h.moveOnly rfl rfl rfl rfl rfl rfl rfl rfl rfl rfl rfl le_rfl
              (fun _ hm => .inl hm) (fun _ hm => .inl hm) (by rw [hpc]; rfl)
              (fun hlater => hknows.mono hlater rfl)
              (fun w hw => .inl (by rw [hpc]; exact hw))
  | claimPreparing code =>
      rw [hpc] at hknows
      rw [hpc, State.callStep] at hs'
      split at hs' <;> cases hs'
      next => exact hidle (by rw [hpc]; rfl) (fun _ => trivial) rfl
      next hprep =>
        refine h.prepare (p := .storeCode ⟨code, .prepareFini, true, false⟩) (by rw [hpc]; rfl)
          (by simpa using hprep) (fun c hc => ?_) (fun hlater => ?_) rfl
        · cases hc
          exact hknows
        · exact ⟨fun _ => rfl, nofun, fun _ _ => ⟨hknows.1, hlater.opened _ _ hknows.2⟩⟩
  | storeNative =>
      rw [hpc] at hs'
      cases hs'
      exact h.moveOnly rfl rfl rfl rfl rfl rfl rfl rfl rfl rfl rfl le_rfl (fun _ hm => .inl hm)
        (fun _ hm => .inl hm) (by rw [hpc]; rfl) (fun _ => trivial) (fun w hw => by cases hw)
  | swapPreparing =>
      rw [hpc, State.callStep] at hs'
      split at hs' <;> cases hs'
      next => exact hidle (by rw [hpc]; rfl) (fun _ => trivial) rfl
      next hprep =>
        exact h.prepare (p := .loadRequested) (by rw [hpc]; rfl) (by simpa using hprep)
          (fun c hc => by cases hc) (fun _ => rfl) rfl
  | loadRequested =>
      rw [hpc] at hs' hknows
      cases hs'
      exact hidle (by rw [hpc]; rfl) (fun _ => hknows) rfl
  | loadCode had =>
      rw [hpc] at hs' hknows
      cases hs'
      exact hidle (by rw [hpc]; rfl) (fun _ => ⟨nofun, fun _ => ⟨rfl, hknows⟩, nofun⟩) rfl

end

/-! ## Routing -/

section

variable {sticky : π → Nat → Bool} {outcome : Nat → Outcome} {event : ExitEvent} {edge : Option Nat}

/-- A property kept by every call of a handler is kept by the routing of a record. -/
theorem routeNamedHandlers_induct {K : Dispatch π → Prop} {hs : List Handler} {d : Dispatch π}
    (hinvoke : ∀ h ∈ hs, ∀ d, K d → d.failed = false → h.selector.matches event = true →
      d.seen sticky h = false → K (d.invoke event h (outcome h.id)))
    (hK : K d) (hf : d.failed = false) :
    K (routeNamedHandlers sticky outcome event edge hs d) := by
  refine Handlers.routeHandlers_induct (Q := fun d => d.failed = false) (fun _ hf => hf) ?_ hK hf
  intro h hh d h' hK hf ha
  obtain ⟨hcall, ha⟩ := Option.ite_none_left_eq_some.mp ha
  cases ha
  simp only [not_or, Bool.not_eq_false, Bool.not_eq_true] at hcall
  exact hinvoke h hh d hK hf hcall.2.1 hcall.2.2

theorem Dispatch.seen_invoke {d : Dispatch π} {h k : Handler} {o : Outcome} :
    (d.invoke event h o).seen sticky k = (d.seen sticky k || k.id == h.id) := by
  simp [Dispatch.seen, Dispatch.invoke, Bool.or_assoc, Bool.beq_eq_decide_eq]

/-- Routing keeps what has been called. -/
theorem seen_routeNamedHandlers {hs : List Handler} {d : Dispatch π} {k : Handler}
    (hf : d.failed = false) (hseen : d.seen sticky k = true) :
    (routeNamedHandlers sticky outcome event edge hs d).seen sticky k = true := by
  refine routeNamedHandlers_induct (K := fun d => d.seen sticky k = true)
    (fun h _ d hK _ _ _ => ?_) hseen hf
  rw [Dispatch.seen_invoke, hK, Bool.true_or]

/-- A synthetic record reaches every handler it is for. -/
theorem routeNamedHandlers_seen : ∀ {hs : List Handler} {d : Dispatch π}, d.failed = false →
    (routeNamedHandlers sticky outcome event none hs d).failed = false →
    ∀ h ∈ hs, h.selector.matches event = true →
      (routeNamedHandlers sticky outcome event none hs d).seen sticky h = true
  | k :: hs, d, hf, hf', h, hmem, hmatch => by
      rw [routeNamedHandlers_cons] at hf' ⊢
      split at hf'
      next hskip =>
        rw [if_pos hskip]
        obtain rfl | hmem := List.mem_cons.mp hmem
        · refine seen_routeNamedHandlers hf ?_
          simpa [hmatch] using hskip
        · exact routeNamedHandlers_seen hf hf' h hmem hmatch
      next hcall =>
        rw [if_neg hcall]
        have hd : (d.invoke event k (outcome k.id)).failed = false := by
          by_contra hd
          rw [if_pos (by simpa using hd)] at hf'
          exact hd hf'
        simp only [hd, Bool.false_eq_true, if_false] at hf' ⊢
        obtain rfl | hmem := List.mem_cons.mp hmem
        · refine seen_routeNamedHandlers hd ?_
          rw [Dispatch.seen_invoke]
          simp
        · exact routeNamedHandlers_seen hd hf' h hmem hmatch

end

/-- The dispatch goes on: it has called more handlers of its plugin. -/
structure Dispatch.Extends (sticky : π → Nat → Bool) (d d' : Dispatch π) : Prop where
  name : d'.name = d.name
  pc : d'.pc = d.pc
  seen : ∀ h, d.seen sticky h = true → d'.seen sticky h = true

theorem Dispatch.Extends.unseen {sticky : π → Nat → Bool} {d d' : Dispatch π}
    (hext : d.Extends sticky d') {h : Handler} (hseen : d'.seen sticky h = false) :
    d.seen sticky h = false := by
  cases hs : d.seen sticky h with
  | false => rfl
  | true =>
      rw [hext.seen h hs] at hseen
      cases hseen

theorem State.owes_eq_true {d : Dispatch π} {o : Source} {h : Handler}
    (hmem : h ∈ r.handlers d.name) (ho : s.Owed o h)
    (hseen : d.seen s.stickyDelivered h = false) : s.owes r d o = true := by
  rw [State.owes, List.any_eq_true]
  exact ⟨h, hmem, by simp [ho, hseen]⟩

theorem State.Passed.extends {tick : Tick π} {d d' : Dispatch π} {source : Source}
    (h : s.Passed r tick d source) (hext : d.Extends s.stickyDelivered d') :
    s.Passed r tick d' source := by
  intro k hk ho
  rw [hext.name] at hk
  exact (h k hk ho).imp_left (hext.seen k)

/-- What a handler of the dispatch may be called with. -/
structure State.MayCall (s : State τ π) (event : ExitEvent) (h : Handler) : Prop where
  known : s.EventOk event
  fallback : h.selector = .processExit → event.arg1 = .prepareFini → s.exitRequested = false

/-- The calls of a dispatch are in order, the fallback included. -/
structure State.CallsOk (r : Registry π) (s : State τ π) (d : Dispatch π) : Prop where
  ok : s.DispatchOk r d
  fallback : ∀ i ∈ d.calls, i.handler.selector = .processExit →
    i.event.arg1 = .prepareFini → s.running i.plugin = true → s.exitRequested = false

theorem State.CallsOk.invoke {d : Dispatch π} {event : ExitEvent} {h : Handler} {o : Outcome}
    (hd : s.CallsOk r d) (hmem : h ∈ r.handlers d.name) (hmatch : h.selector.matches event = true)
    (hseen : d.seen s.stickyDelivered h = false) (hmay : s.MayCall event h)
    (hf : d.failed = false) : s.CallsOk r (d.invoke event h o) := by
  obtain ⟨hsticky, hnew⟩ : s.stickyDelivered d.name h.id = false ∧ h.id ∉ d.deliveredSticky := by
    simpa [Dispatch.seen] using hseen
  have hcalls : ∀ i ∈ (d.invoke event h o).calls, i ∈ d.calls ∨ i = ⟨d.name, h, event⟩ := by
    intro i hi
    rw [Dispatch.invoke] at hi
    simp only at hi
    split at hi
    · exact .inl hi
    · simpa using hi
  refine ⟨⟨fun i hi => ?_, fun hf' k hk hkmem => ?_, ?_⟩, fun i hi hsel hsource hrun => ?_⟩
  · obtain hi | rfl := hcalls i hi
    · obtain ⟨hentry, hname, hid, hnot⟩ := hd.ok.entries i hi
      exact ⟨hentry, hname, List.mem_append_left _ hid, hnot⟩
    · exact ⟨⟨hmem, hmatch, hmay.known⟩, rfl, List.mem_append_right _ (List.mem_singleton_self _),
        hsticky⟩
  · have ho : o = .returned := by
      simpa [Dispatch.invoke, hf] using hf'
    have hcalls' : (d.invoke event h o).calls = d.calls ++ [⟨d.name, h, event⟩] := by
      rw [ho]
      rfl
    rw [hcalls']
    obtain hkmem | hkid := List.mem_append.mp hkmem
    · obtain ⟨i, hi, hik⟩ := hd.ok.complete hf k hk hkmem
      exact ⟨i, List.mem_append_left _ hi, hik⟩
    · refine ⟨⟨d.name, h, event⟩, List.mem_append_right _ (List.mem_singleton_self _), ?_⟩
      exact List.inj_on_of_nodup_map (r.distinct d.name) hmem hk (List.mem_singleton.mp hkid).symm
  · rw [Dispatch.invoke]
    simp only
    split
    · exact hd.ok.once
    · rw [List.map_append, List.nodup_append]
      refine ⟨hd.ok.once, List.nodup_singleton _, fun a ha b hb => ?_⟩
      obtain ⟨i, hi, rfl⟩ := List.mem_map.mp ha
      rintro rfl
      have hid := (hd.ok.entries i hi).2.2.1
      rw [List.mem_singleton.mp hb] at hid
      exact hnew hid
  · obtain hi | rfl := hcalls i hi
    · exact hd.fallback i hi hsel hsource hrun
    · exact hmay.fallback hsel hsource

/-- Routing a record keeps the calls in order. -/
theorem State.CallsOk.route {d : Dispatch π} {event : ExitEvent} {o : Nat → Outcome}
    {e : Option Nat} (hd : s.CallsOk r d)
    (hmay : ∀ h ∈ r.handlers d.name, h.selector.matches event = true →
      d.seen s.stickyDelivered h = false → s.MayCall event h) (hf : d.failed = false) :
    s.CallsOk r (routeNamedHandlers s.stickyDelivered o event e (r.handlers d.name) d) ∧
      d.Extends s.stickyDelivered
        (routeNamedHandlers s.stickyDelivered o event e (r.handlers d.name) d) := by
  refine routeNamedHandlers_induct
    (K := fun d' => s.CallsOk r d' ∧ d.Extends s.stickyDelivered d')
    (fun h hmem d' hK hf' hmatch hseen => ?_) ⟨hd, ⟨rfl, rfl, fun _ hs => hs⟩⟩ hf
  obtain ⟨hd', hext⟩ := hK
  refine ⟨hd'.invoke (hext.name.symm ▸ hmem) hmatch hseen
    (hmay h hmem hmatch (hext.unseen hseen)) hf', hext.name, hext.pc, fun k hk => ?_⟩
  rw [Dispatch.seen_invoke, hext.seen k hk, Bool.true_or]

/-- Routing the lane keeps the calls in order. -/
theorem State.CallsOk.routeLane {o : Nat → Outcome} :
    ∀ {l : List LaneRecord} {d : Dispatch π}, s.CallsOk r d →
      (∀ record ∈ l, ∀ h ∈ r.handlers d.name, h.selector.matches record.event = true →
        d.seen s.stickyDelivered h = false → s.MayCall record.event h) → d.failed = false →
      s.CallsOk r (routeLane s.stickyDelivered o (r.handlers d.name) l d) ∧
        d.Extends s.stickyDelivered
          (Exit.routeLane s.stickyDelivered o (r.handlers d.name) l d)
  | [], d, hd, _, _ => ⟨hd, rfl, rfl, fun _ hs => hs⟩
  | record :: rs, d, hd, hmay, hf => by
      have hrest := fun record' hm => hmay record' (List.mem_cons_of_mem record hm)
      rw [Exit.routeLane]
      split
      next => exact State.CallsOk.routeLane hd hrest hf
      next =>
        have hmoved : s.CallsOk r { d with priorityCursor := record.sequence } :=
          ⟨⟨hd.ok.entries, hd.ok.complete, hd.ok.once⟩, hd.fallback⟩
        obtain ⟨hd', hext⟩ := hmoved.route (o := o) (e := some record.sequence)
          (hmay record List.mem_cons_self) hf
        have hext : d.Extends s.stickyDelivered _ := ⟨hext.name, hext.pc, hext.seen⟩
        simp only
        split
        next => exact ⟨hd', hext⟩
        next hf' =>
          obtain ⟨hd'', hext'⟩ := State.CallsOk.routeLane (o := o) (l := rs) hd'
            (fun record' hm h hmem hmatch hseen =>
              hrest record' hm h (hext.name ▸ hmem) hmatch (hext.unseen hseen))
            (by simpa using hf')
          rw [hext.name] at hd'' hext'
          exact ⟨hd'', hext'.name.trans hext.name, hext'.pc.trans hext.pc,
            fun k hk => hext'.seen k (hext.seen k hk)⟩

/-! ## Steps of the host -/

theorem State.CallsOk.congr {d d' : Dispatch π} (h : s.CallsOk r d) (hname : d'.name = d.name)
    (hdelivered : d'.deliveredSticky = d.deliveredSticky) (hcalls : d'.calls = d.calls)
    (hfailed : d'.failed = false → d.failed = false) : s.CallsOk r d' where
  ok := {
    entries i hi := by
      rw [hcalls] at hi
      rw [hname, hdelivered]
      exact h.ok.entries i hi
    complete hf k hk hmem := by
      rw [hcalls]
      exact h.ok.complete (hfailed hf) k (hname ▸ hk) (hdelivered ▸ hmem)
    once := by
      rw [hcalls]
      exact h.ok.once }
  fallback i hi := h.fallback i (hcalls ▸ hi)

/-- The host moves. -/
theorem State.Inv.hostGoto (h : s.Inv r) {pc : HostPc π} (hknows : s.HostKnows r pc)
    (hfallback : ∀ i ∈ pc.calls, i.handler.selector = .processExit →
      i.event.arg1 = .prepareFini → s.running i.plugin = true → s.exitRequested = false) :
    State.Inv r { s with host := pc } := by
  have hlater : s.Later { s with host := pc } := .of_eq rfl rfl rfl rfl rfl le_rfl
  exact {
    statics := ⟨h.statics.flag, h.statics.acknowledged, h.statics.stored, h.statics.code,
      h.statics.prepare⟩
    unstored := h.unstored
    lane := h.lane
    early source hmem := (h.early source hmem).mono hlater
    log := h.log.congr hlater rfl rfl
    fallback i hi := by
      obtain hi | hi := List.mem_append.mp hi
      · exact h.fallback i (List.mem_append_left _ hi)
      · exact hfallback i hi
    calls t := (h.calls t).mono hlater rfl
    host := hknows.congr hlater rfl fun _ _ hw => .inl hw }

/-- The host moves within a dispatch. -/
theorem State.Inv.dispatched (h : s.Inv r) {tick : Tick π} {d : Dispatch π}
    (hcalls : s.CallsOk r d) (hevents : ∀ record ∈ tick.priorityEvents, s.EventOk record.event)
    (hdone : ∀ p ∈ r.names, p ∈ tick.rest ∨ p = d.name ∨ s.Done r tick p)
    (hfailed : d.pc ≠ .writeBack → d.failed = false)
    (hknows : d.failed = false → s.DispatchKnows r tick d d.pc) :
    State.Inv r { s with host := .dispatch tick d } :=
  h.hostGoto ⟨hevents, hdone, hcalls.ok, hfailed, hknows⟩ hcalls.fallback

/-- A plugin that is missed is remembered. -/
theorem State.Passed.of_miss {tick : Tick π} {d : Dispatch π} {source : Source} :
    s.Passed r (s.miss r tick d source) d source := by
  intro k hk ho
  cases hseen : d.seen s.stickyDelivered k with
  | true => exact .inl rfl
  | false =>
      right
      show Function.update tick.missed source _ source = true
      rw [Function.update_self, State.owes_eq_true hk ho hseen, Bool.or_true]

theorem State.missed_miss {tick : Tick π} {d : Dispatch π} {p q : Source}
    (h : tick.missed q = true) : (s.miss r tick d p).missed q = true := by
  rw [State.miss]
  show Function.update tick.missed p _ q = true
  rcases eq_or_ne q p with rfl | hq
  · rw [Function.update_self, h, Bool.true_or]
  · rw [Function.update_of_ne hq, h]

theorem State.Done.miss {tick : Tick π} {d : Dispatch π} {source : Source} {p : π}
    (h : s.Done r tick p) : s.Done r (s.miss r tick d source) p :=
  fun hrun q k hk ho => (h hrun q k hk ho).imp_right State.missed_miss

theorem State.Passed.miss {tick : Tick π} {d : Dispatch π} {p q : Source}
    (h : s.Passed r tick d q) : s.Passed r (s.miss r tick d p) d q :=
  fun k hk ho => (h k hk ho).imp_right State.missed_miss

/-- A record that has been routed leaves nothing to call for its phase. -/
theorem State.CallsOk.routed (h : s.Inv r) {tick : Tick π} {d : Dispatch π} {event : ExitEvent}
    {o : Nat → Outcome} {pc : DispatchPc} (hd : s.InDispatch r tick d) (hcalls : s.CallsOk r d)
    (hf : d.failed = false)
    (hmay : ∀ k ∈ r.handlers d.name, k.selector.matches event = true →
      d.seen s.stickyDelivered k = false → s.MayCall event k)
    (hknows : ∀ d' : Dispatch π, d.Extends s.stickyDelivered d' →
      (∀ k ∈ r.handlers d.name, k.selector.matches event = true →
        d'.seen s.stickyDelivered k = true) → s.DispatchKnows r tick d' pc) :
    State.Inv r { s with
      host := .dispatch tick ((routeNamedHandlers s.stickyDelivered o event none
        (r.handlers d.name) d).continue pc) } := by
  obtain ⟨hd', hext⟩ := hcalls.route (o := o) (e := none) hmay hf
  refine h.dispatched (hd'.congr rfl rfl rfl id) hd.events (fun p hp => ?_) (fun hpc => ?_)
    (fun hf' => ?_)
  · rw [Dispatch.continue, hext.name]
    exact hd.done p hp
  · rw [Dispatch.continue] at hpc ⊢
    by_contra hf'
    exact hpc (if_pos (by simpa using hf'))
  · rw [Dispatch.continue] at hf' ⊢
    have hf' : (routeNamedHandlers s.stickyDelivered o event none (r.handlers d.name) d).failed =
        false := hf'
    have hk := hknows _ hext fun k hk hmatch =>
      routeNamedHandlers_seen hf hf' k hk hmatch
    simp only [hf', Bool.false_eq_true, if_false]
    cases pc <;> exact hk

/-- The calls of the host are those of a dispatch. -/
theorem State.Inv.entry (h : s.Inv r) {i : Invocation π} (hi : i ∈ s.invocations) :
    s.EntryOk r i := by
  obtain hi | hi := List.mem_append.mp hi
  · exact (h.log.entries i hi).1
  · have hknows := h.host
    cases hhost : s.host with
    | dispatch tick d =>
        rw [hhost] at hi hknows
        exact (hknows.calls.entries i hi).1
    | _ =>
        rw [hhost] at hi
        cases hi

theorem State.Inv.once (h : s.Inv r) :
    (s.invocations.map fun i => (i.plugin, i.handler.id)).Nodup := by
  have hknows := h.host
  rw [State.invocations]
  cases hhost : s.host with
  | dispatch tick d =>
      rw [hhost] at hknows
      show ((s.log ++ d.calls).map _).Nodup
      rw [List.map_append, List.nodup_append]
      refine ⟨h.log.once, ?_, fun a ha b hb => ?_⟩
      · refine List.Nodup.of_map Prod.snd ?_
        rw [List.map_map]
        exact hknows.calls.once
      · obtain ⟨i, hi, rfl⟩ := List.mem_map.mp ha
        obtain ⟨k, hk, rfl⟩ := List.mem_map.mp hb
        obtain ⟨-, hname, -, hnot⟩ := hknows.calls.entries k hk
        intro heq
        obtain ⟨hplugin, hid⟩ := Prod.mk.inj heq
        have hs := (h.log.entries i hi).2
        rw [hplugin, hid, hname, hnot] at hs
        cases hs
  | _ =>
      show ((s.log ++ []).map _).Nodup
      rw [List.append_nil]
      exact h.log.once

variable [DecidableEq π]

/-- A dispatch is over. -/
theorem State.Inv.writeBack (h : s.Inv r) {a : HostAnswer} {tick : Tick π} {d : Dispatch π}
    (hhost : s.host = .dispatch tick d) (hd : s.InDispatch r tick d) (hpc : d.pc = .writeBack) :
    State.Inv r (s.dispatchStep r a tick d .writeBack) := by
  have hsticky : ∀ p id, (s.dispatchStep r a tick d .writeBack).stickyDelivered p id = true ↔
      s.stickyDelivered p id = true ∨ p = d.name ∧ id ∈ d.deliveredSticky := fun p id => by
    show Function.update s.stickyDelivered d.name _ p id = true ↔ _
    rcases eq_or_ne p d.name with rfl | hp
    · simp [Function.update_self]
    · simp [hp]
  have hrunning : ∀ p, (s.dispatchStep r a tick d .writeBack).running p = true ↔
      s.running p = true ∧ (p = d.name → d.failed = false) := fun p => by
    show Function.update s.running d.name _ p = true ↔ _
    rcases eq_or_ne p d.name with rfl | hp
    · simp [Function.update_self]
    · simp [hp]
  have hlater : s.Later (s.dispatchStep r a tick d .writeBack) :=
    ⟨id, fun _ _ ho => ho, id, fun p id hs => (hsticky p id).mpr (.inl hs),
      fun p hs => ((hrunning p).mp hs).1, le_rfl⟩
  have hinvocations : s.invocations = s.log ++ d.calls := by rw [State.invocations, hhost]; rfl
  exact {
    statics := ⟨h.statics.flag, h.statics.acknowledged, h.statics.stored, h.statics.code,
      h.statics.prepare⟩
    unstored := h.unstored
    lane record hmem := (h.lane record hmem).mono hlater
    early source hmem := (h.early source hmem).mono hlater
    log := {
      entries i hi := by
        obtain hi | hi := List.mem_append.mp hi
        · obtain ⟨hentry, hs⟩ := h.log.entries i hi
          exact ⟨hentry.mono hlater, (hsticky _ _).mpr (.inl hs)⟩
        · obtain ⟨hentry, hname, hid, -⟩ := hd.calls.entries i hi
          exact ⟨hentry.mono hlater, (hsticky _ _).mpr (.inr ⟨hname, hid⟩)⟩
      complete p hrun k hk hseen := by
        obtain ⟨hrun, hf⟩ := (hrunning p).mp hrun
        obtain hseen | ⟨rfl, hid⟩ := (hsticky p k.id).mp hseen
        · obtain ⟨i, hi, hik⟩ := h.log.complete p hrun k hk hseen
          exact ⟨i, List.mem_append_left _ hi, hik⟩
        · obtain ⟨i, hi, hik⟩ := hd.calls.complete (hf rfl) k hk hid
          exact ⟨i, List.mem_append_right _ hi, (hd.calls.entries i hi).2.1, hik⟩
      once := by
        show ((s.log ++ d.calls).map _).Nodup
        rw [← hinvocations]
        exact h.once }
    fallback i hi hsel hsource hrun := by
      have hi : i ∈ (s.log ++ d.calls) ++ [] := hi
      rw [List.append_nil, ← hinvocations] at hi
      exact h.fallback i hi hsel hsource ((hrunning _).mp hrun).1
    calls t := (h.calls t).mono hlater rfl
    host := by
      refine ⟨fun record hmem => (hd.events record hmem).mono hlater, fun p hp => ?_⟩
      refine (hd.done p hp).imp_right fun hdone => ?_
      obtain rfl | hdone := hdone
      · intro hrun source k hk ho
        have hf := ((hrunning _).mp hrun).2 rfl
        have hpassed := hd.knows hf
        rw [hpc] at hpassed
        have hsource : s.Passed r tick d source := by
          cases source with
          | api => exact hpassed.1
          | prepareFini => exact hpassed.2
        refine (hsource k hk (ho.mono hlater)).imp_left fun hseen => ?_
        rw [hsticky]
        simpa [Dispatch.seen] using hseen
      · exact hdone.mono hlater }

/-- The handlers of the dispatch are offered the record of the exit routine. -/
theorem State.Inv.loadExitCode (h : s.Inv r) {a : HostAnswer} {tick : Tick π} {d : Dispatch π}
    (hd : s.InDispatch r tick d) (hcalls : s.CallsOk r d) (hpc : d.pc = .loadExitCode)
    (horderly : s.DispatchOrderly r tick d .loadExitCode) :
    State.Inv r (s.dispatchStep r a tick d .loadExitCode) := by
  have hf := hd.failed (by rw [hpc]; nofun)
  have hknows := hd.knows hf
  rw [hpc] at hknows
  refine hcalls.routed h hd hf (fun k hk hmatch hseen => ⟨?_, fun _ => nofun⟩)
    fun d' hext hseen => ?_
  · obtain ⟨o, ho⟩ := hknows
    have hsel : s.Owed .api k := by
      cases hsel : k.selector with
      | processExit => exact hsel
      | processPrepareFini =>
          rw [hsel] at hmatch
          cases hmatch
    have hquiet := horderly (State.owes_eq_true hk hsel hseen)
    have hreq : s.exitRequested = true := by
      have hflag := h.statics.flag .api
      rw [ho] at hflag
      exact hflag
    have hstored : s.stored = true := by
      by_contra hst
      obtain ⟨t, ht⟩ := h.unstored hreq (by simpa using hst)
      rw [hquiet t] at ht
      cases ht
    refine ⟨o, ho, fun c hc => ?_⟩
    show s.exitCode.signExtend 64 = _
    rw [h.statics.code hstored c (hc ▸ ho)]
  · intro k hk ho
    rw [hext.name] at hk
    refine .inl (hseen k hk ?_)
    rw [show k.selector = .processExit from ho]
    rfl

/-- They are offered the record of `on_prepare_for_fini`. -/
theorem State.Inv.loadNative (h : s.Inv r) {a : HostAnswer} {tick : Tick π} {d : Dispatch π}
    {code : BitVec 32} {had : Bool} (hd : s.InDispatch r tick d) (hcalls : s.CallsOk r d)
    (hpc : d.pc = .loadNative code had)
    (horderly : s.DispatchOrderly r tick d (.loadNative code had)) :
    State.Inv r (s.dispatchStep r a tick d (.loadNative code had)) := by
  have hf := hd.failed (by rw [hpc]; nofun)
  have hknows := hd.knows hf
  rw [hpc] at hknows
  obtain ⟨hpassed, ⟨o, ho, hcode⟩, hhad⟩ := hknows
  refine hcalls.routed h hd hf (fun k hk hmatch hseen => ⟨⟨o, ho, fun c hc => ?_⟩,
    fun hsel _ => ?_⟩) fun d' hext hseen => ⟨hpassed.extends hext, fun k hk ho => ?_⟩
  · show code.signExtend 64 = _
    rw [hcode c hc]
  · rw [hsel] at hmatch
    exact horderly (by simpa [EventSelector.matches] using hmatch)
      (State.owes_eq_true (o := .api) hk hsel hseen)
  · rw [hext.name] at hk
    refine .inl (hseen k hk ?_)
    cases hsel : k.selector with
    | processPrepareFini => rfl
    | processExit =>
        have hreq := ho hsel
        cases had with
        | false => rfl
        | true =>
            rw [hhad rfl] at hreq
            cases hreq

/-- They are offered the records of the lane. -/
theorem State.Inv.routeLane (h : s.Inv r) {a : HostAnswer} {tick : Tick π} {d : Dispatch π}
    (hd : s.InDispatch r tick d) (hcalls : s.CallsOk r d) (hpc : d.pc = .lane)
    (horderly : s.DispatchOrderly r tick d .lane) :
    State.Inv r (s.dispatchStep r a tick d .lane) := by
  have hf := hd.failed (by rw [hpc]; nofun)
  have hknows := hd.knows hf
  rw [hpc] at hknows
  obtain ⟨hd', hext⟩ := hcalls.routeLane (o := a.outcome) (l := tick.priorityEvents)
    (fun record hm k hk hmatch hseen => ⟨hd.events record hm, fun hsel hsource => by
      rw [hsel] at hmatch
      refine horderly ⟨record, hm, hsource, ?_⟩ (State.owes_eq_true (o := .api) hk hsel hseen)
      simpa [EventSelector.matches, hsource] using hmatch⟩) hf
  refine h.dispatched (hd'.congr rfl rfl rfl fun hf' => ?_) hd.events (fun p hp => ?_)
    (fun hne => absurd rfl hne) fun _ => ?_
  · exact (Bool.or_eq_false_iff.mp hf').1
  · exact (hd.done p hp).imp_right (Or.imp_left fun hname => hname.trans hext.name.symm)
  · have hapi := hknows.1.extends hext
    have hprepare := hknows.2.extends hext
    exact ⟨hapi, hprepare⟩

/-- A step of a dispatch. -/
theorem State.Inv.dispatchStep (h : s.Inv r) {a : HostAnswer} {tick : Tick π} {d : Dispatch π}
    (hhost : s.host = .dispatch tick d) (horderly : s.DispatchOrderly r tick d d.pc) :
    State.Inv r (s.dispatchStep r a tick d d.pc) := by
  have hd : s.InDispatch r tick d := by
    have hknows := h.host
    rwa [hhost] at hknows
  have hcalls : s.CallsOk r d := ⟨hd.calls, fun i hi =>
    h.fallback i (List.mem_append_right _ (by rw [hhost]; exact hi))⟩
  have hgoto : ∀ pc, s.CallsOk r { d with pc := pc } := fun pc => hcalls.congr rfl rfl rfl id
  have hmiss : ∀ source, ∀ p ∈ r.names, p ∈ (s.miss r tick d source).rest ∨ p = d.name ∨
      s.Done r (s.miss r tick d source) p := fun source p hp =>
    (hd.done p hp).imp_right (Or.imp_right State.Done.miss)
  cases hpc : d.pc with
  | loadRequested =>
      have hf := hd.failed (by rw [hpc]; nofun)
      rw [State.dispatchStep]
      split
      next hreq =>
        refine h.dispatched (hgoto _) hd.events hd.done (fun _ => hf) fun _ => ?_
        have hflag := h.statics.flag .api
        rw [show s.flag .api = true from hreq] at hflag
        exact Option.isSome_iff_exists.mp hflag.symm
      next =>
        exact h.dispatched (hgoto _) hd.events (hmiss _) (fun _ => hf) fun _ => State.Passed.of_miss
  | loadExitCode => exact h.loadExitCode hd hcalls hpc (hpc ▸ horderly)
  | loadPreparing =>
      have hf := hd.failed (by rw [hpc]; nofun)
      have hknows := hd.knows hf
      rw [hpc] at hknows
      rw [State.dispatchStep]
      split
      next hprep =>
        refine h.dispatched (hgoto _) hd.events hd.done (fun _ => hf) fun _ => ⟨hknows, ?_⟩
        have hflag := h.statics.flag .prepareFini
        rw [show s.flag .prepareFini = true from hprep] at hflag
        exact Option.isSome_iff_exists.mp hflag.symm
      next =>
        exact h.dispatched (hgoto _) hd.events (hmiss _) (fun _ => hf) fun _ =>
          ⟨State.Passed.miss hknows, State.Passed.of_miss⟩
  | loadPrepareCode =>
      have hf := hd.failed (by rw [hpc]; nofun)
      have hknows := hd.knows hf
      rw [hpc] at hknows
      obtain ⟨hpassed, o, ho⟩ := hknows
      refine h.dispatched (hgoto _) hd.events hd.done (fun _ => hf) fun _ =>
        ⟨hpassed, o, ho, fun c hc => ?_⟩
      have hprepare := h.statics.prepare c (hc ▸ ho)
      exact h.statics.code hprepare.1 c hprepare.2
  | loadHadRequest code =>
      have hf := hd.failed (by rw [hpc]; nofun)
      have hknows := hd.knows hf
      rw [hpc] at hknows
      exact h.dispatched (hgoto _) hd.events hd.done (fun _ => hf) fun _ =>
        ⟨hknows.1, hknows.2, id⟩
  | loadNative code had => exact h.loadNative hd hcalls hpc (hpc ▸ horderly)
  | lane => exact h.routeLane hd hcalls hpc (hpc ▸ horderly)
  | writeBack => exact h.writeBack hhost hd hpc

/-- A step of the host. -/
theorem State.Inv.hostStep (h : s.Inv r) {a : HostAnswer} (horderly : s.HostOrderly r s.host)
    (hs' : s.hostStep r a s.host = some s') : s'.Inv r := by
  have hknows := h.host
  have hquit : State.Inv r { s with host := .idle } := h.hostGoto trivial fun i hi => by cases hi
  cases hhost : s.host with
  | idle =>
      rw [hhost, State.hostStep] at hs'
      split at hs' <;> cases hs'
      exact h.hostGoto trivial fun i hi => by cases hi
  | loadAcknowledged =>
      rw [hhost] at hs'
      cases hs'
      exact h.hostGoto trivial fun i hi => by cases hi
  | loadGeneration acknowledged =>
      rw [hhost] at hs'
      cases hs'
      exact h.hostGoto trivial fun i hi => by cases hi
  | page pending =>
      rw [hhost, State.hostStep] at hs'
      split at hs'
      · cases hs'
        exact hquit
      · split at hs' <;> cases hs'
        next hpage =>
          exact h.hostGoto ⟨fun record hm => h.lane record (hpage record hm), fun p hp => .inl hp⟩
            fun i hi => by cases hi
  | next tick =>
      rw [hhost] at hknows
      obtain ⟨hevents, hdone⟩ := hknows
      rw [hhost, State.hostStep] at hs'
      split at hs'
      next hrest =>
        rw [hrest] at hdone
        split at hs' <;> cases hs'
        · exact h.hostGoto (fun p hp => (hdone p hp).resolve_left (List.not_mem_nil))
            fun i hi => by cases hi
        · exact hquit
      next name rest hrest =>
        have hcases : ∀ p ∈ r.names, p ∈ rest ∨ p = name ∨ s.Done r tick p := fun p hp => by
          obtain hp | hp := hdone p hp
          · rw [hrest] at hp
            exact (List.mem_cons.mp hp).elim (fun hn => .inr (.inl hn)) .inl
          · exact .inr (.inr hp)
        split at hs'
        · cases hs'
          exact hquit
        · split at hs' <;> cases hs'
          next =>
            refine h.dispatched
              { ok := ⟨nofun, fun _ k _ hk => absurd hk List.not_mem_nil, List.nodup_nil⟩,
                fallback := nofun }
              hevents hcases (fun hne => ?_) fun hf => ?_
            · by_contra hf
              exact hne (if_pos (by simpa using hf))
            · have hf : a.fails = false := hf
              simp only [hf, Bool.false_eq_true, if_false]
              trivial
          next hrun =>
            refine h.hostGoto ⟨hevents, fun p hp => (hcases p hp).imp_right fun hc => ?_⟩
              fun i hi => by cases hi
            obtain rfl | hc := hc
            · exact fun hr => absurd hr hrun
            · exact hc
  | dispatch tick d =>
      rw [hhost] at hs' horderly
      cases hs'
      exact h.dispatchStep hhost horderly
  | acknowledge tick =>
      rw [hhost] at hs' horderly hknows
      cases hs'
      refine h.hostGoto ⟨le_rfl, fun t w hw _ => ?_⟩ fun i hi => by cases hi
      have hopened : ∃ o, s.opened w.1.source = some o := by
        have hcall := h.calls t
        cases hpc : s.threads t <;> rw [hpc] at hw hcall <;>
          first | (cases hw; obtain ⟨o, ho, -⟩ := hcall.1.1.event; exact ⟨o, ho⟩) | cases hw
      refine ⟨hopened, fun p hp hrun k hk ho => ?_⟩
      refine (hknows p hp hrun _ k hk ho).resolve_right fun hmissed => ?_
      rw [horderly t w hw] at hmissed
      cases hmissed
  | storeAcknowledged generation =>
      rw [hhost] at hs' hknows
      cases hs'
      have hlater : s.Later { s with acknowledged := generation, host := .idle } :=
        .of_eq rfl rfl rfl rfl rfl le_rfl
      exact {
        statics := ⟨h.statics.flag, hknows.1, h.statics.stored, h.statics.code, h.statics.prepare⟩
        unstored := h.unstored
        lane := h.lane
        early source hmem := (h.early source hmem).mono hlater
        log := h.log.congr hlater rfl rfl
        fallback i hi := by
          have hi : i ∈ s.log ++ [] := hi
          rw [List.append_nil] at hi
          exact h.fallback i (List.mem_append_left _ hi)
        calls t := (h.calls t).of_served hlater fun w hw hle => .inr (hknows.2 t w hw hle)
        host := trivial }

/-! ## Runs -/

omit [DecidableEq π] in
theorem State.Inv.graceCovers (h : s.Inv r) : s.GraceCovers r where
  covered source hsource p hp hrun k hk ho := by
    obtain ⟨⟨o, hopened⟩, hcalled⟩ := h.early source hsource
    obtain ⟨i, hi, hplugin, rfl⟩ := h.log.complete p hrun k hk (hcalled p hp hrun k hk ho)
    have hmem : i ∈ s.invocations := List.mem_append_left _ hi
    refine ⟨i, hmem, hplugin, rfl, ?_⟩
    obtain ⟨-, hmatch, o', ho', -⟩ := h.entry hmem
    have hreq : ∀ {o}, s.opened .api = some o → s.exitRequested = true := fun {o} ho => by
      show s.flag .api = true
      rw [h.statics.flag .api, ho]
      rfl
    cases source with
    | api =>
        by_contra hne
        have harg : i.event.arg1 = .prepareFini := by
          cases harg : i.event.arg1 with
          | api => exact absurd harg hne
          | prepareFini => rfl
        have hfalse := h.fallback i hmem ho harg (hplugin ▸ hrun)
        rw [hreq hopened] at hfalse
        cases hfalse
    | prepareFini =>
        cases harg : i.event.arg1 with
        | prepareFini => rfl
        | api =>
            cases hsel : i.handler.selector with
            | processPrepareFini =>
                rw [hsel] at hmatch
                simp [EventSelector.matches, harg] at hmatch
            | processExit =>
                have hfalse := ho hsel
                rw [hreq (harg ▸ ho')] at hfalse
                cases hfalse
  once := h.once
  code i hi c hc := by
    obtain ⟨o, ho, hcode⟩ := (h.entry hi).event
    exact hcode c (Option.some.inj (ho.symm.trans hc))

omit [DecidableEq π] in
theorem State.init_inv (running : π → Bool) : State.Inv r (State.init τ running) where
  statics := {
    flag source := by cases source <;> rfl
    acknowledged := le_rfl
    stored := nofun
    code := nofun
    prepare := nofun }
  unstored := nofun
  lane := nofun
  early := nofun
  log := { entries := nofun, complete := fun _ _ _ _ => nofun, once := List.nodup_nil }
  fallback := nofun
  calls _ := trivial
  host := trivial

/-- A step outside the windows keeps the invariant. -/
theorem State.Inv.step [DecidableEq τ] (h : s.Inv r) {a : Action τ} (horderly : s.Orderly r a)
    (hs' : s.step r a = some s') : s'.Inv r := by
  have hcall : ∀ {t : τ} {p : CallPc}, s.threads t = .idle →
      (s.Later (s.goto t p) → State.CallKnows r (s.goto t p) p) → p.awaits = none →
      State.Inv r (s.goto t p) := fun {t p} ht hself hawaits =>
    h.moveOnly rfl rfl rfl rfl rfl rfl rfl rfl rfl rfl rfl le_rfl (fun _ hm => .inl hm)
      (fun _ hm => .inl hm) (by rw [ht]; rfl) hself (fun w hw => by rw [hawaits] at hw; cases hw)
  cases a with
  | exitRoutine t code =>
      rw [State.step] at hs'
      split at hs' <;> cases hs'
      next ht => exact hcall ht (fun _ => trivial) rfl
  | prepareForFini t =>
      rw [State.step] at hs'
      split at hs' <;> cases hs'
      next ht => exact hcall ht (fun _ => trivial) rfl
  | becomeReady =>
      cases hs'
      have hlater : s.Later { s with pythonReady := true } := .of_eq rfl rfl rfl rfl rfl le_rfl
      exact {
        statics := ⟨h.statics.flag, h.statics.acknowledged, h.statics.stored, h.statics.code,
          h.statics.prepare⟩
        unstored := h.unstored
        lane := h.lane
        early source hmem := (h.early source hmem).mono hlater
        log := h.log.congr hlater rfl rfl
        fallback := h.fallback
        calls t := (h.calls t).mono hlater rfl
        host := h.host.congr hlater rfl fun _ _ hw => .inl hw }
  | thread t a => exact h.callStep horderly hs'
  | host a => exact h.hostStep horderly hs'

/-- The grace covers the delivery in the runs whose steps fall into no window. -/
theorem grace_covers [DecidableEq τ] {running : π → Bool} {as : List (Action τ)}
    (horderly : Guarded (State.step r) (State.Orderly r) (State.init τ running) as) :
    Always (State.step r) (State.GraceCovers r) (State.init τ running) as := by
  intro bs s hbs hrun
  have hinv := horderly.always (fun h ha hs' => h.step ha hs') (State.init_inv running) bs s hbs hrun
  exact hinv.graceCovers

/-- Two plugins with a handler for each event. -/
def twoPlugins : Registry (Fin 2) where
  names := [0, 1]
  handlers _ := [⟨0, .processExit, 0⟩, ⟨1, .processPrepareFini, 0⟩]
  distinct _ := by decide

/-- The host goes on, every handler returns, and the lane is busy. -/
def goOn : Action (Fin 2) := .host ⟨false, [], false, fun _ => .returned⟩

/-- A thread goes on, and the grace is one millisecond. -/
def goOnThread (t : Fin 2) : Action (Fin 2) := .thread t ⟨none, 1⟩

/-- An exit routine is called with 3 and waits. -/
def exitingRun : List (Action (Fin 2)) :=
  .becomeReady :: .exitRoutine 0 3 :: List.replicate 5 (goOnThread 0)

/-- Each phase is delivered in a tick of its own. -/
def deliveredRun : List (Action (Fin 2)) :=
  exitingRun ++ List.replicate 19 goOn ++ List.replicate 6 (goOnThread 0) ++
    List.replicate 25 goOn ++ [goOnThread 0]

/-- Both waits end early, and both plugins have been called. -/
theorem deliveredRun_covered :
    Guarded (State.step twoPlugins) (State.Orderly twoPlugins) (State.init (Fin 2) fun _ => true)
        deliveredRun ∧
      (run (State.step twoPlugins) (State.init (Fin 2) fun _ => true) deliveredRun).map
        (fun s => (s.early, s.invocations.length)) = some ([.prepareFini, .api], 4) ∧
      Always (State.step twoPlugins) (State.GraceCovers twoPlugins)
        (State.init (Fin 2) fun _ => true) deliveredRun :=
  have horderly : Guarded (State.step twoPlugins) (State.Orderly twoPlugins)
      (State.init (Fin 2) fun _ => true) deliveredRun := by
    decide +kernel
  ⟨horderly, by decide +kernel, grace_covers horderly⟩

/-- The first phase is given up in the middle of a tick, and the second one opens. -/
def slowRun : List (Action (Fin 2)) :=
  exitingRun ++ List.replicate 12 goOn ++ List.replicate 7 (goOnThread 0) ++
    List.replicate 10 goOn ++ [goOnThread 0]

/-- The code is not stored when a tick delivers. -/
def hastyRun : List (Action (Fin 2)) :=
  [.becomeReady, .exitRoutine 0 3, goOnThread 0] ++ List.replicate 7 goOn

/-- The wait of the second phase ends early and the first plugin has not been called
for it.  In the other run a handler gets 0 although the exit routine passed 3. -/
theorem windows_break :
    (∃ s, run (State.step twoPlugins) (State.init (Fin 2) fun _ => true) slowRun = some s ∧
      Source.prepareFini ∈ s.early ∧ s.running 0 = true ∧
      (∀ i ∈ s.invocations, i.plugin = 0 → i.event.arg1 = .api) ∧ ¬ s.GraceCovers twoPlugins) ∧
    ∃ s, run (State.step twoPlugins) (State.init (Fin 2) fun _ => true) hastyRun = some s ∧
      s.opened .api = some (some 3) ∧
      s.invocations = [⟨0, ⟨0, .processExit, 0⟩, ⟨0, .api, false, false⟩⟩] ∧
      ¬ s.GraceCovers twoPlugins := by
  constructor
  · have hrun : (run (State.step twoPlugins) (State.init (Fin 2) fun _ => true) slowRun).map
        (fun s => (s.early, s.running 0, s.invocations)) = some ([.prepareFini], true,
          [⟨0, ⟨0, .processExit, 0⟩, ⟨3, .api, false, false⟩⟩,
            ⟨1, ⟨0, .processExit, 0⟩, ⟨3, .api, false, false⟩⟩,
            ⟨1, ⟨1, .processPrepareFini, 0⟩, ⟨3, .prepareFini, true, false⟩⟩]) := by
      decide +kernel
    obtain ⟨s, hs, heq⟩ := Option.map_eq_some_iff.mp hrun
    obtain ⟨hearly, hrunning, hcalls⟩ : s.early = [.prepareFini] ∧ s.running 0 = true ∧
        s.invocations = _ := by
      simpa using heq
    have hapi : ∀ i ∈ s.invocations, i.plugin = 0 → i.event.arg1 = .api := by
      rw [hcalls]
      decide
    refine ⟨s, hs, by simp [hearly], hrunning, hapi, fun hgood => ?_⟩
    obtain ⟨i, hi, hplugin, -, hsource⟩ := hgood.covered .prepareFini (by simp [hearly]) 0
      (by decide) hrunning ⟨1, .processPrepareFini, 0⟩ (by decide) nofun
    rw [hapi i hi hplugin] at hsource
    cases hsource
  · have hrun : (run (State.step twoPlugins) (State.init (Fin 2) fun _ => true) hastyRun).map
        (fun s => (s.opened .api, s.invocations)) = some (some (some 3),
          [⟨0, ⟨0, .processExit, 0⟩, ⟨0, .api, false, false⟩⟩]) := by
      decide +kernel
    obtain ⟨s, hs, heq⟩ := Option.map_eq_some_iff.mp hrun
    obtain ⟨hopened, hcalls⟩ : s.opened .api = some (some 3) ∧ s.invocations = _ := by
      simpa using heq
    refine ⟨s, hs, hopened, hcalls, fun hgood => ?_⟩
    have hcode := hgood.code _ (hcalls ▸ List.mem_singleton_self _) 3 hopened
    revert hcode
    decide

end PinBridge.Exit
