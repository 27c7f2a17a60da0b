import PinBridge.Recorder.State

/-!
# The steps of the recorder

One function per party gives the effect of its next access.  `step` dispatches
an action to the party that moves.  An action also carries what the environment
answers: whether an I/O or engine call succeeds, and whether a weak compare and
exchange fails spuriously.
-/

namespace PinBridge.Recorder

open PinBridge

/-! ## `submit` -/

/-- The next access of a call of `submit`. -/
def submitStep (g : Statics) (h : History) (spurious : Bool) :
    SubmitPc → Option (Statics × History × SubmitPc)
  | .idle => none
  | .loadSlab event => some (g, h, if g.slab then .checkArmed event else .idle)
  | .checkArmed event => some (g, h, if g.armed then .enter event else .idle)
  | .enter event => some ({ g with inFlight := wrappingAdd g.inFlight 1 }, h, .recheckArmed event)
  | .recheckArmed event =>
      if g.armed then some (g, { h with accepted := h.accepted + 1 }, .loadCap event)
      else some (g, h, .leave none)
  | .loadCap event => some (g, h, if g.slabCap = 0 then .overflow else .loadClaim event g.slabCap)
  | .loadClaim event cap => some (g, h, .loadDrained event cap g.claim)
  | .loadDrained event cap current =>
      some (g, h, if cap ≤ wrappingSub current g.drained then .overflow
        else .exchange event cap current)
  | .exchange event cap current =>
      if g.claim = current ∧ spurious = false then
        let event := { event with sequence := UInt64.ofNat (current + 1) }
        some ({ g with claim := wrappingAdd current 1 },
          { h with reserved := h.reserved ++ [event] }, .writePayload event cap current)
      else some (g, h, .loadDrained event cap g.claim)
  | .overflow => some ({ g with dropped := wrappingAdd g.dropped 1 }, h, .leave none)
  | .writePayload event cap claim =>
      some ({ g with payloads := Function.update g.payloads (claim % cap) event }, h,
        .storeTag event cap claim)
  | .storeTag event cap claim =>
      some ({ g with tags := Function.update g.tags (claim % cap) (wrappingAdd claim 1) }, h,
        .leave (some event))
  | .leave recorded =>
      some ({ g with inFlight := wrappingSub g.inFlight 1 },
        { h with recorded := h.recorded ++ recorded.toList }, .idle)

/-! ## `drain_main` -/

/-- The records of a closed trace file. -/
def traceRecords (l : DrainLocals) (recorded : Nat) : List Event :=
  marker 0 markerStart l.mask.toUInt64 :: l.run.out ++
    [marker (UInt64.ofNat (l.next + 1)) markerStop (UInt64.ofNat recorded)]

/-- Whether the event just read makes `drain_main` flush the pending run. -/
def flushes (run : DrainRun) (event : Event) : Bool := (run.push event).out != run.out

/-- The next access of the drain thread.  `ok` is the outcome of its I/O. -/
def drainStep (g : Statics) (h : History) (file : Option (List Event)) (ok : Bool) :
    DrainPc → Option (Statics × History × Option (List Event) × DrainPc)
  | .absent => none
  | .loadSlab mask => some (g, h, file, .loadCap mask)
  | .loadCap mask => some (g, h, file, .writeHeader mask g.slabCap)
  | .writeHeader mask cap => some (g, h, file, if ok then .writeStart mask cap else .failFailed)
  | .writeStart mask cap =>
      some (g, h, file,
        if ok then .loadClaim ⟨cap, mask, 0, DrainRun.init⟩ else .failFailed)
  | .loadClaim l =>
      some (g, h, file, if l.next < g.claim then .loadTag l else .exitArmed l g.claim)
  | .loadTag l =>
      some (g, h, file,
        if g.tags (l.next % l.cap) = wrappingAdd l.next 1 then .readPayload l else .holeArmed l)
  | .readPayload l =>
      let event := g.payloads (l.next % l.cap)
      let h := { h with read := h.read ++ [event] }
      if flushes l.run event && !ok then some (g, h, file, .lossDisarm l)
      else some (g, h, file, .addWritten { l with run := l.run.push event })
  | .addWritten l =>
      some ({ g with written := wrappingAdd g.written 1 }, h, file,
        .storeDrained { l with next := wrappingAdd l.next 1 })
  | .storeDrained l => some ({ g with drained := l.next }, h, file, .loadClaim l)
  | .holeArmed l => some (g, h, file, if g.armed then .loadClaim l else .holeInFlight l)
  | .holeInFlight l =>
      some (g, h, file, if g.inFlight = 0 then .holeFailed l else .loadClaim l)
  | .holeFailed l => some ({ g with failed := true }, h, file, .holeDropped l)
  | .holeDropped l =>
      some ({ g with dropped := wrappingAdd g.dropped 1 }, h, file,
        .storeDrained { l with next := wrappingAdd l.next 1 })
  | .exitArmed l claim =>
      some (g, h, file, if g.armed then .loadClaim l else .exitInFlight l claim)
  | .exitInFlight l _ =>
      some (g, h, file, if g.inFlight = 0 then .finalFlush l else .loadClaim l)
  | .finalFlush l =>
      if l.run.pending.isSome && !ok then some (g, h, file, .lossFailed l)
      else some (g, h, file, .loadWritten { l with run := { l.run with out := l.run.finish } })
  | .lossDisarm l => some ({ g with armed := false }, h, file, .lossFailed l)
  | .lossFailed l => some ({ g with failed := true }, h, file, .lossInFlight l)
  | .lossInFlight l =>
      some (g, h, file, if g.inFlight = 0 then .lossClaim l else .lossInFlight l)
  | .lossClaim l =>
      some (g, h, file, if l.next < g.claim then .lossDropped l g.claim else .loadWritten l)
  | .lossDropped l claim =>
      some ({ g with dropped := wrappingAdd g.dropped (claim - l.next) }, h, file,
        .lossDrained l claim)
  | .lossDrained l claim => some ({ g with drained := claim }, h, file, .loadWritten l)
  | .loadWritten l => some (g, h, file, .writeStop l g.written)
  | .writeStop l recorded =>
      if ok then some (g, h, some (traceRecords l recorded), .complete)
      else some (g, h, file, .stopFailed)
  | .stopFailed => some ({ g with failed := true }, h, file, .complete)
  | .failFailed => some ({ g with failed := true }, h, file, .failArmed)
  | .failArmed => some ({ g with armed := false }, h, file, .failInFlight)
  | .failInFlight =>
      some (g, h, file, if g.inFlight = 0 then .failClaim else .failInFlight)
  | .failClaim => some (g, h, file, .failDrained g.claim)
  | .failDrained claim =>
      some (g, h, file, if g.drained < claim then .failDropped claim g.drained else .complete)
  | .failDropped claim drained =>
      some ({ g with dropped := wrappingAdd g.dropped (claim - drained) }, h, file,
        .failStore claim)
  | .failStore claim => some ({ g with drained := claim }, h, file, .complete)
  | .complete => some ({ g with drainDone := true }, h, file, .absent)

/-! ## `start_spec` and `stop` -/

/-- `RECORDABLE_MASK`. -/
def recordableMask : UInt32 :=
  1 <<< eventMemory ||| 1 <<< eventExec ||| 1 <<< eventBranchEdge ||| 1 <<< eventExecBytes |||
    1 <<< eventMemValue ||| 1 <<< eventRegSnapshot ||| 1 <<< eventSyscall |||
    1 <<< eventContextChange

def maxRecordRanges : Nat := 16
def maxRecordThreads : Nat := 64
def defaultCap : Nat := 1000000

/-- The argument checks of `start_spec`, in order. -/
def StartSpec.check (spec : StartSpec) : Except StartError Unit :=
  if spec.kindsMask == 0 || spec.kindsMask &&& ~~~recordableMask != 0 then
    .error (.badKinds spec.kindsMask)
  else if spec.ranges.isEmpty || maxRecordRanges < spec.ranges.length then .error .badRangeCount
  else if spec.ranges.any fun r => r.2 ≤ r.1 then .error .badRange
  else if maxRecordThreads < spec.threads.length then .error .tooManyThreads
  else if spec.path.isEmpty then .error .emptyPath
  else .ok ()

/-- The slab capacity `ensure_slab` asks for. -/
def slabCapacity (recordCap : Option Nat) : Nat :=
  (recordCap.filter fun v => 1024 ≤ v).getD defaultCap

/-- The effect of one store of the reset. -/
def ResetStore.apply (g : Statics) : ResetStore → Statics
  | .claim => { g with claim := 0 }
  | .drained => { g with drained := 0 }
  | .dropped => { g with dropped := 0 }
  | .written => { g with written := 0 }
  | .drainDone => { g with drainDone := false }
  | .inFlight => { g with inFlight := 0 }
  | .failed => { g with failed := false }
  | .sessionStarted => { g with sessionStarted := true }
  | .tags => { g with tags := fun slot => if slot < g.slabCap then 0 else g.tags slot }

/-- A control call returns. -/
def State.answer {pool : Pool} (s : State pool) (reply : Reply) : State pool :=
  { s with control := .idle, reply := some reply }

/-- A control call moves on. -/
def State.goto {pool : Pool} (s : State pool) (pc : ControlPc) : State pool :=
  { s with control := pc }

/-- A control call changes the statics and moves on. -/
def State.update {pool : Pool} (s : State pool) (g : Statics) (pc : ControlPc) : State pool :=
  { s with statics := g, control := pc }

/-- The next access of the query-server thread.  `ok` is the outcome of the
environment call it makes. -/
def controlStep {pool : Pool} (s : State pool) (ok : Bool) : ControlPc → Option (State pool)
  | .idle => none
  | .startArmed spec =>
      some (if s.statics.armed then s.answer (.refused .alreadyRecording)
        else s.goto (.startDrainDone spec))
  | .startDrainDone spec =>
      some (if s.statics.drainDone then
          match spec.check with
          | .error error => s.answer (.refused error)
          | .ok () => s.goto (.ensureSlab spec)
        else s.answer (.refused .stillDraining))
  | .ensureSlab spec =>
      some (if s.statics.slab then s.goto (.createFile spec)
        else if ok then s.goto (.storeCap spec (slabCapacity s.recordCap))
        else s.answer (.refused (.slabAlloc (slabCapacity s.recordCap))))
  | .storeCap spec cap => some (s.update { s.statics with slabCap := cap } (.storeSlab spec))
  | .storeSlab spec => some (s.update { s.statics with slab := true } (.createFile spec))
  | .createFile spec =>
      some (if ok then s.goto (.reset spec .claim ResetStore.all.tail)
        else s.answer (.refused (.createFile spec.path)))
  | .reset spec store rest =>
      some (s.update (store.apply s.statics)
        (match rest with
          | [] => .arm spec
          | store :: rest => .reset spec store rest))
  | .arm spec =>
      some { s with
        statics := { s.statics with armed := true }
        history := History.empty
        control := .spawn spec }
  | .spawn spec =>
      some (if ok then
          { s with drainer := .loadSlab spec.kindsMask, control := .flush spec.ranges }
        else s.goto .spawnDisarm)
  | .spawnDisarm => some (s.update { s.statics with armed := false } .spawnFailed)
  | .spawnFailed => some (s.update { s.statics with failed := true } .spawnInFlight)
  | .spawnInFlight =>
      some (s.goto (if s.statics.inFlight = 0 then .spawnClaim else .spawnInFlight))
  | .spawnClaim => some (s.goto (.spawnDrained s.statics.claim))
  | .spawnDrained claim =>
      some (s.goto (if s.statics.drained < claim then .spawnDropped claim s.statics.drained
        else .spawnDone))
  | .spawnDropped claim drained =>
      some (s.update { s.statics with dropped := wrappingAdd s.statics.dropped (claim - drained) }
        (.spawnStore claim))
  | .spawnStore claim => some (s.update { s.statics with drained := claim } .spawnDone)
  | .spawnDone =>
      some (State.answer { s with statics := { s.statics with drainDone := true } }
        (.refused .spawn))
  | .flush [] => some (s.answer .started)
  | .flush ((lo, hi) :: ranges) => some (s.goto (if ok then .flush ranges else .flushFailed lo hi))
  | .flushFailed lo hi =>
      some (s.update { s.statics with failed := true } (.stopSwap (some (.flush lo hi))))
  | .stopSwap error =>
      some (s.update { s.statics with armed := false }
        (if s.statics.armed then .stopPoll error 1000 else .stopDrainDone error))
  | .stopDrainDone error =>
      some (s.goto (if s.statics.drainDone then .stopWritten error else .stopPoll error 1000))
  | .stopPoll error 0 => some (s.goto (.stopTimedOut error))
  | .stopPoll error (left + 1) =>
      some (s.goto (if s.statics.drainDone then .stopTimedOut error else .stopPoll error left))
  | .stopTimedOut error => some (s.goto (.stopLogWritten error))
  | .stopLogWritten error => some (s.goto (.stopLogDropped error))
  | .stopLogDropped error => some (s.goto (.stopWritten error))
  | .stopWritten error => some (s.goto (.stopDropped error s.statics.written))
  | .stopDropped error written =>
      some (s.answer (match error with
        | none => .stopped written s.statics.dropped
        | some error => .refused error))

/-! ## The system -/

/-- A scheduling choice. -/
inductive Action (pool : Pool) where
  /-- Thread `t` calls `submit(event)`. -/
  | call (t : pool.Thread) (event : Event)
  /-- Thread `t` takes the next step of its call. -/
  | submit (t : pool.Thread) (spurious : Bool)
  /-- The query server calls `start_spec`. -/
  | start (spec : StartSpec)
  /-- The query server calls `stop`. -/
  | stop
  /-- The query server takes the next step of its call. -/
  | control (ok : Bool)
  /-- The drain thread takes its next step. -/
  | drain (ok : Bool)
deriving DecidableEq, Repr

/-- One step of the recorder. -/
def step {pool : Pool} (s : State pool) : Action pool → Option (State pool)
  | .call t event =>
      match s.threads t with
      | .idle => some { s with threads := Function.update s.threads t (.loadSlab event) }
      | _ => none
  | .submit t spurious =>
      (submitStep s.statics s.history spurious (s.threads t)).map fun (g, h, pc) =>
        { s with statics := g, history := h, threads := Function.update s.threads t pc }
  | .start spec =>
      match s.control with
      | .idle => some (s.goto (.startArmed spec))
      | _ => none
  | .stop =>
      match s.control with
      | .idle => some (s.goto (.stopSwap none))
      | _ => none
  | .control ok => controlStep s ok s.control
  | .drain ok =>
      (drainStep s.statics s.history s.file ok s.drainer).map fun (g, h, file, pc) =>
        { s with statics := g, history := h, file := file, drainer := pc }

end PinBridge.Recorder
