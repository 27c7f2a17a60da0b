import PinBridge.Lib.RunLength
import PinBridge.Trace.Record

/-!
# The two run encoders

The agent's drain loop (`drain_main`, `flush_run` in `record.rs`) and the Python
writer (`TraceWriter` in `pbtrace.py`) both hold one pending record and count
how often it repeats.  A closed run is written as its first record and, when it
repeats, a kind-12 marker.

The drain loop compares saturated 64-bit sequence numbers, the writer compares
integers.  On strictly increasing sequence numbers neither saturates, and both
encoders refine the segmentation of `RunLength` (`drainRecords_eq`,
`writerRecords_eq`).  Hence they write the same physical records
(`drainRecords_toRecord`).
-/

namespace PinBridge

open RunLength (Run Pending runs)

/-! ## The drain loop -/

/-- `flush_run`: the first event verbatim, then a marker if it repeats. -/
def flushRun (event : Event) (repeatCount : Nat) : List Event :=
  if repeatCount > 0 then
    [event,
      { Event.empty with
        sequence := UInt64.ofNat (saturatingAdd event.sequence.toNat repeatCount)
        kind := eventRepeat
        threadId := event.threadId
        address := event.address
        arg0 := UInt64.ofNat repeatCount
        arg1 := event.kind.toUInt64 }]
  else [event]

/-- The run-encoding locals of `drain_main`, with the records written so far. -/
structure DrainRun where
  pending : Option Event
  pendingRepeats : Nat
  out : List Event
deriving DecidableEq, Repr

/-- The locals before the loop. -/
def DrainRun.init : DrainRun := ⟨none, 0, []⟩

/-- The `match pending.take()` of the loop body, for an event just read. -/
def DrainRun.push (d : DrainRun) (event : Event) : DrainRun :=
  match d.pending with
  | some previous =>
      let expected := saturatingAdd (saturatingAdd previous.sequence.toNat d.pendingRepeats) 1
      if expected == event.sequence.toNat && samePayload previous event then
        { d with pendingRepeats := saturatingAdd d.pendingRepeats 1 }
      else ⟨some event, 0, d.out ++ flushRun previous d.pendingRepeats⟩
  | none => { d with pending := some event }

/-- The records written once the loop has ended and the last run is flushed. -/
def DrainRun.finish (d : DrainRun) : List Event :=
  match d.pending with
  | some previous => d.out ++ flushRun previous d.pendingRepeats
  | none => d.out

/-- The run-encoded records of a list of events. -/
def drainRecords (events : List Event) : List Event :=
  (events.foldl DrainRun.push DrainRun.init).finish

/-- The records of the file `drain_main` writes when it reads `events` and no write
fails: the start marker, the runs, the stop marker. -/
def agentRecords (mask : UInt32) (events : List Event) : List Event :=
  marker 0 markerStart mask.toUInt64 :: drainRecords events ++
    [marker (UInt64.ofNat (events.length + 1)) markerStop (UInt64.ofNat events.length)]

/-! ## The Python writer -/

/-- `TraceWriter._same_payload`. -/
def Record.samePayload (left right : Record) : Bool :=
  left.kind == right.kind && left.threadId == right.threadId && left.address == right.address &&
    left.args == right.args

/-- `TraceWriter`, with the records it has written. -/
structure TraceWriter where
  count : Nat
  compressRepeats : Bool
  pending : Option Record
  pendingRepeats : Nat
  out : List Record
deriving DecidableEq, Repr

namespace TraceWriter

/-- `TraceWriter(path, meta, compress_repeats)`. -/
def init (compressRepeats : Bool) : TraceWriter := ⟨0, compressRepeats, none, 0, []⟩

/-- The kind-12 record of a run. -/
def repeatRecord (base : Record) (repeats : Nat) : Record :=
  ⟨base.sequence + repeats, kindRepeat, base.threadId, base.address,
    #v[repeats, base.kind, 0, 0, 0, 0, 0, 0]⟩

/-- The records `_flush_pending` writes for a run. -/
def flushRecords (base : Record) (repeats : Nat) : List Record :=
  if repeats > 0 then [base, repeatRecord base repeats] else [base]

/-- `_flush_pending`. -/
def flushPending (w : TraceWriter) : TraceWriter :=
  match w.pending with
  | none => w
  | some base =>
      { w with
        pending := none
        pendingRepeats := 0
        out := w.out ++ flushRecords base w.pendingRepeats }

/-- `emit_record`, and `emit` once the arguments are padded. -/
def emitRecord (w : TraceWriter) (record : Record) : TraceWriter :=
  let w := { w with count := w.count + 1 }
  if w.compressRepeats then
    match w.pending with
    | some base =>
        if record.sequence == base.sequence + w.pendingRepeats + 1 &&
            base.samePayload record then
          { w with pendingRepeats := w.pendingRepeats + 1 }
        else { w.flushPending with pending := some record }
    | none => { w with pending := some record }
  else { w with out := w.out ++ [record] }

/-- `emit(sequence, kind, thread_id, address, *args)`: at most eight arguments,
padded with zeros. -/
def emit (w : TraceWriter) (sequence kind threadId address : Nat) (args : List Nat) :
    Except String TraceWriter :=
  if h : args.length ≤ 8 then
    .ok (w.emitRecord ⟨sequence, kind, threadId, address,
      ⟨(args ++ List.replicate (8 - args.length) 0).toArray, by simp; omega⟩⟩)
  else .error "at most 8 args"

/-- `close`. -/
def close (w : TraceWriter) : TraceWriter := w.flushPending

end TraceWriter

/-- The physical records of `TraceWriter(compress_repeats=True)` for a list of
records. -/
def writerRecords (records : List Record) : List Record :=
  (records.foldl TraceWriter.emitRecord (TraceWriter.init true)).close.out

/-! ## The abstract segmentation -/

/-- `e` is the next repeat of a run with base `b` and `k` repeats. -/
def Event.continues (b : Event) (k : Nat) (e : Event) : Bool :=
  e.sequence.toNat == b.sequence.toNat + k + 1 && samePayload b e

/-- `e` is the next repeat of a run with base `b` and `k` repeats. -/
def Record.continues (b : Record) (k : Nat) (e : Record) : Bool :=
  e.sequence == b.sequence + k + 1 && b.samePayload e

/-- The `k`-th repeat of a record. -/
def Record.nth (b : Record) (k : Nat) : Record := { b with sequence := b.sequence + k }

theorem Record.nth_zero (b : Record) : b.nth 0 = b := rfl

theorem Record.samePayload_iff {left right : Record} :
    left.samePayload right = true ↔ right = { left with sequence := right.sequence } := by
  cases left
  cases right
  simp only [Record.samePayload, Bool.and_eq_true, beq_iff_eq, Record.mk.injEq, true_and]
  constructor
  · rintro ⟨⟨⟨h, h⟩, h⟩, h⟩
    simp [*]
  · rintro ⟨h, h, h, h⟩
    simp [*]

theorem Record.eq_nth_of_continues {b : Record} {k : Nat} {e : Record}
    (h : b.continues k e = true) : e = b.nth (k + 1) := by
  simp only [Record.continues, Bool.and_eq_true, beq_iff_eq] at h
  rw [Record.samePayload_iff.mp h.2, h.1]
  rfl

theorem Event.samePayload_toRecord (b e : Event) :
    b.toRecord.samePayload e.toRecord = samePayload b e := by
  rw [Bool.eq_iff_iff, Record.samePayload_iff, samePayload_iff]
  constructor
  · intro h
    apply Event.toRecord_injective
    rw [h]
    rfl
  · intro h
    conv_lhs => rw [h]
    rfl

/-- The reader's record preserves the test of the drain loop. -/
theorem Event.continues_toRecord (b : Event) (k : Nat) (e : Event) :
    b.toRecord.continues k e.toRecord = b.continues k e := by
  rw [Record.continues, Event.continues, Event.samePayload_toRecord]
  rfl

/-- Every run of a list of records ends with a record of the list. -/
theorem Record.nth_mem_of_mem_runs {es : List Record} {r : Run Record}
    (h : r ∈ runs Record.continues es) {k : Nat} (hk : k ≤ r.repeats) : r.base.nth k ∈ es := by
  rw [← RunLength.expand_runs Record.nth_zero Record.eq_nth_of_continues es]
  refine List.mem_flatMap.mpr ⟨r, h, ?_⟩
  exact List.mem_map.mpr ⟨k, List.mem_range.mpr (by omega), rfl⟩

/-! ## The drain loop refines the segmentation -/

/-- The records of a list of closed runs. -/
def flushRuns (rs : List (Run Event)) : List Event := rs.flatMap fun r => flushRun r.base r.repeats

/-- The locals of the drain loop hold the memory `p` of the abstract encoder. -/
structure DrainRun.Holds (d : DrainRun) (p : Pending Event) : Prop where
  out : d.out = flushRuns p.closed
  pending : d.pending = p.pending.map Run.base
  repeats : ∀ r, p.pending = some r → d.pendingRepeats = r.repeats
  idle : p.pending = none → d.pendingRepeats = 0

/-- The sequence number of the last event the encoder has seen is below `n`. -/
def SeenBelow (p : Pending Event) (n : Nat) : Prop :=
  ∀ r, p.pending = some r → r.base.sequence.toNat + r.repeats < n

theorem DrainRun.Holds.push {d : DrainRun} {p : Pending Event} {e : Event} (h : d.Holds p)
    (hlast : SeenBelow p e.sequence.toNat) :
    (d.push e).Holds (p.push Event.continues e) ∧
      SeenBelow (p.push Event.continues e) (e.sequence.toNat + 1) := by
  obtain ⟨hout, hpend, hrep, hnone⟩ := h
  cases hp : p.pending with
  | none =>
      have hd : d.pending = none := by rw [hpend, hp]; rfl
      have hzero := hnone hp
      constructor
      · constructor <;> simp [DrainRun.push, Pending.push, hp, hd, hout, hzero]
      · simp [SeenBelow, Pending.push, hp]
  | some r =>
      have hd : d.pending = some r.base := by rw [hpend, hp]; rfl
      have hk := hrep r hp
      have hlt : r.base.sequence.toNat + r.repeats < e.sequence.toNat := hlast r hp
      have hmax : e.sequence.toNat < 2 ^ 64 := e.sequence.toNat_lt
      -- no sum below the next sequence number saturates
      have hsat : saturatingAdd (saturatingAdd r.base.sequence.toNat r.repeats) 1 =
          r.base.sequence.toNat + r.repeats + 1 := by
        rw [saturatingAdd_of_lt (a := r.base.sequence.toNat) (by omega),
          saturatingAdd_of_lt (by omega)]
      have htest : (saturatingAdd (saturatingAdd r.base.sequence.toNat r.repeats) 1 ==
          e.sequence.toNat && samePayload r.base e) = r.base.continues r.repeats e := by
        rw [hsat, Event.continues, Bool.beq_comm]
      by_cases hc : r.base.continues r.repeats e = true
      · have hinc : saturatingAdd r.repeats 1 = r.repeats + 1 := saturatingAdd_of_lt (by omega)
        have hseq : e.sequence.toNat = r.base.sequence.toNat + r.repeats + 1 := by
          simp only [Event.continues, Bool.and_eq_true, beq_iff_eq] at hc
          exact hc.1
        constructor
        · constructor <;> simp [DrainRun.push, Pending.push, hp, hd, hk, htest, hc, hout, hinc]
        · simp [SeenBelow, Pending.push, hp, hc]
          omega
      · constructor
        · constructor <;>
            simp [DrainRun.push, Pending.push, hp, hd, hk, htest, hc, hout, flushRuns]
        · simp [SeenBelow, Pending.push, hp, hc]

theorem DrainRun.Holds.finish {d : DrainRun} {p : Pending Event} (h : d.Holds p) :
    d.finish = flushRuns p.close := by
  obtain ⟨hout, hpend, hrep, -⟩ := h
  cases hp : p.pending with
  | none =>
      rw [hp] at hpend
      simp [DrainRun.finish, hpend, hout, Pending.close, hp]
  | some r =>
      rw [hp] at hpend
      simp [DrainRun.finish, hpend, hout, Pending.close, hp, hrep r hp, flushRuns]

/-- On strictly increasing sequence numbers the drain loop writes the runs of the
abstract segmentation. -/
theorem drainRecords_eq {events : List Event}
    (h : events.Pairwise fun e f => e.sequence.toNat < f.sequence.toNat) :
    drainRecords events = flushRuns (runs Event.continues events) := by
  suffices hfold : ∀ (es : List Event) (d : DrainRun) (p : Pending Event), d.Holds p →
      es.Pairwise (fun e f => e.sequence.toNat < f.sequence.toNat) →
      (∀ e ∈ es, SeenBelow p e.sequence.toNat) →
      (es.foldl DrainRun.push d).Holds (es.foldl (Pending.push Event.continues) p) by
    refine (hfold events DrainRun.init Pending.empty ?_ h ?_).finish
    · constructor <;> simp [DrainRun.init, Pending.empty, flushRuns]
    · intro e _ r hr
      cases hr
  intro es
  induction es with
  | nil => exact fun d p hold _ _ => hold
  | cons e es ih =>
      intro d p hold hpw hbelow
      obtain ⟨hfirst, hpw⟩ := List.pairwise_cons.mp hpw
      obtain ⟨hold', hseen⟩ := hold.push (hbelow e List.mem_cons_self)
      refine ih _ _ hold' hpw fun f hf r hr => ?_
      have := hseen r hr
      have := hfirst f hf
      omega

/-! ## The writer refines the segmentation -/

/-- The records of a list of closed runs. -/
def flushRecordRuns (rs : List (Run Record)) : List Record :=
  rs.flatMap fun r => TraceWriter.flushRecords r.base r.repeats

/-- The writer holds the memory `p` of the abstract encoder. -/
structure TraceWriter.Holds (w : TraceWriter) (p : Pending Record) : Prop where
  compress : w.compressRepeats = true
  out : w.out = flushRecordRuns p.closed
  pending : w.pending = p.pending.map Run.base
  repeats : ∀ r, p.pending = some r → w.pendingRepeats = r.repeats
  idle : p.pending = none → w.pendingRepeats = 0

theorem TraceWriter.Holds.emitRecord {w : TraceWriter} {p : Pending Record} (h : w.Holds p)
    (e : Record) : (w.emitRecord e).Holds (p.push Record.continues e) := by
  obtain ⟨hcomp, hout, hpend, hrep, hnone⟩ := h
  cases hp : p.pending with
  | none =>
      have hw : w.pending = none := by rw [hpend, hp]; rfl
      constructor <;> simp [TraceWriter.emitRecord, Pending.push, hp, hw, hcomp, hout, hnone hp]
  | some r =>
      have hw : w.pending = some r.base := by rw [hpend, hp]; rfl
      have hk := hrep r hp
      have htest : (e.sequence == r.base.sequence + r.repeats + 1 && r.base.samePayload e) =
          r.base.continues r.repeats e := rfl
      by_cases hc : r.base.continues r.repeats e = true
      · constructor <;>
          simp [TraceWriter.emitRecord, Pending.push, hp, hw, hk, hcomp, htest, hc, hout]
      · constructor <;>
          simp [TraceWriter.emitRecord, TraceWriter.flushPending, Pending.push, hp, hw, hk, hcomp,
            htest, hc, hout, flushRecordRuns]

theorem TraceWriter.Holds.close {w : TraceWriter} {p : Pending Record} (h : w.Holds p) :
    w.close.out = flushRecordRuns p.close := by
  obtain ⟨-, hout, hpend, hrep, -⟩ := h
  cases hp : p.pending with
  | none =>
      rw [hp] at hpend
      simp [TraceWriter.close, TraceWriter.flushPending, hpend, hout, Pending.close, hp]
  | some r =>
      rw [hp] at hpend
      simp [TraceWriter.close, TraceWriter.flushPending, hpend, hout, Pending.close, hp, hrep r hp,
        flushRecordRuns]

theorem TraceWriter.Holds.foldl {es : List Record} :
    ∀ {w : TraceWriter} {p : Pending Record}, w.Holds p →
      (es.foldl TraceWriter.emitRecord w).Holds (es.foldl (Pending.push Record.continues) p) := by
  induction es with
  | nil => exact fun h => h
  | cons e es ih => exact fun h => ih (h.emitRecord e)

theorem TraceWriter.holds_init : (TraceWriter.init true).Holds Pending.empty := by
  constructor <;> simp [TraceWriter.init, Pending.empty, flushRecordRuns]

/-- The compressing writer writes the runs of the abstract segmentation. -/
theorem writerRecords_eq (records : List Record) :
    writerRecords records = flushRecordRuns (runs Record.continues records) :=
  TraceWriter.holds_init.foldl.close

/-! ## The encoders agree -/

/-- A run that stays below `2^64` is written the same way by both encoders. -/
theorem flushRun_toRecord {b : Event} {k : Nat} (h : b.sequence.toNat + k < 2 ^ 64) :
    (flushRun b k).map Event.toRecord = TraceWriter.flushRecords b.toRecord k := by
  have hseq : saturatingAdd b.sequence.toNat k = b.sequence.toNat + k := saturatingAdd_of_lt h
  unfold flushRun TraceWriter.flushRecords
  split
  · simp [Event.toRecord, TraceWriter.repeatRecord, Event.empty, eventRepeat, kindRepeat, hseq]
    omega
  · rfl

/-- On strictly increasing sequence numbers the drain loop and the Python writer
write the same physical records. -/
theorem drainRecords_toRecord {events : List Event}
    (h : events.Pairwise fun e f => e.sequence.toNat < f.sequence.toNat) :
    (drainRecords events).map Event.toRecord = writerRecords (events.map Event.toRecord) := by
  have hmap := RunLength.runs_map Event.continues_toRecord events
  rw [drainRecords_eq h, writerRecords_eq, hmap, flushRuns, flushRecordRuns, List.map_flatMap,
    List.flatMap_map]
  refine List.flatMap_congr fun r hr => ?_
  refine flushRun_toRecord ?_
  -- the run ends with an event of the list, whose sequence number is in range
  have hrun : r.map Event.toRecord ∈ runs Record.continues (events.map Event.toRecord) := by
    rw [hmap]
    exact List.mem_map_of_mem hr
  have hlast := Record.nth_mem_of_mem_runs hrun (le_refl r.repeats)
  obtain ⟨e, -, he⟩ := List.mem_map.mp hlast
  have hseq : e.sequence.toNat = r.base.sequence.toNat + r.repeats := congrArg Record.sequence he
  rw [← hseq]
  exact e.sequence.toNat_lt

end PinBridge
