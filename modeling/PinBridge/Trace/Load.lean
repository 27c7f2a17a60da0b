import PinBridge.Lib.Json
import PinBridge.Trace.RunEncoder

/-!
# The offline reader

`load` of `pbtrace.py`: the header, then one record after the other.  A kind-12
marker that matches the last plain record is expanded, any other marker is kept
as a record of its own and counted in `invalid_repeats`.

At its end `load` copies the metadata with `dict(meta)` when the file has scope-add
markers, which raises for JSON values that are no mapping.  What `json.loads` does to
the metadata is a parameter.

`loadRun` says what the reader does on the physical records of one run, and
`loadRecords_runs` follows a whole list of runs.  The round trip of the recording
channel (encoder, records, reader) closes the file.
-/

namespace PinBridge

open RunLength (Run runs)

/-! ## Header -/

/-- The `ValueError`s of `read_header`. -/
inductive HeaderError where
  /-- "file too short for PBTR header" -/
  | tooShort
  /-- "bad magic %r (not a .pbtr file)" -/
  | badMagic (magic : List UInt8)
  /-- "unsupported PBTR version %d" -/
  | unsupportedVersion (version : Nat)
  /-- "truncated meta blob" -/
  | truncatedMeta
deriving DecidableEq, Repr

/-- `b"PBTR"`. -/
def magic : List UInt8 := [0x50, 0x42, 0x54, 0x52]

/-- The layout of `HEADER = struct.Struct("<4sIII")` after the magic. -/
def headerLayout : List Nat := [4, 4, 4]

/-- `HEADER.pack(MAGIC, VERSION, len(blob), 0)` followed by the meta blob. -/
def writeHeader (metaRaw : List UInt8) : List UInt8 :=
  magic ++ LittleEndian.pack headerLayout [1, metaRaw.length, 0] ++ metaRaw

/-- `read_header`: the raw meta blob and the bytes after it.  The JSON value of
the blob is left to the caller. -/
def readHeader (file : List UInt8) : Except HeaderError (List UInt8 × List UInt8) :=
  if file.length < 16 then .error .tooShort
  else if file.take 4 ≠ magic then .error (.badMagic (file.take 4))
  else
    let version := LittleEndian.decode ((file.drop 4).take 4)
    let metaLen := LittleEndian.decode ((file.drop 8).take 4)
    if version ≠ 1 then .error (.unsupportedVersion version)
    else if (file.drop 16).length < metaLen then .error .truncatedMeta
    else .ok ((file.drop 16).take metaLen, (file.drop 16).drop metaLen)

/-- What stands where in a file with a header. -/
theorem writeHeader_fields {metaRaw : List UInt8} (h : metaRaw.length < 2 ^ 32)
    (body : List UInt8) :
    ¬ (writeHeader metaRaw ++ body).length < 16 ∧ (writeHeader metaRaw ++ body).take 4 = magic ∧
      LittleEndian.decode (((writeHeader metaRaw ++ body).drop 4).take 4) = 1 ∧
      LittleEndian.decode (((writeHeader metaRaw ++ body).drop 8).take 4) = metaRaw.length ∧
      (writeHeader metaRaw ++ body).drop 16 = metaRaw ++ body := by
  have hword : ∀ n, n < 2 ^ 32 → LittleEndian.decode (LittleEndian.encode 4 n) = n := fun n hn =>
    LittleEndian.decode_encode_of_lt (by simpa using hn)
  have hfile : writeHeader metaRaw ++ body = magic ++ (LittleEndian.encode 4 1 ++
      (LittleEndian.encode 4 metaRaw.length ++ (LittleEndian.encode 4 0 ++ (metaRaw ++ body)))) := by
    simp [writeHeader, LittleEndian.pack, headerLayout]
  have hdrop : ∀ (k : Nat) (a b : List UInt8), a.length = k → (a ++ b).drop k = b :=
    fun k a b hk => List.drop_left' hk
  have h4 : (writeHeader metaRaw ++ body).drop 4 = LittleEndian.encode 4 1 ++
      (LittleEndian.encode 4 metaRaw.length ++ (LittleEndian.encode 4 0 ++ (metaRaw ++ body))) := by
    rw [hfile, hdrop 4 _ _ rfl]
  have h8 : (writeHeader metaRaw ++ body).drop 8 =
      LittleEndian.encode 4 metaRaw.length ++ (LittleEndian.encode 4 0 ++ (metaRaw ++ body)) := by
    rw [show (8 : Nat) = 4 + 4 from rfl, ← List.drop_drop, h4, hdrop 4 _ _ (by simp)]
  refine ⟨?_, ?_, ?_, ?_, ?_⟩
  · rw [hfile]
    simp [magic]
    omega
  · rw [hfile]
    rfl
  · rw [h4, List.take_left' (by simp), hword 1 (by decide)]
  · rw [h8, List.take_left' (by simp), hword _ h]
  · rw [show (16 : Nat) = 8 + 4 + 4 from rfl, ← List.drop_drop, ← List.drop_drop, h8,
      hdrop 4 _ _ (by simp), hdrop 4 _ _ (by simp)]

/-- The header a writer puts in front of a body is read back. -/
theorem readHeader_writeHeader {metaRaw : List UInt8} (h : metaRaw.length < 2 ^ 32)
    (body : List UInt8) : readHeader (writeHeader metaRaw ++ body) = .ok (metaRaw, body) := by
  obtain ⟨hlong, hmagic, hversion, hlen, h16⟩ := writeHeader_fields h body
  unfold readHeader
  rw [if_neg hlong, if_neg (not_not.mpr hmagic)]
  simp only [hversion, hlen, h16]
  simp

/-! ## Statistics -/

/-- `TraceStats`.  A dictionary of counts is the function that returns zero for a
missing key. -/
structure TraceStats where
  counts : Nat → Nat
  physicalCounts : Nat → Nat
  physicalRecords : Nat
  logicalRecords : Nat
  repeatMarkers : Nat
  repeatedRecords : Nat
  invalidRepeats : Nat
  unknownKinds : Nat
  gapEvents : Nat
  gapRecords : Nat
  truncatedTail : Nat
  threads : Nat → Nat

def TraceStats.init : TraceStats :=
  ⟨fun _ => 0, fun _ => 0, 0, 0, 0, 0, 0, 0, 0, 0, 0, fun _ => 0⟩

/-- `d[key] = d.get(key, 0) + n`. -/
def bump (d : Nat → Nat) (key n : Nat) : Nat → Nat := fun k => if k = key then d k + n else d k

/-- The gap check before a record with sequence number `sequence`. -/
def TraceStats.noteGap (s : TraceStats) (prevSeq : Option Nat) (sequence : Nat) : TraceStats :=
  match prevSeq with
  | some p =>
      if sequence > p + 1 then
        { s with gapEvents := s.gapEvents + 1, gapRecords := s.gapRecords + (sequence - p - 1) }
      else s
  | none => s

/-- The counters of `n` logical records of one kind and thread. -/
def TraceStats.noteLogical (s : TraceStats) (kind threadId n : Nat) : TraceStats :=
  { s with
    counts := bump s.counts kind n
    logicalRecords := s.logicalRecords + n
    threads := bump s.threads threadId n }

/-! ## The record loop -/

/-- The keyword arguments of `load`. -/
structure LoadOptions where
  threadId : Option Nat
  skipUnknown : Bool
  expandRepeats : Bool
  collectRecords : Bool
deriving DecidableEq, Repr

/-- The defaults of `load`. -/
def LoadOptions.default : LoadOptions := ⟨none, true, true, true⟩

/-- `thread_id is None or rec.thread_id == thread_id`. -/
def LoadOptions.wants (o : LoadOptions) (threadId : Nat) : Bool :=
  match o.threadId with
  | none => true
  | some t => threadId == t

/-- The locals of `load`. -/
structure LoadState where
  stats : TraceStats
  records : List Record
  scopeAdditions : List (Nat × Nat)
  prevSeq : Option Nat
  previous : Option Record

def LoadState.init : LoadState := ⟨TraceStats.init, [], [], none, none⟩

/-- `_repeat_count`: the expansion count of a valid kind-12 marker. -/
def repeatCount (previous : Option Record) (marker : Record) : Option Nat :=
  match previous with
  | none => none
  | some p =>
      if marker.arg0 == 0 || marker.arg1 != p.kind || marker.threadId != p.threadId ||
          marker.address != p.address || marker.sequence != p.sequence + marker.arg0 then none
      else some marker.arg0

/-- The records a marker with count `count` expands to. -/
def expandRepeat (p : Record) (count : Nat) : List Record :=
  (List.range count).map fun offset => p.nth (offset + 1)

/-- `load` on a kind-12 record that does not match the record before it. -/
def LoadState.invalidRepeat (o : LoadOptions) (st : LoadState) (rec : Record) : LoadState :=
  let stats := { st.stats with invalidRepeats := st.stats.invalidRepeats + 1 }
  { st with
    stats := (stats.noteGap st.prevSeq rec.sequence).noteLogical rec.kind rec.threadId 1
    prevSeq := some rec.sequence
    records :=
      if o.collectRecords && !(o.skipUnknown && !kindKnown rec.kind) && o.wants rec.threadId then
        st.records ++ [rec]
      else st.records }

/-- `load` on a kind-12 record that repeats `p` another `count` times. -/
def LoadState.validRepeat (o : LoadOptions) (st : LoadState) (rec p : Record) (count : Nat) :
    LoadState :=
  let stats := { st.stats with repeatedRecords := st.stats.repeatedRecords + count }
  { st with
    stats := stats.noteLogical p.kind p.threadId count
    prevSeq := some rec.sequence
    records :=
      if o.collectRecords && o.expandRepeats && !(o.skipUnknown && !kindKnown p.kind) then
        if o.wants p.threadId then st.records ++ expandRepeat p count else st.records
      else if o.collectRecords && !o.expandRepeats && !(o.skipUnknown && !kindKnown rec.kind) then
        if o.wants rec.threadId then st.records ++ [rec] else st.records
      else st.records }

/-- `load` on any other record. -/
def LoadState.plainRecord (o : LoadOptions) (st : LoadState) (rec : Record) : LoadState :=
  let stats := (st.stats.noteGap st.prevSeq rec.sequence).noteLogical rec.kind rec.threadId 1
  let known := kindKnown rec.kind
  let stats := if known then stats else { stats with unknownKinds := stats.unknownKinds + 1 }
  let st := { st with stats := stats, prevSeq := some rec.sequence }
  if !known && o.skipUnknown then st
  else
    { st with
      records :=
        if o.collectRecords && o.wants rec.threadId then st.records ++ [rec] else st.records
      previous := some rec }

/-- The physical counters and the scope list, kept for every record. -/
def LoadState.notePhysical (st : LoadState) (rec : Record) : LoadState :=
  { st with
    stats := { st.stats with
      physicalRecords := st.stats.physicalRecords + 1
      physicalCounts := bump st.stats.physicalCounts rec.kind 1 }
    scopeAdditions :=
      if rec.kind == kindMarker && rec.arg0 == markerScopeAdd then
        st.scopeAdditions ++ [(rec.arg1, rec.arg2)]
      else st.scopeAdditions }

/-- The loop body of `load` for one unpacked record. -/
def loadStep (o : LoadOptions) (st : LoadState) (rec : Record) : LoadState :=
  let st := st.notePhysical rec
  if rec.kind == kindRepeat then
    let st := { st with stats := { st.stats with repeatMarkers := st.stats.repeatMarkers + 1 } }
    match st.previous, repeatCount st.previous rec with
    | some p, some count => st.validRepeat o rec p count
    | _, _ => st.invalidRepeat o rec
  else st.plainRecord o rec

/-- The record loop of `load`. -/
def loadRecords (o : LoadOptions) (st : LoadState) (records : List Record) : LoadState :=
  records.foldl (loadStep o) st

/-- `Trace`: what `load` returns. -/
structure Trace where
  metaRaw : List UInt8
  scopeAdditions : List (Nat × Nat)
  records : List Record
  stats : TraceStats

/-- `load` up to the copy of the metadata at its end. -/
def loadLoop (o : LoadOptions) (file : List UInt8) : Except HeaderError Trace := do
  let (metaRaw, body) ← readHeader file
  let st := loadRecords o LoadState.init
    ((LittleEndian.chunks recordLen body).map Record.unpack)
  let stats := { st.stats with
    truncatedTail := (LittleEndian.chunkTail recordLen body).length }
  return ⟨metaRaw, st.scopeAdditions, st.records, stats⟩

/-! ## The metadata -/

/-- What `json.loads(meta_raw.decode("utf-8"))` does: a value, an error that
`read_header` catches, or one that it does not. -/
inductive MetaBlob where
  | value (v : Json)
  | invalid
  | raises

/-- The exceptions of the readers. -/
inductive ReadError where
  | header (e : HeaderError)
  | metaRaises
  /-- the `TypeError` or `ValueError` of `dict(meta)` -/
  | metaNotDict
deriving DecidableEq, Repr

/-- `bytes.hex()`. -/
def hexText (bs : List UInt8) : String :=
  String.ofList (bs.flatMap fun b => [(b.toNat / 16).digitChar, (b.toNat % 16).digitChar])

/-- The metadata `read_header` returns. -/
def readMeta (loads : List UInt8 → MetaBlob) (metaRaw : List UInt8) : Except ReadError Json :=
  match loads metaRaw with
  | .value v => .ok v
  | .invalid => .ok (.object [("_raw_meta", .string (hexText metaRaw))])
  | .raises => .error .metaRaises

/-- The value can be a key of a dictionary. -/
def hashable : Json → Bool
  | .array _ => false
  | .object _ => false
  | _ => true

/-- The value iterates over a key and a value. -/
def isPair : Json → Bool
  | .array [key, _] => hashable key
  | .string text => text.length == 2
  | .object members => members.length == 2
  | _ => false

/-- `dict(meta)` does not raise. -/
def dictAccepts : Json → Bool
  | .object _ => true
  | .array items => items.all isPair
  | .string text => text.length == 0
  | _ => false

/-- `read_header`: the metadata and the bytes after it. -/
def readHeaderMeta (loads : List UInt8 → MetaBlob) (file : List UInt8) :
    Except ReadError (Json × List UInt8) :=
  match readHeader file with
  | .error e => .error (.header e)
  | .ok (metaRaw, body) =>
      match readMeta loads metaRaw with
      | .error e => .error e
      | .ok meta' => .ok (meta', body)

/-- `load`. -/
def loadFile (loads : List UInt8 → MetaBlob) (o : LoadOptions) (file : List UInt8) :
    Except ReadError Trace :=
  match readHeaderMeta loads file with
  | .error e => .error e
  | .ok (meta', _) =>
      match loadLoop o file with
      | .error e => .error (.header e)
      | .ok trace =>
          if !trace.scopeAdditions.isEmpty && !dictAccepts meta' then .error .metaNotDict
          else .ok trace

/-! ## One run -/

theorem kindKnown_ne_repeat {kind : Nat} (h : kind ≠ kindRepeat) : (kind == kindRepeat) = false := by
  simpa using h

/-- What the reader has done after a list of physical records that stands for the
logical records `es`, the last with sequence number `last`. -/
structure LoadState.Advances (st st' : LoadState) (es : List Record) (last : Nat) : Prop where
  records : st'.records = st.records ++ es
  prevSeq : st'.prevSeq = some last
  invalidRepeats : st'.stats.invalidRepeats = st.stats.invalidRepeats
  gapRecords : st'.stats.gapRecords = st.stats.gapRecords
  logicalRecords : st'.stats.logicalRecords = st.stats.logicalRecords + es.length

theorem TraceStats.noteGap_of_le {s : TraceStats} {prevSeq : Option Nat} {sequence : Nat}
    (h : ∀ p, prevSeq = some p → sequence ≤ p + 1) : s.noteGap prevSeq sequence = s := by
  cases prevSeq with
  | none => rfl
  | some p =>
      have := h p rfl
      simp [TraceStats.noteGap, Nat.not_lt.mpr this]

/-- A record of another kind than twelve is a plain one. -/
theorem loadStep_plainRecord (o : LoadOptions) (st : LoadState) {rec : Record}
    (hkind : rec.kind ≠ kindRepeat) :
    loadStep o st rec = (st.notePhysical rec).plainRecord o rec := by
  simp [loadStep, kindKnown_ne_repeat hkind]

/-- The counters of a kind-12 record, before it is compared with the record before it. -/
def LoadState.noteMarker (st : LoadState) (rec : Record) : LoadState :=
  { st.notePhysical rec with
    stats := { (st.notePhysical rec).stats with
      repeatMarkers := (st.notePhysical rec).stats.repeatMarkers + 1 } }

theorem repeatCount_repeatRecord {b : Record} {k : Nat} (hk : k > 0) :
    repeatCount (some b) (TraceWriter.repeatRecord b k) = some k := by
  have hk0 : k ≠ 0 := by omega
  simp [repeatCount, TraceWriter.repeatRecord, Record.arg0, Record.arg1, hk0]

/-- A marker that matches the record before it repeats that record. -/
theorem loadStep_valid (o : LoadOptions) {st : LoadState} {rec p : Record} {count : Nat}
    (hkind : rec.kind = kindRepeat) (hprev : st.previous = some p)
    (hcount : repeatCount (some p) rec = some count) :
    loadStep o st rec = (st.noteMarker rec).validRepeat o rec p count := by
  obtain ⟨stats, records, scopeAdditions, prevSeq, previous⟩ := st
  obtain rfl : previous = some p := hprev
  simp only [loadStep, hkind, beq_self_eq_true, if_true, LoadState.notePhysical, hcount]
  rw [LoadState.noteMarker, LoadState.notePhysical, hkind]

/-- The marker of a run is valid after the base of the run. -/
theorem loadStep_marker (o : LoadOptions) {st : LoadState} {b : Record} {k : Nat} (hk : k > 0)
    (hprev : st.previous = some b) :
    loadStep o st (TraceWriter.repeatRecord b k) =
      (st.noteMarker (TraceWriter.repeatRecord b k)).validRepeat o
        (TraceWriter.repeatRecord b k) b k :=
  loadStep_valid o rfl hprev (repeatCount_repeatRecord hk)

/-- A marker that does not match the record before it is kept as a record. -/
theorem loadStep_invalid (o : LoadOptions) {st : LoadState} {rec : Record}
    (hkind : rec.kind = kindRepeat) (hcount : repeatCount st.previous rec = none) :
    loadStep o st rec = (st.noteMarker rec).invalidRepeat o rec := by
  have hcount' : repeatCount (st.notePhysical rec).previous rec = none := hcount
  simp only [loadStep, hkind, beq_self_eq_true, if_true]
  split
  · next hsome =>
      rw [hcount'] at hsome
      cases hsome
  · rfl

/-- What the reader does with a record. -/
theorem loadStep_cases (o : LoadOptions) (st : LoadState) (rec : Record) :
    (rec.kind ≠ kindRepeat ∧ loadStep o st rec = (st.notePhysical rec).plainRecord o rec) ∨
      (∃ p count, rec.kind = kindRepeat ∧ st.previous = some p ∧
        repeatCount (some p) rec = some count ∧
        loadStep o st rec = (st.noteMarker rec).validRepeat o rec p count) ∨
      (rec.kind = kindRepeat ∧ repeatCount st.previous rec = none ∧
        loadStep o st rec = (st.noteMarker rec).invalidRepeat o rec) := by
  by_cases hkind : rec.kind = kindRepeat
  · cases hcount : repeatCount st.previous rec with
    | none => exact .inr (.inr ⟨hkind, rfl, loadStep_invalid o hkind hcount⟩)
    | some count =>
        cases hprev : st.previous with
        | none =>
            rw [hprev] at hcount
            cases hcount
        | some p =>
            rw [hprev] at hcount
            exact .inr (.inl ⟨p, count, hkind, rfl, hcount, loadStep_valid o hkind hprev hcount⟩)
  · exact .inl ⟨hkind, loadStep_plainRecord o st hkind⟩

section DefaultOptions

variable {o : LoadOptions} (hthread : o.threadId = none) (hexpand : o.expandRepeats = true)
  (hcollect : o.collectRecords = true)

include hthread hcollect in
/-- The reader takes a plain record that leaves no gap. -/
theorem loadStep_plain {st : LoadState} {rec : Record} (hknown : kindKnown rec.kind = true)
    (hkind : rec.kind ≠ kindRepeat) (hgap : ∀ p, st.prevSeq = some p → rec.sequence ≤ p + 1) :
    st.Advances (loadStep o st rec) [rec] rec.sequence ∧
      (loadStep o st rec).previous = some rec := by
  have hwants : o.wants rec.threadId = true := by simp [LoadOptions.wants, hthread]
  have hnote : ∀ s : TraceStats, s.noteGap st.prevSeq rec.sequence = s := fun s =>
    TraceStats.noteGap_of_le hgap
  rw [loadStep_plainRecord o st hkind]
  refine ⟨⟨?_, ?_, ?_, ?_, ?_⟩, ?_⟩ <;>
    simp [LoadState.plainRecord, LoadState.notePhysical, hknown, hwants, hcollect, hnote,
      TraceStats.noteLogical]

include hthread hexpand hcollect in
/-- The reader expands the marker an encoder writes after the base of a run. -/
theorem loadStep_repeat {st : LoadState} {b : Record} {k : Nat} (hk : k > 0)
    (hknown : kindKnown b.kind = true) (hprev : st.previous = some b) :
    st.Advances (loadStep o st (TraceWriter.repeatRecord b k)) (expandRepeat b k)
      (b.sequence + k) := by
  have hwants : o.wants b.threadId = true := by simp [LoadOptions.wants, hthread]
  rw [loadStep_marker o hk hprev]
  constructor <;>
    simp [LoadState.validRepeat, LoadState.noteMarker, LoadState.notePhysical, hknown, hwants,
      hcollect, hexpand, TraceStats.noteLogical, TraceWriter.repeatRecord, expandRepeat]

theorem Run.expand_record (b : Record) (k : Nat) :
    (Run.mk b k).expand Record.nth = b :: expandRepeat b k := by
  simp [Run.expand, expandRepeat, List.range_succ_eq_map, Record.nth_zero]

include hthread hexpand hcollect in
/-- The reader expands the physical records of a run to the run. -/
theorem loadRun (st : LoadState) (r : Run Record) (hknown : kindKnown r.base.kind = true)
    (hkind : r.base.kind ≠ kindRepeat)
    (hgap : ∀ p, st.prevSeq = some p → r.base.sequence ≤ p + 1) :
    st.Advances (loadRecords o st (TraceWriter.flushRecords r.base r.repeats))
      (r.expand Record.nth) (r.base.sequence + r.repeats) := by
  obtain ⟨b, k⟩ := r
  obtain ⟨hplain, hprev⟩ := loadStep_plain hthread hcollect hknown hkind hgap
  rw [Run.expand_record]
  by_cases hk : k > 0
  · have hrep := loadStep_repeat hthread hexpand hcollect hk hknown hprev
    have hrecs : TraceWriter.flushRecords b k = [b, TraceWriter.repeatRecord b k] := by
      simp [TraceWriter.flushRecords, hk]
    simp only [hrecs, loadRecords, List.foldl_cons, List.foldl_nil]
    constructor
    · rw [hrep.records, hplain.records, List.append_assoc]
      rfl
    · exact hrep.prevSeq
    · rw [hrep.invalidRepeats, hplain.invalidRepeats]
    · rw [hrep.gapRecords, hplain.gapRecords]
    · rw [hrep.logicalRecords, hplain.logicalRecords, List.length_cons]
      simp only [List.length_cons, List.length_nil]
      omega
  · obtain rfl : k = 0 := by omega
    exact hplain

/-! ## A list of runs -/

include hthread hexpand hcollect in
/-- The reader expands the physical records of a list of runs, as long as the runs
stand for consecutive sequence numbers. -/
theorem loadRecords_runs :
    ∀ (rs : List (Run Record)) (st : LoadState) {s : Nat},
      (∀ r ∈ rs, kindKnown r.base.kind = true ∧ r.base.kind ≠ kindRepeat) →
      (RunLength.expand Record.nth rs).map Record.sequence =
        List.range' s (RunLength.expand Record.nth rs).length →
      (∀ p, st.prevSeq = some p → s ≤ p + 1) →
      let st' := loadRecords o st (flushRecordRuns rs)
      st'.records = st.records ++ RunLength.expand Record.nth rs ∧
        st'.stats.invalidRepeats = st.stats.invalidRepeats ∧
        st'.stats.gapRecords = st.stats.gapRecords ∧
        st'.stats.logicalRecords =
          st.stats.logicalRecords + (RunLength.expand Record.nth rs).length
  | [], st, s, _, _, _ => by simp [loadRecords, flushRecordRuns]
  | r :: rs, st, s, hkinds, hseq, hgap => by
      obtain ⟨b, k⟩ := r
      obtain ⟨hknown, hkind⟩ := hkinds _ List.mem_cons_self
      -- the base of the first run carries the first sequence number, the rest follow its repeats
      rw [RunLength.expand_cons, Run.expand_record, List.cons_append, List.map_cons,
        List.length_cons, List.range'_succ, List.map_append, List.cons.injEq] at hseq
      obtain ⟨hbase, hseq⟩ := hseq
      have hlen : (expandRepeat b k).length = k := by simp [expandRepeat]
      rw [List.length_append, hlen, ← List.range'_append_1] at hseq
      have hrest := List.append_inj_right hseq (by simp [hlen])
      have hrun := loadRun hthread hexpand hcollect st ⟨b, k⟩ hknown hkind
        (fun p hp => by have := hgap p hp; simp only; omega)
      have ih := loadRecords_runs rs (loadRecords o st (TraceWriter.flushRecords b k))
        (fun r hr => hkinds r (List.mem_cons_of_mem _ hr)) hrest
        (fun p hp => by
          rw [hrun.prevSeq] at hp
          cases hp
          simp only
          omega)
      obtain ⟨ih1, ih2, ih3, ih4⟩ := ih
      have happ : loadRecords o st (flushRecordRuns (⟨b, k⟩ :: rs)) =
          loadRecords o (loadRecords o st (TraceWriter.flushRecords b k)) (flushRecordRuns rs) := by
        simp [loadRecords, flushRecordRuns]
      simp only
      rw [happ, ih1, ih2, ih3, ih4, hrun.records, hrun.invalidRepeats, hrun.gapRecords,
        hrun.logicalRecords, RunLength.expand_cons, List.length_append]
      refine ⟨by rw [List.append_assoc], rfl, rfl, by omega⟩

end DefaultOptions

/-! ## The round trip -/

/-- Sequence numbers `1, 2, …, n` increase. -/
theorem pairwise_of_sequences {events : List Event}
    (h : events.map (fun e => e.sequence.toNat) = List.range' 1 events.length) :
    events.Pairwise fun e f => e.sequence.toNat < f.sequence.toNat := by
  have hpw : (events.map fun e => e.sequence.toNat).Pairwise (· < ·) := by
    rw [h]
    exact List.pairwise_lt_range'
  exact List.pairwise_map.mp hpw

/-- A file made of a header and the wire images of `events`. -/
def traceFile (metaRaw : List UInt8) (events : List Event) : List UInt8 :=
  writeHeader metaRaw ++ (events.map Event.encode).flatten

/-- The loop sees the records of the events a file was made of. -/
theorem loadLoop_traceFile (o : LoadOptions) {metaRaw : List UInt8} (h : metaRaw.length < 2 ^ 32)
    (events : List Event) :
    let st := loadRecords o LoadState.init (events.map Event.toRecord)
    loadLoop o (traceFile metaRaw events) =
      .ok ⟨metaRaw, st.scopeAdditions, st.records, { st.stats with truncatedTail := 0 }⟩ := by
  have hlen : ∀ c ∈ events.map Event.encode, c.length = recordLen := by
    intro c hc
    obtain ⟨e, -, rfl⟩ := List.mem_map.mp hc
    exact e.length_encode
  obtain ⟨hchunks, htail⟩ := LittleEndian.chunks_flatten (by decide : 0 < recordLen) hlen
  have hunpack : (events.map Event.encode).map Record.unpack = events.map Event.toRecord := by
    rw [List.map_map]
    exact List.map_congr_left fun e _ => Record.unpack_encode e
  unfold loadLoop traceFile
  rw [readHeader_writeHeader h]
  simp [bind, Except.bind, pure, Except.pure, hchunks, htail, ← hunpack]

/-- `load` returns them if the metadata is a value that `dict` copies. -/
theorem loadFile_traceFile {loads : List UInt8 → MetaBlob} (o : LoadOptions)
    {metaRaw : List UInt8} (h : metaRaw.length < 2 ^ 32) {value : Json}
    (hvalue : readMeta loads metaRaw = .ok value) (haccepts : dictAccepts value = true)
    (events : List Event) :
    let st := loadRecords o LoadState.init (events.map Event.toRecord)
    loadFile loads o (traceFile metaRaw events) =
      .ok ⟨metaRaw, st.scopeAdditions, st.records, { st.stats with truncatedTail := 0 }⟩ := by
  intro st
  have hhead : readHeaderMeta loads (traceFile metaRaw events) =
      .ok (value, (events.map Event.encode).flatten) := by
    rw [readHeaderMeta, traceFile, readHeader_writeHeader h]
    simp only [hvalue]
  rw [loadFile, hhead]
  simp only [loadLoop_traceFile o h events, haccepts, Bool.not_true, Bool.and_false]
  rfl

/-- Both encoders write the same physical records for a recording without loss,
and the reader gives the events back from the file. -/
theorem drainRecords_lossless (events : List Event)
    (hseq : events.map (fun e => e.sequence.toNat) = List.range' 1 events.length)
    (hkinds : ∀ e ∈ events, kindKnown e.kind.toNat = true ∧ e.kind ≠ eventRepeat) :
    (drainRecords events).map Event.toRecord = writerRecords (events.map Event.toRecord) ∧
      ∀ (loads : List UInt8 → MetaBlob) (metaRaw : List UInt8) (value : Json),
        metaRaw.length < 2 ^ 32 → readMeta loads metaRaw = .ok value → dictAccepts value = true →
        ∃ trace, loadFile loads LoadOptions.default (traceFile metaRaw (drainRecords events)) =
            .ok trace ∧
          trace.records = events.map Event.toRecord ∧ trace.stats.invalidRepeats = 0 ∧
          trace.stats.gapRecords = 0 ∧ trace.stats.logicalRecords = events.length := by
  have heq := drainRecords_toRecord (pairwise_of_sequences hseq)
  refine ⟨heq, fun loads metaRaw value hmeta hvalue haccepts =>
    ⟨_, loadFile_traceFile _ hmeta hvalue haccepts _, ?_⟩⟩
  have hexpand := RunLength.expand_runs Record.nth_zero Record.eq_nth_of_continues
    (events.map Event.toRecord)
  -- the base of a run is one of the events
  have hbases : ∀ r ∈ runs Record.continues (events.map Event.toRecord),
      kindKnown r.base.kind = true ∧ r.base.kind ≠ kindRepeat := by
    intro r hr
    have hmem := Record.nth_mem_of_mem_runs hr (Nat.zero_le r.repeats)
    obtain ⟨e, he, hbase⟩ := List.mem_map.mp hmem
    rw [Record.nth_zero] at hbase
    obtain ⟨hknown, hne⟩ := hkinds e he
    rw [← hbase]
    exact ⟨hknown, fun h => hne (UInt32.toNat_inj.mp h)⟩
  have hload := loadRecords_runs (o := LoadOptions.default) rfl rfl rfl _ LoadState.init (s := 1) hbases
    (by rw [hexpand, List.map_map, List.length_map]; exact hseq) (fun p hp => by cases hp)
  rw [heq, writerRecords_eq]
  simpa [hexpand, LoadState.init, TraceStats.init] using hload

/-- `json.loads` on the blob of two braces. -/
def loadsEmpty (blob : List UInt8) : MetaBlob :=
  if blob = [0x7b, 0x7d] then .value (.object []) else .invalid

/-- Two calls of a loop body and an instruction of another thread. -/
theorem drainRecords_lossless_run :
    (∃ trace, loadFile loadsEmpty LoadOptions.default (traceFile [0x7b, 0x7d] (drainRecords
        [⟨1, 3, 7, 0x1000, 4, 0, 0, 0, 0, 0, 0, 0⟩, ⟨2, 3, 7, 0x1000, 4, 0, 0, 0, 0, 0, 0, 0⟩,
          ⟨3, 3, 8, 0x1000, 4, 0, 0, 0, 0, 0, 0, 0⟩])) = .ok trace ∧
      trace.stats.logicalRecords = 3) := by
  obtain ⟨-, hload⟩ := drainRecords_lossless
    [⟨1, 3, 7, 0x1000, 4, 0, 0, 0, 0, 0, 0, 0⟩, ⟨2, 3, 7, 0x1000, 4, 0, 0, 0, 0, 0, 0, 0⟩,
      ⟨3, 3, 8, 0x1000, 4, 0, 0, 0, 0, 0, 0, 0⟩] (by decide) (by decide)
  obtain ⟨trace, h, -, -, -, hcount⟩ :=
    hload loadsEmpty [0x7b, 0x7d] (.object []) (by decide) rfl rfl
  exact ⟨trace, h, hcount⟩

end PinBridge
