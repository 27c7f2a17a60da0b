import PinBridge.Trace.Load

/-!
# The trace database

`build_database` of `trace_query.rs` imports a `.pbtr` file into two SQLite tables.  The
primary key of both is the sequence number, so a file with two records of one sequence number
is refused, whatever the records are.

The recorder script writes its start marker with the sequence number of the first captured
event, and `recorderFile_refused` shows that no file it writes from captured events can be
imported.  The agent numbers its markers around the events, and its files are imported in full
(`buildDatabase_agentFile`).

The files are byte lists.  Failures of the file system and of SQLite other than the primary
keys are left out, and the JSON check of the metadata is a parameter.
-/

namespace PinBridge

open RunLength (Run runs)

/-! ## The tables -/

/-- `as i64`. -/
def asI64 (n : Nat) : Int := if n < 2 ^ 63 then n else (n : Int) - 2 ^ 64

/-- A row of table `events`. -/
structure EventRow where
  sequence : Nat
  kind : Int
  threadId : Int
  address : Int
  payload : List UInt8
deriving DecidableEq, Repr

/-- A row of table `memory_index`. -/
structure MemoryRow where
  sequence : Nat
  memoryAddress : Int
deriving DecidableEq, Repr

/-- The database, with the values of `trace_meta`. -/
structure Database where
  events : List EventRow
  memoryIndex : List MemoryRow
  physicalRecords : Nat
  truncatedTail : Nat
  metadataJson : String
deriving DecidableEq, Repr

/-- The errors of `open_trace` and of the import. -/
inductive ImportError where
  /-- "Trace artifact has a short header" -/
  | shortHeader
  /-- "Trace artifact has invalid PBTR magic" -/
  | invalidMagic
  /-- "unsupported PBTR version: {version}" -/
  | unsupportedVersion (version : Nat)
  /-- "Trace metadata exceeds 1 MiB" -/
  | metadataTooLong
  /-- "Trace artifact has truncated metadata" -/
  | truncatedMetadata
  /-- "invalid Trace metadata: {error}" -/
  | invalidMetadata
  /-- "Trace sequence exceeds the local database range" -/
  | sequenceRange
  /-- "import Trace event: {error}", the primary key of `events` -/
  | importEvent (sequence : Nat)
  /-- "import Trace memory index: {error}", the primary key of `memory_index` -/
  | importMemoryIndex (sequence : Nat)
deriving DecidableEq, Repr

/-! ## The import -/

/-- `MAX_META_LEN`. -/
def maxMetaLen : Nat := 1024 * 1024

/-- `metadata_json`.  `json` is the check and the text of a non-empty blob. -/
def metadataJson (json : List UInt8 → Option String) (metadata : List UInt8) : Option String :=
  if metadata = [] then some "\x7b\x7d" else json metadata

/-- `open_trace`: the metadata text and the bytes after it. -/
def openTrace (json : List UInt8 → Option String) (file : List UInt8) :
    Except ImportError (String × List UInt8) :=
  if file.length < 16 then .error .shortHeader
  else if file.take 4 ≠ magic then .error .invalidMagic
  else
    let version := LittleEndian.decode ((file.drop 4).take 4)
    let metadataLen := LittleEndian.decode ((file.drop 8).take 4)
    if version ≠ 1 then .error (.unsupportedVersion version)
    else if maxMetaLen < metadataLen then .error .metadataTooLong
    else if (file.drop 16).length < metadataLen then .error .truncatedMetadata
    else
      match metadataJson json ((file.drop 16).take metadataLen) with
      | some text => .ok (text, (file.drop 16).drop metadataLen)
      | none => .error .invalidMetadata

/-- `parse_record`: the same layout as in the offline reader. -/
def parseRecord (bytes : List UInt8) : Record := Record.unpack bytes

/-- The loop body of the import. -/
def Database.insert (db : Database) (bytes : List UInt8) : Except ImportError Database :=
  let record := parseRecord bytes
  if 2 ^ 63 ≤ record.sequence then .error .sequenceRange
  else if record.sequence ∈ db.events.map EventRow.sequence then
    .error (.importEvent record.sequence)
  else
    let db := { db with
      events := db.events ++ [EventRow.mk record.sequence record.kind record.threadId
        (asI64 record.address) (bytes.drop 24)] }
    if record.kind = 2 ∨ record.kind = 10 then
      if record.sequence ∈ db.memoryIndex.map MemoryRow.sequence then
        .error (.importMemoryIndex record.sequence)
      else
        .ok { db with
          memoryIndex := db.memoryIndex ++ [MemoryRow.mk record.sequence (asI64 record.arg0)]
          physicalRecords := db.physicalRecords + 1 }
    else .ok { db with physicalRecords := db.physicalRecords + 1 }

/-- `build_database`. -/
def buildDatabase (json : List UInt8 → Option String) (file : List UInt8) :
    Except ImportError Database := do
  let (metadataJson, body) ← openTrace json file
  let db ← (LittleEndian.chunks recordLen body).foldlM Database.insert
    ⟨[], [], 0, 0, metadataJson⟩
  return { db with truncatedTail := (LittleEndian.chunkTail recordLen body).length }

/-! ## The files -/

/-- The records `main` of `recorder.py` hands to its writer, and what the writer makes of them:
a start marker, the captured events, an end marker.  `time` is `int(time.time())` and `missed`
the sum of the missed counts. -/
def recorderRecords (time missed : Nat) (captured : List Event) : Except String (List Record) := do
  match captured.head?, captured.getLast? with
  | some first, some last =>
      let writer ← (TraceWriter.init true).emit first.sequence.toNat kindMarker 0 0 [1, time]
      let writer := (captured.map Event.toRecord).foldl TraceWriter.emitRecord writer
      let writer ← writer.emit (last.sequence.toNat + 1) kindMarker 0 0 [2, missed]
      return writer.close.out
  | _, _ => return []

/-- A file of packed records; `pack` raises on a field that does not fit. -/
def packedFile (metaRaw : List UInt8) (records : List Record) : Except String (List UInt8) :=
  if metaRaw.length < 2 ^ 32 ∧ ∀ r ∈ records, ∀ p ∈ recordLayout.zip
      (r.sequence :: r.kind :: r.threadId :: r.address :: r.args.toList), p.2 < 256 ^ p.1 then
    .ok (writeHeader metaRaw ++ (records.map Record.pack).flatten)
  else .error "struct.error"

/-- The file `main` of `recorder.py` writes. -/
def recorderFile (metaRaw : List UInt8) (time missed : Nat) (captured : List Event) :
    Except String (List UInt8) := do
  packedFile metaRaw (← recorderRecords time missed captured)

/-- The file `drain_main` writes. -/
def agentFile (metaRaw : List UInt8) (mask : UInt32) (events : List Event) : List UInt8 :=
  traceFile metaRaw (agentRecords mask events)

/-! ## The import of a list of records -/

theorem openTrace_writeHeader {json : List UInt8 → Option String} {metaRaw : List UInt8}
    (hlen : metaRaw.length ≤ maxMetaLen) (body : List UInt8) :
    openTrace json (writeHeader metaRaw ++ body) =
      match metadataJson json metaRaw with
      | some text => .ok (text, body)
      | none => .error .invalidMetadata := by
  have hsmall : metaRaw.length < 2 ^ 32 := Nat.lt_of_le_of_lt hlen (by decide)
  obtain ⟨hlong, hmagic, hversion, hmeta, h16⟩ := writeHeader_fields hsmall body
  unfold openTrace
  rw [if_neg hlong, if_neg (not_not.mpr hmagic)]
  simp only [hversion, hmeta, h16]
  rw [if_neg (by simp), if_neg (Nat.not_lt.mpr hlen), if_neg (by simp)]
  simp

theorem openTrace_of_long {json : List UInt8 → Option String} {metaRaw : List UInt8}
    (hsmall : metaRaw.length < 2 ^ 32) (hlong : maxMetaLen < metaRaw.length) (body : List UInt8) :
    openTrace json (writeHeader metaRaw ++ body) = .error .metadataTooLong := by
  obtain ⟨hlength, hmagic, hversion, hmeta, -⟩ := writeHeader_fields hsmall body
  unfold openTrace
  rw [if_neg hlength, if_neg (not_not.mpr hmagic)]
  simp only [hversion, hmeta]
  rw [if_neg (by simp), if_pos hlong]

/-- Every indexed record is in table `events`. -/
def Database.Indexed (db : Database) : Prop :=
  ∀ n ∈ db.memoryIndex.map MemoryRow.sequence, n ∈ db.events.map EventRow.sequence

/-- A record is imported if and only if its sequence number is in range and new. -/
theorem Database.insert_spec {db : Database} (hdb : db.Indexed) (bytes : List UInt8) :
    (∃ db', db.insert bytes = .ok db') ↔ (parseRecord bytes).sequence < 2 ^ 63 ∧
      (parseRecord bytes).sequence ∉ db.events.map EventRow.sequence := by
  unfold Database.insert
  dsimp only
  split
  case isTrue hrange =>
    exact ⟨fun ⟨_, h⟩ => (nomatch h), fun ⟨h, _⟩ => absurd hrange (Nat.not_le.mpr h)⟩
  case isFalse hrange =>
    split
    case isTrue hmem => exact ⟨fun ⟨_, h⟩ => (nomatch h), fun ⟨_, h⟩ => absurd hmem h⟩
    case isFalse hmem =>
      refine ⟨fun _ => ⟨Nat.not_le.mp hrange, hmem⟩, fun _ => ?_⟩
      split
      · rw [if_neg fun hindex => hmem (hdb _ hindex)]
        exact ⟨_, rfl⟩
      · exact ⟨_, rfl⟩

theorem Database.insert_eq_ok {db db' : Database} {bytes : List UInt8} (hdb : db.Indexed)
    (h : db.insert bytes = .ok db') : db'.Indexed ∧
      db'.events.map EventRow.sequence =
        db.events.map EventRow.sequence ++ [(parseRecord bytes).sequence] ∧
      db'.physicalRecords = db.physicalRecords + 1 := by
  unfold Database.insert at h
  dsimp only at h
  split at h
  · cases h
  · split at h
    · cases h
    · split at h
      · split at h
        · cases h
        · cases h
          refine ⟨fun n hn => ?_, by simp, rfl⟩
          simp only [List.map_append, List.mem_append, List.map_cons, List.map_nil] at hn ⊢
          exact hn.imp_left (hdb n)
      · cases h
        refine ⟨fun n hn => ?_, by simp, rfl⟩
        rw [List.map_append, List.mem_append]
        exact .inl (hdb n hn)

/-- The sequence numbers of a list of packed records. -/
def sequences (chunks : List (List UInt8)) : List Nat :=
  chunks.map fun c => (parseRecord c).sequence

theorem Database.foldlM_insert {db : Database} (hdb : db.Indexed)
    (hnodup : (db.events.map EventRow.sequence).Nodup) (chunks : List (List UInt8)) :
    ((∃ db', chunks.foldlM Database.insert db = .ok db') ↔
      (∀ n ∈ sequences chunks, n < 2 ^ 63) ∧
        (db.events.map EventRow.sequence ++ sequences chunks).Nodup) ∧
      ∀ db', chunks.foldlM Database.insert db = .ok db' →
        db'.physicalRecords = db.physicalRecords + chunks.length := by
  induction chunks generalizing db with
  | nil =>
      refine ⟨⟨fun _ => ⟨by simp [sequences], by simpa [sequences] using hnodup⟩,
        fun _ => ⟨db, rfl⟩⟩, fun db' h => ?_⟩
      cases h
      rfl
  | cons c chunks ih =>
      rw [List.foldlM_cons]
      cases hc : db.insert c with
      | error e =>
          refine ⟨⟨fun ⟨_, h⟩ => (nomatch h), fun ⟨hrange, hdistinct⟩ => ?_⟩, fun _ h => nomatch h⟩
          have hok : ∃ db', db.insert c = .ok db' := by
            refine (Database.insert_spec hdb c).mpr ⟨hrange _ (by simp [sequences]), fun hmem => ?_⟩
            exact (List.nodup_append.mp hdistinct).2.2 _ hmem _ (by simp [sequences]) rfl
          obtain ⟨db', h⟩ := hok
          rw [hc] at h
          cases h
      | ok db' =>
          obtain ⟨hdb', hevents, hcount⟩ := Database.insert_eq_ok hdb hc
          obtain ⟨hrange, hnew⟩ := (Database.insert_spec hdb c).mp ⟨db', hc⟩
          obtain ⟨hiff, hphysical⟩ := ih hdb' (by
            rw [hevents]
            refine List.nodup_append.mpr ⟨hnodup, by simp, ?_⟩
            rintro n hn _ hm rfl
            rw [List.mem_singleton.mp hm] at hn
            exact hnew hn)
          refine ⟨hiff.trans ?_, fun db'' h => ?_⟩
          · rw [hevents, List.append_assoc]
            simp only [sequences, List.map_cons, List.mem_cons, forall_eq_or_imp,
              List.singleton_append]
            exact ⟨fun ⟨h, hd⟩ => ⟨⟨hrange, h⟩, hd⟩, fun ⟨⟨_, h⟩, hd⟩ => ⟨h, hd⟩⟩
          · rw [hphysical db'' h, hcount, List.length_cons]
            omega

/-- A file is accepted if and only if its metadata is and its records have different sequence
numbers in the range of the database.  Then every record is counted. -/
theorem buildDatabase_iff {json : List UInt8 → Option String} {metaRaw : List UInt8}
    (hlen : metaRaw.length ≤ maxMetaLen) {chunks : List (List UInt8)}
    (hchunks : ∀ c ∈ chunks, c.length = recordLen) :
    ((∃ db, buildDatabase json (writeHeader metaRaw ++ chunks.flatten) = .ok db) ↔
      (metadataJson json metaRaw).isSome ∧ (∀ n ∈ sequences chunks, n < 2 ^ 63) ∧
        (sequences chunks).Nodup) ∧
      ∀ db, buildDatabase json (writeHeader metaRaw ++ chunks.flatten) = .ok db →
        db.physicalRecords = chunks.length := by
  obtain ⟨hsplit, -⟩ := LittleEndian.chunks_flatten (by decide : 0 < recordLen) hchunks
  have hopen := @openTrace_writeHeader json _ hlen chunks.flatten
  unfold buildDatabase
  cases hmeta : metadataJson json metaRaw with
  | none =>
      rw [hopen, hmeta]
      exact ⟨⟨fun ⟨_, h⟩ => (nomatch h), fun ⟨h, _⟩ => (nomatch h)⟩, fun _ h => nomatch h⟩
  | some text =>
      rw [hopen, hmeta]
      have hempty : (⟨[], [], 0, 0, text⟩ : Database).Indexed := fun n hn => nomatch hn
      obtain ⟨hiff, hcount⟩ := Database.foldlM_insert hempty List.nodup_nil chunks
      simp only [List.map_nil, List.nil_append, Nat.zero_add] at hiff hcount
      rw [← hiff]
      simp only [bind, Except.bind, hsplit, pure, Except.pure, Option.isSome_some, true_and]
      cases hfold : chunks.foldlM Database.insert ⟨[], [], 0, 0, text⟩ with
      | error e => exact ⟨⟨fun ⟨_, h⟩ => (nomatch h), fun ⟨_, h⟩ => (nomatch h)⟩, fun _ h => nomatch h⟩
      | ok db =>
          refine ⟨⟨fun _ => ⟨db, rfl⟩, fun _ => ⟨_, rfl⟩⟩, fun db' h => ?_⟩
          cases h
          exact hcount db hfold

/-- The sequence numbers of packed records. -/
theorem sequences_pack {records : List Record} (h : ∀ r ∈ records, r.Fits) :
    sequences (records.map Record.pack) = records.map Record.sequence := by
  unfold sequences
  rw [List.map_map]
  refine List.map_congr_left fun r hr => ?_
  rw [Function.comp_apply, parseRecord, Record.unpack_pack (h r hr)]

/-! ## The recorder's files -/

theorem TraceWriter.flushRecords_eq (base : Record) (repeats : Nat) :
    ∃ rest, TraceWriter.flushRecords base repeats = base :: rest := by
  unfold TraceWriter.flushRecords
  split
  · exact ⟨_, rfl⟩
  · exact ⟨[], rfl⟩

/-- What the writer holds or has written stays in front of everything that follows. -/
theorem TraceWriter.out_close (w : TraceWriter) (hw : w.compressRepeats = true) {base : Record}
    (hbase : w.pending = some base) (records : List Record) :
    ∃ rest, (records.foldl TraceWriter.emitRecord w).close.out = w.out ++ base :: rest := by
  obtain ⟨rest, hflush⟩ := TraceWriter.flushRecords_eq base w.pendingRepeats
  induction records generalizing w base rest with
  | nil => exact ⟨rest, by simp [TraceWriter.close, TraceWriter.flushPending, hbase, hflush]⟩
  | cons r records ih =>
      rw [List.foldl_cons]
      by_cases hc : (r.sequence == base.sequence + w.pendingRepeats + 1 && base.samePayload r) = true
      · have hemit : w.emitRecord r =
            { w with count := w.count + 1, pendingRepeats := w.pendingRepeats + 1 } := by
          simp [TraceWriter.emitRecord, hw, hbase, hc]
        rw [hemit]
        obtain ⟨_, hflush'⟩ := TraceWriter.flushRecords_eq base (w.pendingRepeats + 1)
        exact ih { w with count := w.count + 1, pendingRepeats := w.pendingRepeats + 1 } hw hbase _
          hflush'
      · have hemit : w.emitRecord r = ⟨w.count + 1, true, some r, 0, w.out ++ base :: rest⟩ := by
          simp [TraceWriter.emitRecord, TraceWriter.flushPending, hw, hbase, hc, hflush]
        rw [hemit]
        obtain ⟨_, hflush'⟩ := TraceWriter.flushRecords_eq r 0
        obtain ⟨rest', hrest⟩ := ih ⟨w.count + 1, true, some r, 0, w.out ++ base :: rest⟩ rfl rfl _
          hflush'
        exact ⟨rest ++ r :: rest', by rw [hrest, List.append_assoc, List.cons_append]⟩

/-- The recorder writes two records with the sequence number of the first captured event. -/
theorem recorderRecords_eq {time missed : Nat} {first : Event} {captured : List Event}
    {records : List Record} (h : recorderRecords time missed (first :: captured) = .ok records) :
    ∃ start rest, records = start :: first.toRecord :: rest ∧
      start.sequence = first.sequence.toNat := by
  obtain ⟨last, hlast⟩ : ∃ last, (first :: captured).getLast? = some last :=
    ⟨_, List.getLast?_eq_some_getLast (List.cons_ne_nil _ _)⟩
  unfold recorderRecords at h
  rw [hlast] at h
  simp only [List.head?_cons, TraceWriter.emit, List.length_cons, List.length_nil, Nat.reduceAdd,
    Nat.reduceLeDiff, dite_true, bind, Except.bind, pure, Except.pure, Except.ok.injEq] at h
  obtain ⟨start, stop, hstart, h⟩ : ∃ start stop : Record,
      start.sequence = first.sequence.toNat ∧
      ((first.toRecord :: captured.map Event.toRecord ++ [stop]).foldl TraceWriter.emitRecord
        ((TraceWriter.init true).emitRecord start)).close.out = records :=
    ⟨_, _, rfl, by rw [List.foldl_concat]; exact h⟩
  -- the first event does not continue the run of the marker, which has its sequence number
  have hne : first.sequence.toNat ≠ start.sequence + 1 := by omega
  have hfirst : ((TraceWriter.init true).emitRecord start).emitRecord first.toRecord =
      ⟨2, true, some first.toRecord, 0, [start]⟩ := by
    simp [TraceWriter.emitRecord, TraceWriter.init, TraceWriter.flushPending, hne,
      TraceWriter.flushRecords]
  rw [List.cons_append, List.foldl_cons, hfirst] at h
  obtain ⟨rest, hrest⟩ := TraceWriter.out_close ⟨2, true, some first.toRecord, 0, [start]⟩ rfl rfl
    (captured.map Event.toRecord ++ [stop])
  exact ⟨start, rest, h.symm.trans hrest, hstart⟩

theorem packedFile_eq_ok {metaRaw file : List UInt8} {records : List Record}
    (h : packedFile metaRaw records = .ok file) :
    metaRaw.length < 2 ^ 32 ∧ (∀ r ∈ records, r.Fits) ∧
      file = writeHeader metaRaw ++ (records.map Record.pack).flatten := by
  unfold packedFile at h
  split at h
  case isTrue hfits =>
    refine ⟨hfits.1, fun r hr => ?_, (Except.ok.inj h).symm⟩
    exact List.forall₂_iff_zip.mpr
      ⟨by simp [recordLayout], fun {w v} hwv => hfits.2 r hr (w, v) hwv⟩
  case isFalse => cases h

theorem Record.length_pack (r : Record) : r.pack.length = recordLen :=
  LittleEndian.length_pack (by simp [recordLayout])

/-- No file of captured events is accepted. -/
theorem recorderFile_refused {json : List UInt8 → Option String} {metaRaw file : List UInt8}
    {time missed : Nat} {captured : List Event} (hne : captured ≠ [])
    (hfile : recorderFile metaRaw time missed captured = .ok file) (db : Database) :
    buildDatabase json file ≠ .ok db := by
  intro hdb
  obtain ⟨first, captured, rfl⟩ := List.exists_cons_of_ne_nil hne
  unfold recorderFile at hfile
  cases hrecords : recorderRecords time missed (first :: captured) with
  | error e =>
      rw [hrecords] at hfile
      cases hfile
  | ok records =>
      rw [hrecords] at hfile
      obtain ⟨hsmall, hfits, rfl⟩ :=
        packedFile_eq_ok (show packedFile metaRaw records = .ok file from hfile)
      have hlen : metaRaw.length ≤ maxMetaLen := by
        by_contra hlong
        unfold buildDatabase at hdb
        rw [openTrace_of_long hsmall (Nat.not_le.mp hlong)] at hdb
        cases hdb
      obtain ⟨start, rest, rfl, hstart⟩ := recorderRecords_eq hrecords
      have hchunks : ∀ c ∈ (start :: first.toRecord :: rest).map Record.pack,
          c.length = recordLen := by
        intro c hc
        obtain ⟨r, -, rfl⟩ := List.mem_map.mp hc
        exact r.length_pack
      obtain ⟨-, -, hnodup⟩ := (buildDatabase_iff hlen hchunks).1.mp ⟨db, hdb⟩
      rw [sequences_pack hfits, List.map_cons, List.map_cons, hstart] at hnodup
      exact (List.nodup_cons.mp hnodup).1 (by simp)

/-! ## The agent's files -/

/-- The records of a run carry two of its sequence numbers. -/
theorem flushRecords_sublist (b : Record) (k : Nat) :
    ((TraceWriter.flushRecords b k).map Record.sequence).Sublist
      (((Run.mk b k).expand Record.nth).map Record.sequence) := by
  rw [Run.expand_record]
  unfold TraceWriter.flushRecords
  split
  case isTrue hk =>
    refine List.Sublist.cons_cons _ (List.singleton_sublist.mpr ?_)
    simp only [expandRepeat, List.map_map, List.mem_map, List.mem_range, Function.comp_apply]
    refine ⟨k - 1, by omega, ?_⟩
    simp only [Record.nth, TraceWriter.repeatRecord]
    omega
  case isFalse => exact List.Sublist.cons_cons _ (List.nil_sublist _)

/-- The drain loop writes sequence numbers of its events, in their order. -/
theorem drainRecords_sublist {events : List Event}
    (h : events.Pairwise fun e f => e.sequence.toNat < f.sequence.toNat) :
    ((drainRecords events).map fun e => e.sequence.toNat).Sublist
      (events.map fun e => e.sequence.toNat) := by
  have hrecords := drainRecords_toRecord h
  rw [writerRecords_eq] at hrecords
  have hexpand := RunLength.expand_runs Record.nth_zero Record.eq_nth_of_continues
    (events.map Event.toRecord)
  have hsub : ((flushRecordRuns (runs Record.continues (events.map Event.toRecord))).map
      Record.sequence).Sublist ((RunLength.expand Record.nth
        (runs Record.continues (events.map Event.toRecord))).map Record.sequence) := by
    generalize runs Record.continues (events.map Event.toRecord) = rs
    induction rs with
    | nil => exact List.Sublist.refl _
    | cons r rs ih =>
        rw [RunLength.expand_cons, flushRecordRuns, List.flatMap_cons, List.map_append,
          List.map_append]
        exact (flushRecords_sublist r.base r.repeats).append ih
  rw [← hrecords, hexpand, List.map_map, List.map_map] at hsub
  exact hsub

/-- The agent numbers the events from one, and its file is accepted with all its records. -/
theorem buildDatabase_agentFile {json : List UInt8 → Option String} {metaRaw : List UInt8}
    (hlen : metaRaw.length ≤ maxMetaLen) (hjson : (metadataJson json metaRaw).isSome)
    (mask : UInt32) {events : List Event} (hcount : events.length + 1 < 2 ^ 63)
    (hseq : events.map (fun e => e.sequence.toNat) = List.range' 1 events.length) :
    ∃ db, buildDatabase json (agentFile metaRaw mask events) = .ok db ∧
      db.physicalRecords = (agentRecords mask events).length := by
  have hchunks : ∀ c ∈ (agentRecords mask events).map Event.encode, c.length = recordLen := by
    intro c hc
    obtain ⟨e, -, rfl⟩ := List.mem_map.mp hc
    exact e.length_encode
  have hnumbers : sequences ((agentRecords mask events).map Event.encode) =
      0 :: (drainRecords events).map (fun e => e.sequence.toNat) ++ [events.length + 1] := by
    have hstop : (UInt64.ofNat (events.length + 1)).toNat = events.length + 1 :=
      UInt64.toNat_ofNat_of_lt' (Nat.lt_trans hcount (by decide))
    simp only [sequences, List.map_map, Function.comp_def, parseRecord, Record.unpack_encode,
      Event.toRecord_sequence, agentRecords, List.map_append, List.map_cons, List.map_nil]
    rw [show (marker (UInt64.ofNat (events.length + 1)) markerStop
      (UInt64.ofNat events.length)).sequence.toNat = events.length + 1 from hstop]
    rfl
  have hsub : ((drainRecords events).map fun e => e.sequence.toNat).Sublist
      (List.range' 1 events.length) := hseq ▸ drainRecords_sublist (pairwise_of_sequences hseq)
  have hbound : ∀ n ∈ (drainRecords events).map (fun e => e.sequence.toNat),
      1 ≤ n ∧ n < 1 + events.length := fun n hn => List.mem_range'_1.mp (hsub.subset hn)
  have hrange : ∀ n ∈ sequences ((agentRecords mask events).map Event.encode), n < 2 ^ 63 := by
    intro n hn
    simp only [hnumbers, List.cons_append, List.mem_cons, List.mem_append, List.not_mem_nil,
      or_false] at hn
    obtain rfl | hn | rfl := hn
    · omega
    · have := hbound n hn
      omega
    · exact hcount
  have hnodup : (sequences ((agentRecords mask events).map Event.encode)).Nodup := by
    rw [hnumbers, List.cons_append, List.nodup_cons, List.nodup_append]
    refine ⟨fun h0 => ?_, hsub.nodup List.nodup_range', by simp, fun n hn m hm heq => ?_⟩
    · obtain h0 | h0 := List.mem_append.mp h0
      · have := hbound 0 h0
        omega
      · simp at h0
    · have := hbound n hn
      have := List.mem_singleton.mp hm
      omega
  obtain ⟨hiff, hphysical⟩ := buildDatabase_iff hlen hchunks
  obtain ⟨db, hdb⟩ := hiff.mpr ⟨hjson, hrange, hnodup⟩
  exact ⟨db, hdb, by rw [hphysical db hdb, List.length_map]⟩

/-! ## Both writers -/

/-- Both files are accepted, and every record of 88 bytes is counted. -/
def Importable (json : List UInt8 → Option String) (metaRaw : List UInt8) (time missed : Nat)
    (mask : UInt32) (events : List Event) : Prop :=
  (∃ file db, recorderFile metaRaw time missed events = .ok file ∧
    buildDatabase json file = .ok db ∧
    db.physicalRecords = (file.length - 16 - metaRaw.length) / recordLen) ∧
  ∃ db, buildDatabase json (agentFile metaRaw mask events) = .ok db ∧
    db.physicalRecords = (agentRecords mask events).length

/-- The recorder's file is refused for all captured events, however they are numbered. -/
theorem not_importable (json : List UInt8 → Option String) (metaRaw : List UInt8)
    (time missed : Nat) (mask : UInt32) {events : List Event} (hne : events ≠ []) :
    ¬ Importable json metaRaw time missed mask events := by
  rintro ⟨⟨file, db, hfile, hdb, -⟩, -⟩
  exact recorderFile_refused hne hfile db hdb

/-- One executed instruction. -/
theorem not_importable_exec :
    [(⟨1, 3, 7, 0x1000, 4, 0, 0, 0, 0, 0, 0, 0⟩ : Event)] ≠ [] ∧
      ¬ Importable (fun _ => some "\x7b\x7d") [0x7b, 0x7d] 0 0 0
        [⟨1, 3, 7, 0x1000, 4, 0, 0, 0, 0, 0, 0, 0⟩] :=
  ⟨List.cons_ne_nil _ _, not_importable _ _ _ _ _ (List.cons_ne_nil _ _)⟩

/-- Not every list of captured events with increasing sequence numbers can be imported. -/
theorem recorder_marker_collides :
    ¬ ∀ events : List Event, events ≠ [] →
      (events.Pairwise fun e f => e.sequence.toNat < f.sequence.toNat) →
      (∀ e ∈ events, e.sequence.toNat < 2 ^ 63) →
      Importable (fun _ => some "\x7b\x7d") [0x7b, 0x7d] 0 0 0 events := by
  intro h
  obtain ⟨⟨file, db, hfile, hdb, -⟩, -⟩ := h [⟨1, 3, 7, 0x1000, 4, 0, 0, 0, 0, 0, 0, 0⟩]
    (List.cons_ne_nil _ _) (List.pairwise_singleton _ _) (by decide)
  exact recorderFile_refused (List.cons_ne_nil _ _) hfile db hdb

end PinBridge
