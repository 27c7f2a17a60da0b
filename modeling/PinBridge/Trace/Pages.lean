import PinBridge.Trace.Query
import PinBridge.Lib.Keyset
import Mathlib.Data.List.Perm.Basic

/-!
# The pages of a trace query

A client starts with the position zero and follows `next_before` until it is "0" (`follow`).
`pages_exact` says that it gets every record that matches exactly once, whatever the accepted
trace, the predicate and the limit are.

A record survives its row (`rowToRecord_toRow`), and the database of an accepted file holds the
rows of its records (`buildDatabase_imported`).  So a statement finds the rows of the records
that match (`matchedRows_eq`), and a query shows a page of these by sequence number
(`query_shows`).  The library `Keyset` says what the pages are.

Zero is a legal sequence number and also stands for no position and for the end.  The two never
meet: `next_before` is the number of a record with an older one below it, so it is positive.
-/

namespace PinBridge.TraceQuery

open HookQuery (fromStrRadix parseValueU64 parseValueU64_decimal)
open Hooks (trim isWhitespace)
open Utf8 (Text)

/-! ## Arguments -/

theorem trim_eq_self {t : Text} (h : ∀ c ∈ t, isWhitespace c = false) : trim t = t := by
  rw [trim, List.dropWhile_eq_self_iff.mpr, List.rdropWhile_eq_self_iff.mpr]
  · intro hne
    rw [h _ (List.getLast_mem hne)]
    exact Bool.false_ne_true
  · intro hlen
    rw [h _ (List.getElem_mem hlen)]
    exact Bool.false_ne_true

/-- A number is read as it is elsewhere in the Hub once the white space is gone. -/
theorem parseInteger_eq {value : String} (h : trim value.toList = value.toList) :
    parseInteger value = match parseValueU64 (.string value) with
      | some n => .ok n
      | none => .error (.validation ("invalid Trace integer: " ++ value)) := by
  unfold parseInteger
  simp only [h, String.ofList_toList]
  rfl

theorem not_isWhitespace_of_isDigit {c : Char} (h : c.isDigit = true) :
    isWhitespace c = false := by
  have hrange : 48 ≤ c.toNat ∧ c.toNat ≤ 57 := by
    simp only [Char.isDigit, Bool.and_eq_true, decide_eq_true_eq] at h
    exact ⟨UInt32.le_iff_toNat_le.mp h.1, UInt32.le_iff_toNat_le.mp h.2⟩
  simp only [isWhitespace, List.contains_eq_mem, List.mem_cons, List.not_mem_nil, or_false,
    Bool.or_eq_false_iff, Bool.and_eq_false_iff, decide_eq_false_iff_not]
  omega

/-- A number written in decimal is read back. -/
theorem parseInteger_decimal {n : Nat} (h : n < 2 ^ 64) :
    parseInteger (toString n) = .ok n := by
  have htrim : trim (toString n).toList = (toString n).toList := by
    refine trim_eq_self fun c hc => not_isWhitespace_of_isDigit ?_
    rw [Nat.toString_eq_ofList_toDigits, String.toList_ofList] at hc
    exact Nat.isDigit_of_mem_toDigits (by decide) (by decide) hc
  rw [parseInteger_eq htrim, parseValueU64_decimal h]

theorem eq_zero_of_toString {n : Nat} (hn : n < 2 ^ 64) (h : toString n = "0") : n = 0 := by
  have hread := parseInteger_decimal hn
  rw [h, show "0" = toString 0 from rfl, parseInteger_decimal (Nat.two_pow_pos 64)] at hread
  exact (Except.ok.inj hread).symm

theorem bind_eq_ok {ε α β : Type} {x : Except ε α} {f : α → Except ε β} {b : β}
    (h : x >>= f = .ok b) : ∃ a, x = .ok a ∧ f a = .ok b := by
  cases x with
  | error e => cases h
  | ok a => exact ⟨a, rfl, h⟩

/-- The other arguments do not depend on the position. -/
theorem Request.parse_at {args : Args} {request : Request} {n : Nat} {text : String}
    (h : Request.parse (args.at text) = .ok request) (hn : n < 2 ^ 64) :
    Request.parse (args.at (toString n)) = .ok { request with before := n } := by
  have hother : ∀ name, name ≠ "before" → ∀ text, (args.at text) name = args name :=
    fun name hname text => Function.update_of_ne hname _ _
  have hbefore : ∀ text, (args.at text) "before" = some (.string text) :=
    fun text => Function.update_self _ _ _
  have hfields : ∀ text, parseFields (args.at text) = parseFields args := fun text => by
    rw [parseFields, parseFields, hother "fields" (by decide)]
  have hrequired : ∀ name, name ≠ "before" → ∀ text,
      requiredString (args.at text) name = requiredString args name := fun name hname text => by
    rw [requiredString, requiredString, hother name hname]
  have hboolean : ∀ name, name ≠ "before" → ∀ text,
      boolean (args.at text) name = boolean args name := fun name hname text => by
    rw [boolean, boolean, hother name hname]
  unfold Request.parse at h ⊢
  simp only [hrequired "index" (by decide), hrequired "key" (by decide),
    hrequired "limit" (by decide), hboolean "payload" (by decide),
    hboolean "metadata" (by decide), hfields, hbefore, Option.bind_some, Json.asStr,
    parseInteger_decimal hn] at h ⊢
  obtain ⟨index, hindex, h⟩ := bind_eq_ok h
  obtain ⟨key, hkey, h⟩ := bind_eq_ok h
  obtain ⟨limitText, hlimitText, h⟩ := bind_eq_ok h
  rw [hindex, hkey, hlimitText]
  cases hlimit : fromStrRadix 10 limitText.toList with
  | none =>
      rw [hlimit] at h
      cases h
  | some limit =>
      rw [hlimit] at h
      by_cases hrange : 1 ≤ limit ∧ limit ≤ 256
      · simp only [dif_pos hrange] at h
        obtain ⟨before, -, h⟩ := bind_eq_ok h
        obtain ⟨fields, hfieldsOk, h⟩ := bind_eq_ok h
        obtain ⟨predicate, hpredicate, h⟩ := bind_eq_ok h
        cases h
        simp only [bind, Except.bind, hlimit, dif_pos hrange, hfieldsOk, hpredicate]
        rfl
      · simp only [dif_neg hrange] at h
        cases h

/-! ## Rows and records -/

/-- The row of table `events` of a record. -/
def toRow (r : Record) : EventRow :=
  ⟨r.sequence, r.kind, r.threadId, asI64 r.address,
    LittleEndian.pack (List.replicate 8 8) r.args.toList⟩

/-- The row of table `memory_index` of a record. -/
def toMemoryRow (r : Record) : MemoryRow := ⟨r.sequence, asI64 r.arg0⟩

/-- The record has a row in table `memory_index`. -/
def indexed (r : Record) : Bool := r.kind = 2 ∨ r.kind = 10

/-- A word survives the signed column. -/
theorem asU64_asI64 {n : Nat} (h : n < 2 ^ 64) : asU64 (asI64 n) = n := by
  unfold asU64 asI64
  split <;> omega

theorem asI64_inj {m n : Nat} (hm : m < 2 ^ 64) (hn : n < 2 ^ 64) :
    asI64 m = asI64 n ↔ m = n := by
  refine ⟨fun h => ?_, congrArg asI64⟩
  rw [← asU64_asI64 hm, h, asU64_asI64 hn]

/-- The words of a byte string, one after the other. -/
theorem ofFn_decode (n : Nat) (bs : List UInt8) :
    (List.ofFn fun i : Fin n => LittleEndian.decode ((bs.drop (i * 8)).take 8)) =
      LittleEndian.unpack (List.replicate n 8) bs := by
  induction n generalizing bs with
  | zero => rfl
  | succ n ih =>
      rw [List.ofFn_succ, List.replicate_succ, LittleEndian.unpack, ← ih]
      simp only [Fin.val_zero, Nat.zero_mul, List.drop_zero, Fin.val_succ, List.drop_drop,
        Nat.succ_mul, Nat.add_comm 8]

/-- A record that fits the layout is read back from its row. -/
theorem rowToRecord_toRow {r : Record} (h : r.Fits) : rowToRecord (toRow r) = some r := by
  obtain ⟨hsequence, hkind, hthread, haddress, hargs⟩ := by
    simpa only [Record.Fits, recordLayout, List.forall₂_cons] using h
  have hpayload : (toRow r).payload.length = 64 :=
    LittleEndian.length_pack (by simp)
  have hwords : LittleEndian.unpack (List.replicate 8 8) (toRow r).payload = r.args.toList :=
    LittleEndian.unpack_pack hargs
  have hargs' : (Vector.ofFn fun i : Fin 8 => LittleEndian.decode
      (((toRow r).payload.drop (i * 8)).take 8)) = r.args :=
    Vector.toList_inj.mp (by rw [Vector.toList_ofFn, ofFn_decode, hwords])
  unfold rowToRecord
  rw [if_neg, hargs']
  · show some (Record.mk r.sequence (r.kind : Int).toNat (r.threadId : Int).toNat
      (asU64 (asI64 r.address)) r.args) = some r
    rw [asU64_asI64 haddress]
    rfl
  · rw [hpayload]
    simp only [toRow]
    omega

/-! ## The imported database -/

/-- The two tables hold the rows of some records with distinct sequence numbers. -/
structure Imported (db : Database) (records : List Record) : Prop where
  events : db.events = records.map toRow
  memoryIndex : db.memoryIndex = (records.filter indexed).map toMemoryRow
  fits : ∀ r ∈ records, r.Fits
  nodup : (records.map Record.sequence).Nodup
  sequence_lt : ∀ r ∈ records, r.sequence < 2 ^ 63

/-- A chunk of the file is a record that fits, and the bytes of its words are kept. -/
theorem parseRecord_chunk {bytes : List UInt8} (h : bytes.length = recordLen) :
    (parseRecord bytes).Fits ∧
      LittleEndian.pack (List.replicate 8 8) (parseRecord bytes).args.toList = bytes.drop 24 := by
  have hwords : (parseRecord bytes).args.toList =
      LittleEndian.unpack (List.replicate 8 8) (bytes.drop 24) := by
    simp [parseRecord, Record.unpack, recordLayout, LittleEndian.unpack, List.drop_drop]
  have hfields : (parseRecord bytes).sequence :: (parseRecord bytes).kind ::
      (parseRecord bytes).threadId :: (parseRecord bytes).address ::
      (parseRecord bytes).args.toList = LittleEndian.unpack recordLayout bytes := by
    rw [hwords]
    simp [parseRecord, Record.unpack, recordLayout, LittleEndian.unpack, List.drop_drop]
  refine ⟨?_, ?_⟩
  · rw [Record.Fits, hfields]
    exact LittleEndian.unpack_lt (by rw [h]; decide)
  · rw [hwords]
    exact LittleEndian.pack_unpack (by rw [List.length_drop, h]; decide)

/-- What an accepted record adds to the tables. -/
theorem Imported.insert {db db' : Database} {records : List Record} {bytes : List UInt8}
    (h : Imported db records) (hlen : bytes.length = recordLen)
    (hdb' : db.insert bytes = .ok db') :
    Imported db' (records ++ [parseRecord bytes]) ∧ db'.metadataJson = db.metadataJson := by
  obtain ⟨hfits, hwords⟩ := parseRecord_chunk hlen
  have hrow : EventRow.mk (parseRecord bytes).sequence (parseRecord bytes).kind
      (parseRecord bytes).threadId (asI64 (parseRecord bytes).address) (bytes.drop 24) =
      toRow (parseRecord bytes) := by rw [toRow, hwords]
  have hindexed : db.Indexed := fun n hn => by
    simp only [h.memoryIndex, h.events, List.map_map] at hn ⊢
    obtain ⟨r, hr, rfl⟩ := List.mem_map.mp hn
    exact List.mem_map.mpr ⟨r, List.mem_of_mem_filter hr, rfl⟩
  obtain ⟨hrange, hnew⟩ := (Database.insert_spec hindexed bytes).mp ⟨db', hdb'⟩
  have hsequences : db.events.map EventRow.sequence = records.map Record.sequence := by
    rw [h.events, List.map_map]
    rfl
  rw [hsequences] at hnew
  have htables : db'.events = (records ++ [parseRecord bytes]).map toRow ∧
      db'.memoryIndex = ((records ++ [parseRecord bytes]).filter indexed).map toMemoryRow ∧
      db'.metadataJson = db.metadataJson := by
    rw [List.map_append, List.filter_append, List.map_append, ← h.events, ← h.memoryIndex]
    unfold Database.insert at hdb'
    simp only [hrow, hsequences, if_neg (Nat.not_le.mpr hrange), if_neg hnew] at hdb'
    split at hdb'
    next hkind =>
      split at hdb'
      next => cases hdb'
      next =>
        cases hdb'
        simp [indexed, hkind, toMemoryRow]
    next hkind =>
      cases hdb'
      simp [indexed, hkind]
  refine ⟨⟨htables.1, htables.2.1, ?_, ?_, ?_⟩, htables.2.2⟩
  · simpa [or_imp, forall_and] using ⟨h.fits, hfits⟩
  · rw [List.map_append, List.nodup_append]
    refine ⟨h.nodup, List.nodup_singleton _, fun n hn m hm heq => hnew ?_⟩
    rw [← List.mem_singleton.mp hm, ← heq]
    exact hn
  · simpa [or_imp, forall_and] using ⟨h.sequence_lt, hrange⟩

theorem Imported.foldlM_insert {db db' : Database} {records : List Record}
    {chunks : List (List UInt8)} (h : Imported db records)
    (hlen : ∀ c ∈ chunks, c.length = recordLen)
    (hdb' : chunks.foldlM Database.insert db = .ok db') :
    Imported db' (records ++ chunks.map parseRecord) ∧ db'.metadataJson = db.metadataJson := by
  induction chunks generalizing db records with
  | nil =>
      cases hdb'
      simpa using h
  | cons c chunks ih =>
      rw [List.foldlM_cons] at hdb'
      obtain ⟨db₁, hc, hdb'⟩ := bind_eq_ok hdb'
      obtain ⟨h₁, hmeta₁⟩ := h.insert (hlen c List.mem_cons_self) hc
      obtain ⟨h₂, hmeta₂⟩ := ih h₁ (fun d hd => hlen d (List.mem_cons_of_mem c hd)) hdb'
      rw [List.append_assoc, List.singleton_append] at h₂
      exact ⟨h₂, hmeta₂.trans hmeta₁⟩

/-- The records of a file, `[]` when its header is refused. -/
def traceRecords (json : List UInt8 → Option String) (file : List UInt8) : List Record :=
  match openTrace json file with
  | .ok (_, body) => (LittleEndian.chunks recordLen body).map parseRecord
  | .error _ => []

/-- The database of an accepted file holds its records and its metadata. -/
theorem buildDatabase_imported {json : List UInt8 → Option String} {file : List UInt8}
    {db : Database} (h : buildDatabase json file = .ok db) :
    Imported db (traceRecords json file) ∧
      ∃ body, openTrace json file = .ok (db.metadataJson, body) := by
  unfold buildDatabase at h
  obtain ⟨⟨text, body⟩, hopen, h⟩ := bind_eq_ok h
  obtain ⟨db₁, hfold, h⟩ := bind_eq_ok h
  cases h
  have hempty : Imported ⟨[], [], 0, 0, text⟩ [] :=
    ⟨rfl, rfl, by simp, List.nodup_nil, by simp⟩
  obtain ⟨himported, hmeta⟩ :=
    hempty.foldlM_insert (fun c hc => LittleEndian.length_of_mem_chunks hc) hfold
  refine ⟨?_, body, hopen.trans (by rw [hmeta])⟩
  rw [traceRecords, hopen]
  exact ⟨himported.events, himported.memoryIndex, himported.fits, himported.nodup,
    himported.sequence_lt⟩

/-! ## One page -/

/-- The record matches the predicate. -/
def Predicate.holds : Predicate → Record → Bool
  | .kind k, r => r.kind = k.toNat
  | .address a, r => r.address = a.toNat
  | .thread t, r => r.threadId = t.toNat
  | .sequence n, r => r.sequence = n.toNat
  | .memory a, r => indexed r && r.arg0 = a.toNat

theorem filter_eq_singleton {records : List Record} (h : (records.map Record.sequence).Nodup)
    {r : Record} (hr : r ∈ records) :
    records.filter (fun s => s.sequence = r.sequence) = [r] := by
  induction records with
  | nil => cases hr
  | cons s records ih =>
      obtain ⟨hnew, hnodup⟩ := List.nodup_cons.mp h
      obtain rfl | hr := List.mem_cons.mp hr
      · rw [List.filter_cons_of_pos (by simp), List.filter_eq_nil_iff.mpr]
        intro t ht heq
        exact hnew (List.mem_map.mpr ⟨t, ht, by simpa using heq⟩)
      · rw [List.filter_cons_of_neg, ih hnodup hr]
        intro heq
        exact hnew (List.mem_map.mpr ⟨r, hr, by simpa using (of_decide_eq_true heq).symm⟩)

theorem address_lt {r : Record} (h : r.Fits) : r.address < 2 ^ 64 := by
  obtain ⟨-, -, -, haddress, -⟩ := by
    simpa only [Record.Fits, recordLayout, List.forall₂_cons] using h
  exact haddress

theorem arg0_lt {r : Record} (h : r.Fits) : r.arg0 < 2 ^ 64 := by
  obtain ⟨s, k, t, a, args⟩ := r
  have harg := (List.forall₂_iff_get.mp h).2 4 (by decide) (by simp)
  simpa [recordLayout, Record.arg0] using harg

/-- The rows where a column of table `events` has the key. -/
theorem matchedRows_events {db : Database} {records : List Record} {column : Column} {key : Int}
    {f : EventRow → Int} {p : Record → Bool} (h : Imported db records)
    (hrows : column.rows db = db.events.map fun e => (e, f e))
    (hp : ∀ r ∈ records, p r = decide (f (toRow r) = key)) :
    matchedRows db column key = (records.filter p).map toRow := by
  rw [matchedRows, hrows, h.events, List.filter_map, List.map_map, List.filter_map, List.map_map,
    List.filter_congr hp]
  rfl

/-- The rows that a statement finds are those of the records that match. -/
theorem matchedRows_eq {db : Database} {records : List Record} {predicate : Predicate}
    {column : Column} {key : Int} (h : Imported db records)
    (hfilter : predicate.databaseFilter = .ok (column, key)) :
    matchedRows db column key = (records.filter predicate.holds).map toRow := by
  cases predicate with
  | kind k =>
      cases hfilter
      refine matchedRows_events h rfl fun r _ => ?_
      simp [Predicate.holds, toRow]
  | address a =>
      cases hfilter
      refine matchedRows_events h rfl fun r hr => ?_
      simp [Predicate.holds, toRow, asI64_inj (address_lt (h.fits r hr)) a.toNat_lt]
  | thread t =>
      cases hfilter
      refine matchedRows_events h rfl fun r _ => ?_
      simp [Predicate.holds, toRow]
  | sequence n =>
      rw [Predicate.databaseFilter] at hfilter
      split at hfilter
      · cases hfilter
        refine matchedRows_events h rfl fun r _ => ?_
        simp [Predicate.holds, toRow]
      · cases hfilter
  | memory a =>
      cases hfilter
      have hjoin : Column.memoryAddress.rows db =
          (records.filter indexed).map fun r => (toRow r, asI64 r.arg0) := by
        rw [Column.rows, h.memoryIndex, h.events, List.flatMap_map]
        refine (List.flatMap_congr fun r hr => ?_).trans List.map_eq_flatMap.symm
        have hone : (records.map toRow).filter (fun e => e.sequence = r.sequence) = [toRow r] := by
          rw [List.filter_map]
          exact congrArg _ (filter_eq_singleton h.nodup (List.mem_of_mem_filter hr))
        rw [toMemoryRow, hone]
        rfl
      rw [matchedRows, hjoin, List.filter_map, List.map_map, List.filter_filter]
      refine congrArg (List.map toRow) (List.filter_congr fun r hr => ?_)
      simp [Predicate.holds, asI64_inj (arg0_lt (h.fits r hr)) a.toNat_lt, Bool.and_comm]

/-- The cursor of a position. -/
def cursor (before : Nat) : Option Nat := if before = 0 then none else some before

theorem mapM_rowToRecord {records : List Record} (h : ∀ r ∈ records, r.Fits) :
    (records.map toRow).mapM rowToRecord = some records := by
  induction records with
  | nil => rfl
  | cons r records ih =>
      rw [List.map_cons, List.mapM_cons, rowToRecord_toRow (h r List.mem_cons_self),
        ih fun s hs => h s (List.mem_cons_of_mem r hs)]
      rfl

/-- `query_database` returns the page below the position. -/
theorem queryDatabase_eq {db : Database} {records : List Record} {predicate : Predicate}
    {column : Column} {key : Int} {before : Nat} (h : Imported db records)
    (hfilter : predicate.databaseFilter = .ok (column, key)) (hbefore : before < 2 ^ 63)
    (limit : Nat) :
    let p := Keyset.page Record.sequence limit (records.filter predicate.holds) (cursor before)
    queryDatabase db predicate before limit =
      .ok ((records.filter predicate.holds).length, p.eligible, p.rows) := by
  intro p
  have hmatched := matchedRows_eq h hfilter
  have hfits : ∀ r ∈ records.filter predicate.holds, r.Fits :=
    fun r hr => h.fits r (List.mem_of_mem_filter hr)
  have hposition : pagePosition before = .ok (cursor before) := by
    unfold pagePosition cursor
    split
    · rfl
    · rfl
  have heligible : belowPosition (cursor before) (matchedRows db column key) =
      (Keyset.before Record.sequence (cursor before) (records.filter predicate.holds)).map
        toRow := by
    rw [hmatched]
    cases cursor before with
    | none => rfl
    | some c => exact List.filter_map
  have hnewest (rows : List Record) : newestRows limit (rows.map toRow) =
      ((Keyset.newestFirst Record.sequence rows).take limit).map toRow := by
    rw [newestRows, Keyset.newestFirst, List.map_take, List.map_mergeSort]
    intro a _ b _
    rfl
  unfold queryDatabase
  rw [hfilter]
  simp only [bind, Except.bind, hposition, heligible, hnewest]
  rw [mapM_rowToRecord, hmatched, List.length_map, List.length_map]
  · rfl
  · exact fun r hr => hfits r (Keyset.mem_of_mem_page hr)

/-- The reply shows a page of the records that match. -/
structure Shows (request : Request) (matching : List Record) (p : Keyset.Page Record)
    (reply : Reply) : Prop where
  events : reply.events = p.rows.reverse.map (projectRecord request.payload request.fields)
  matchedTotal : reply.matchedTotal = matching.length
  eligibleTotal : reply.eligibleTotal = p.eligible
  returned : reply.returned = p.rows.length

/-- The text of a cursor; no cursor is "0". -/
def cursorText : Option Nat → String
  | none => "0"
  | some c => toString c

/-- `next_before` is the next cursor of the page. -/
theorem nextBefore_eq (p : Keyset.Page Record) :
    (if p.rows.length < p.eligible then
        toString ((p.rows.reverse.head?.map Record.sequence).getD 0) else "0") =
      cursorText (Keyset.next Record.sequence p) := by
  rw [Keyset.next, List.head?_reverse]
  split
  · cases p.rows.getLast? with
    | none => rfl
    | some r => rfl
  · rfl

/-- A query returns the page below its position and the cursor of the next one. -/
theorem query_shows {fromStr : String → Option Json} {db : Database} {args : Args}
    {records : List Record} {request : Request} {column : Column} {key : Int}
    (h : Imported db records) (hmeta : (fromStr db.metadataJson).isSome)
    (hargs : Request.parse args = .ok request)
    (hfilter : request.predicate.databaseFilter = .ok (column, key))
    (hbefore : request.before < 2 ^ 63) :
    ∃ reply, query fromStr db args = .ok reply ∧
      Shows request (records.filter request.predicate.holds)
        (Keyset.page Record.sequence request.limit (records.filter request.predicate.holds)
          (cursor request.before)) reply ∧
      reply.nextBefore = cursorText (Keyset.next Record.sequence
        (Keyset.page Record.sequence request.limit (records.filter request.predicate.holds)
          (cursor request.before))) := by
  have hpage := queryDatabase_eq h hfilter hbefore request.limit
  obtain ⟨metadata, hmetadata⟩ : ∃ metadata,
      replyMetadata fromStr request.includeMetadata db.metadataJson = .ok metadata := by
    obtain ⟨value, hvalue⟩ := Option.isSome_iff_exists.mp hmeta
    rw [replyMetadata, hvalue]
    split
    · exact ⟨_, rfl⟩
    · exact ⟨_, rfl⟩
  generalize Keyset.page Record.sequence request.limit (records.filter request.predicate.holds)
    (cursor request.before) = p at hpage ⊢
  have hnext := nextBefore_eq p
  unfold query
  simp only [hargs, hpage, hmetadata, bind, Except.bind, pure, Except.pure, List.length_map,
    List.length_reverse, decide_eq_true_eq, hnext]
  exact ⟨_, rfl, ⟨rfl, rfl, rfl, rfl⟩, rfl⟩

/-! ## All pages -/

theorem Request.parse_cursor {args : Args} {request : Request} {c : Option Nat}
    (hargs : Request.parse (args.at "0") = .ok request) (hc : ∀ n ∈ c, 0 < n ∧ n < 2 ^ 63) :
    Request.parse (args.at (cursorText c)) = .ok { request with before := c.getD 0 } ∧
      cursor (c.getD 0) = c := by
  cases c with
  | none =>
      have hzero := Request.parse_at hargs (Nat.two_pow_pos 64)
      rw [show toString 0 = "0" from rfl] at hzero
      exact ⟨hzero, rfl⟩
  | some n =>
      obtain ⟨hpos, hlt⟩ := hc n rfl
      exact ⟨Request.parse_at hargs (hlt.trans (by decide)), if_neg (Nat.ne_of_gt hpos)⟩

/-- Following `next_before` walks through the pages. -/
theorem follow_shows {fromStr : String → Option Json} {db : Database} {args : Args}
    {records : List Record} {request : Request} {column : Column} {key : Int}
    (h : Imported db records) (hmeta : (fromStr db.metadataJson).isSome)
    (hargs : Request.parse (args.at "0") = .ok request)
    (hfilter : request.predicate.databaseFilter = .ok (column, key))
    {fuel : Nat} {c : Option Nat} {pages : List (Keyset.Page Record)}
    (hc : ∀ n ∈ c, 0 < n ∧ n < 2 ^ 63)
    (hwalk : Keyset.walk Record.sequence request.limit (records.filter request.predicate.holds)
      fuel c = some pages) :
    ∃ replies, follow fromStr db args fuel (cursorText c) = some (.ok replies) ∧
      List.Forall₂ (Shows request (records.filter request.predicate.holds)) pages replies := by
  have hnodup : ((records.filter request.predicate.holds).map Record.sequence).Nodup :=
    h.nodup.sublist (List.filter_sublist.map _)
  induction fuel generalizing c pages with
  | zero => cases hwalk
  | succ fuel ih =>
      obtain ⟨hparse, hcursor⟩ := Request.parse_cursor hargs hc
      have hbefore : c.getD 0 < 2 ^ 63 := by
        cases c with
        | none => exact Nat.two_pow_pos 63
        | some n => exact (hc n rfl).2
      obtain ⟨reply, hreply, hshows, hnext⟩ := query_shows h hmeta hparse hfilter hbefore
      rw [hcursor] at hshows hnext
      have hshows : Shows request (records.filter request.predicate.holds)
          (Keyset.page Record.sequence request.limit (records.filter request.predicate.holds) c)
          reply := ⟨hshows.events, hshows.matchedTotal, hshows.eligibleTotal, hshows.returned⟩
      rw [Keyset.walk] at hwalk
      rw [follow, hreply]
      dsimp only at hwalk hnext ⊢
      split at hwalk
      next hlast =>
        cases hwalk
        rw [hlast, cursorText] at hnext
        rw [if_pos hnext]
        exact ⟨[reply], rfl, .cons hshows .nil⟩
      next n hsome =>
        obtain ⟨rest, hrest, rfl⟩ := Option.map_eq_some_iff.mp hwalk
        obtain ⟨⟨r, hr, hrn⟩, s, -, hlt⟩ := Keyset.exists_lt_of_next hnodup hsome
        have hn : 0 < n ∧ n < 2 ^ 63 :=
          ⟨by omega, hrn ▸ h.sequence_lt r (List.mem_of_mem_filter hr)⟩
        obtain ⟨replies, hreplies, hall⟩ :=
          ih (c := some n) (fun m hm => Option.mem_some.mp hm ▸ hn) hrest
        rw [hsome] at hnext
        have hmore : reply.nextBefore ≠ "0" := fun heq =>
          absurd (eq_zero_of_toString (hn.2.trans (by decide)) (hnext.symm.trans heq))
            (Nat.ne_of_gt hn.1)
        rw [if_neg hmore, hnext, hreplies]
        exact ⟨reply :: replies, rfl, .cons hshows hall⟩

/-- More fuel changes nothing. -/
theorem follow_mono {fromStr : String → Option Json} {db : Database} {args : Args}
    {fuel : Nat} {before : String} {result : Except HubError (List Reply)}
    (h : follow fromStr db args fuel before = some result) {fuel' : Nat} (hle : fuel ≤ fuel') :
    follow fromStr db args fuel' before = some result := by
  induction fuel generalizing before result fuel' with
  | zero => cases h
  | succ fuel ih =>
      obtain ⟨fuel', rfl⟩ := Nat.exists_eq_add_of_le' (Nat.lt_of_lt_of_le fuel.succ_pos hle)
      rw [follow] at h ⊢
      split at h
      next => exact h
      next =>
        split at h
        next hzero =>
          rw [if_pos hzero]
          exact h
        next hmore =>
          rw [if_neg hmore]
          obtain ⟨rest, hrest, rfl⟩ := Option.map_eq_some_iff.mp h
          rw [ih hrest (by omega)]
          rfl

/-- The replies are exactly the records that match, cut into pages. -/
structure Exact (request : Request) (matching : List Record) (replies : List Reply)
    (pages : List (List Record)) : Prop where
  events : replies.map Reply.events =
    pages.map (List.map (projectRecord request.payload request.fields))
  perm : pages.flatten.Perm matching
  ascending : ∀ p ∈ pages, p.Pairwise fun r s => r.sequence < s.sequence
  descending : pages.Pairwise fun p q => ∀ r ∈ p, ∀ s ∈ q, s.sequence < r.sequence
  matchedTotal : ∀ reply ∈ replies, reply.matchedTotal = matching.length
  returned : ∀ reply ∈ replies, reply.returned = reply.events.length
  first : replies.head?.map Reply.eligibleTotal = some matching.length
  decreasing : replies.IsChain fun p q => q.eligibleTotal + p.returned = p.eligibleTotal
  last : ∀ reply ∈ replies.getLast?, reply.eligibleTotal = reply.returned

theorem map_eq_of_forall₂ {α β γ : Type} {R : α → β → Prop} {f : α → γ} {g : β → γ}
    {l : List α} {m : List β} (h : List.Forall₂ R l m) (hfg : ∀ a b, R a b → g b = f a) :
    m.map g = l.map f := by
  induction h with
  | nil => rfl
  | cons hab _ ih => rw [List.map_cons, List.map_cons, hfg _ _ hab, ih]

theorem exists_rel_of_mem {α β : Type} {R : α → β → Prop} {l : List α} {m : List β} {b : β}
    (h : List.Forall₂ R l m) (hb : b ∈ m) : ∃ a, R a b := by
  induction h with
  | nil => cases hb
  | cons hab _ ih =>
      obtain rfl | hb := List.mem_cons.mp hb
      · exact ⟨_, hab⟩
      · exact ih hb

theorem Exact.of_covers {request : Request} {matching : List Record} {replies : List Reply}
    {pages : List (Keyset.Page Record)} (hnodup : (matching.map Record.sequence).Nodup)
    (hcovers : Keyset.Covers Record.sequence matching pages)
    (hshows : List.Forall₂ (Shows request matching) pages replies) :
    Exact request matching replies (pages.map fun p => p.rows.reverse) := by
  have hcounts : replies.map (fun r => (r.eligibleTotal, r.returned)) =
      pages.map fun p => (p.eligible, p.rows.length) :=
    map_eq_of_forall₂ hshows fun p r h => by rw [h.eligibleTotal, h.returned]
  have hsorted : (pages.flatMap Keyset.Page.rows).Pairwise fun r s => s.sequence < r.sequence :=
    hcovers.rows_eq ▸ Keyset.pairwise_newestFirst hnodup
  obtain ⟨hpages, hbetween⟩ := List.pairwise_flatMap.mp hsorted
  refine ⟨?_, ?_, ?_, ?_, fun r hr => ?_, fun r hr => ?_, ?_, ?_, fun r hr => ?_⟩
  · rw [List.map_map]
    exact map_eq_of_forall₂ hshows fun p r h => h.events
  · rw [← List.flatMap_def]
    refine (List.Perm.flatMap_left pages fun p _ => p.rows.reverse_perm).trans ?_
    rw [hcovers.rows_eq]
    exact Keyset.newestFirst_perm matching
  · intro p hp
    obtain ⟨q, hq, rfl⟩ := List.mem_map.mp hp
    exact List.pairwise_reverse.mpr (hpages q hq)
  · refine List.pairwise_map.mpr (hbetween.imp fun hpq r hr s hs => ?_)
    exact hpq r (List.mem_reverse.mp hr) s (List.mem_reverse.mp hs)
  · obtain ⟨p, hp⟩ := exists_rel_of_mem hshows hr
    exact hp.matchedTotal
  · obtain ⟨p, hp⟩ := exists_rel_of_mem hshows hr
    rw [hp.returned, hp.events, List.length_map, List.length_reverse]
  · have hhead := congrArg (fun l => l.head?.map Prod.fst) hcounts
    simp only [List.head?_map, Option.map_map, Function.comp_def] at hhead
    exact hhead.trans hcovers.head
  · have hchain : (replies.map fun r => (r.eligibleTotal, r.returned)).IsChain
        fun p q => q.1 + p.2 = p.1 := by
      rw [hcounts, List.isChain_map]
      exact hcovers.chain
    exact (List.isChain_map _).mp hchain
  · have hlast := congrArg List.getLast? hcounts
    rw [List.getLast?_map, List.getLast?_map, Option.mem_def.mp hr] at hlast
    obtain ⟨p, hp, heq⟩ := Option.map_eq_some_iff.mp hlast.symm
    have hcount := hcovers.last p hp
    simp only [Prod.mk.injEq] at heq
    rw [← heq.1, ← heq.2, hcount]

/-! ## The trace -/

/-- The text of a metadata blob that `from_slice` and `from_utf8` accept. -/
def checkedText (fromStr : String → Option Json) (metadata : List UInt8) : Option String :=
  (String.fromUTF8? ⟨metadata.toArray⟩).filter fun text => (fromStr text).isSome

/-- The metadata of an accepted file can be read again. -/
theorem isSome_metadata {fromStr : String → Option Json} {file body : List UInt8} {text : String}
    (hempty : (fromStr "\x7b\x7d").isSome)
    (h : openTrace (checkedText fromStr) file = .ok (text, body)) : (fromStr text).isSome := by
  have hjson : ∃ raw, metadataJson (checkedText fromStr) raw = some text := by
    unfold openTrace at h
    dsimp only at h
    -- the five checks before the metadata is read
    iterate 5
      split at h
      next => cases h
    split at h
    next text' hraw =>
      cases h
      exact ⟨_, hraw⟩
    next => cases h
  obtain ⟨raw, hraw⟩ := hjson
  rw [metadataJson] at hraw
  split at hraw
  · cases hraw
    exact hempty
  · exact (Option.filter_eq_some_iff.mp hraw).2

/-- No imported record has a sequence number beyond the range of the database. -/
theorem filter_holds_of_large {db : Database} {records : List Record} {n : UInt64}
    (h : Imported db records) (hn : 2 ^ 63 ≤ n.toNat) :
    records.filter (Predicate.sequence n).holds = [] := by
  refine List.filter_eq_nil_iff.mpr fun r hr heq => ?_
  have hlt := h.sequence_lt r hr
  have hseq : r.sequence = n.toNat := by simpa [Predicate.holds] using heq
  omega

/-- The arguments of a query without options. -/
def plainArgs (index key limit : String) : Args
  | "index" => some (.string index)
  | "key" => some (.string key)
  | "limit" => some (.string limit)
  | _ => none

/-- A parser that reads every text as an object. -/
def objects (_ : String) : Option Json := some (.object [])

/-- Three markers, one with the sequence number zero. -/
def markers : List Record :=
  [7, 0, 5].map fun n => ⟨n, kindMarker, 3, 0, #v[1, 0, 0, 0, 0, 0, 0, 0]⟩

/-- The pages of a query, from the first reply to the one whose `next_before` is "0", are
exactly the records of the trace that match, in every accepted trace and for every predicate and
limit.  A sequence number beyond the range of the database is refused, and no record has it. -/
theorem pages_exact {fromStr : String → Option Json} (hempty : (fromStr "\x7b\x7d").isSome)
    {file : List UInt8} {db : Database}
    (hdb : buildDatabase (checkedText fromStr) file = .ok db) {args : Args} {request : Request}
    (hargs : Request.parse (args.at "0") = .ok request) :
    ((∀ n, request.predicate = .sequence n → n.toNat < 2 ^ 63) →
      ∃ replies pages, Exact request
          ((traceRecords (checkedText fromStr) file).filter request.predicate.holds)
          replies pages ∧
        ∀ fuel, ((traceRecords (checkedText fromStr) file).filter
            request.predicate.holds).length < fuel →
          follow fromStr db args fuel "0" = some (.ok replies)) ∧
    (∀ n, request.predicate = .sequence n → 2 ^ 63 ≤ n.toNat →
      (traceRecords (checkedText fromStr) file).filter request.predicate.holds = [] ∧
        query fromStr db (args.at "0") =
          .error (.validation "Trace sequence is out of range")) := by
  obtain ⟨himported, body, hopen⟩ := buildDatabase_imported hdb
  have hmeta := isSome_metadata hempty hopen
  refine ⟨fun hrange => ?_, fun n hn hlarge => ?_⟩
  · obtain ⟨column, key, hfilter⟩ : ∃ column key,
        request.predicate.databaseFilter = .ok (column, key) := by
      cases hp : request.predicate with
      | kind k => exact ⟨_, _, rfl⟩
      | address a => exact ⟨_, _, rfl⟩
      | thread t => exact ⟨_, _, rfl⟩
      | sequence n => exact ⟨_, _, if_pos (hrange n hp)⟩
      | memory a => exact ⟨_, _, rfl⟩
    have hnodup := himported.nodup.sublist
      ((List.filter_sublist (p := request.predicate.holds)).map Record.sequence)
    obtain ⟨pages, hcovers, hwalk⟩ :=
      Keyset.exists_walk request.one_le_limit hnodup (none : Option Nat)
    obtain ⟨replies, hreplies, hshows⟩ := follow_shows himported hmeta hargs hfilter
      (c := none) (fun _ h => nomatch h) (hwalk _ (Nat.lt_succ_self _))
    exact ⟨replies, _, .of_covers hnodup hcovers hshows,
      fun fuel hfuel => follow_mono hreplies hfuel⟩
  · rw [hn]
    refine ⟨filter_holds_of_large himported hlarge, ?_⟩
    rw [query, hargs]
    simp only [bind, Except.bind, queryDatabase, hn, Predicate.databaseFilter,
      if_neg (Nat.not_lt.mpr hlarge)]

/-- Two pages show the markers. -/
theorem pages_exact_markers :
    ∃ replies pages,
      Exact ⟨"kind", "marker", 2, 0, false, [], .kind 11, false, by decide, by decide⟩
        markers replies pages ∧
      ∀ fuel, 3 < fuel → follow objects
        ⟨markers.map toRow, [], 3, 0, "\x7b\x7d"⟩ (plainArgs "kind" "marker" "2") fuel "0" =
          some (.ok replies) := by
  have hdb : buildDatabase (checkedText objects)
      (writeHeader [] ++ (markers.map Record.pack).flatten) =
        .ok ⟨markers.map toRow, [], 3, 0, "\x7b\x7d"⟩ := by decide +kernel
  have hargs : Request.parse ((plainArgs "kind" "marker" "2").at "0") =
      .ok ⟨"kind", "marker", 2, 0, false, [], .kind 11, false, by decide, by decide⟩ := by
    decide +kernel
  have hrecords : (traceRecords (checkedText objects)
      (writeHeader [] ++ (markers.map Record.pack).flatten)).filter (Predicate.kind 11).holds =
        markers := by decide +kernel
  obtain ⟨replies, pages, hexact, hfollow⟩ := (pages_exact rfl hdb hargs).1 nofun
  rw [hrecords] at hexact hfollow
  exact ⟨replies, pages, hexact, hfollow⟩

/-- No page answers the query for the sequence number `2 ^ 63`, not even in an empty trace. -/
theorem large_sequence_refused :
    buildDatabase (checkedText objects) (writeHeader []) = .ok ⟨[], [], 0, 0, "\x7b\x7d"⟩ ∧
      Predicate.parse "sequence" "9223372036854775808" = .ok (.sequence (2 ^ 63)) ∧
      ¬∃ fuel replies, follow objects ⟨[], [], 0, 0, "\x7b\x7d"⟩
        (plainArgs "sequence" "9223372036854775808" "1") fuel "0" = some (.ok replies) := by
  refine ⟨by decide +kernel, by decide +kernel, ?_⟩
  rintro ⟨fuel, replies, h⟩
  have hquery : query objects ⟨[], [], 0, 0, "\x7b\x7d"⟩
      ((plainArgs "sequence" "9223372036854775808" "1").at "0") =
        .error (.validation "Trace sequence is out of range") := by rfl
  cases fuel with
  | zero => cases h
  | succ fuel =>
      rw [follow, hquery] at h
      cases h

end PinBridge.TraceQuery
