import Mathlib.Data.UInt
import PinBridge.Trace.Import
import PinBridge.Trace.Stream
import PinBridge.HookQuery.Event
import PinBridge.Hooks.Prototype

/-!
# Queries of the trace database

`query` of `trace_query.rs` reads one page of the records that match a predicate, the newest
first.  `before` is a sequence number that the page stays below, and zero stands for no such
number.  The reply carries the number to go on with in `next_before`, and "0" when nothing is
left.

The addresses are 64-bit words and the columns signed, so both the import and the query convert
them (`asI64`), and `row_to_record` converts them back (`asU64`).

The arguments are the map of a JSON object.  The database is the one that `ensure_database`
returns, the paths and the size of the artifact are left out of the reply, and its numbers are
kept as numbers where the source writes them in decimal.  The parser of `serde_json` is a
parameter, the errors of SQLite are left out.
-/

namespace PinBridge.TraceQuery

open HookQuery (fromStrRadix parseValueU64)
open Hooks (trim lower isWhitespace)

/-- The `HubError`s of a query. -/
inductive HubError where
  | validation (text : String)
  | internal (text : String)
deriving DecidableEq, Repr

/-- `Map<String, Value>`. -/
abbrev Args : Type := String → Option Json

/-! ## Arguments -/

/-- `required_string`. -/
def requiredString (args : Args) (name : String) : Except HubError String :=
  match (args name).bind Json.asStr with
  | some text => .ok text
  | none => .error (.validation (name ++ " must be string"))

/-- `as_bool`, false when there is none. -/
def boolean (args : Args) (name : String) : Bool :=
  match args name with
  | some (.bool b) => b
  | _ => false

/-- `parse_integer`. -/
def parseInteger (value : String) : Except HubError Nat :=
  let value := trim value.toList
  let parsed := match value with
    | '0' :: 'x' :: hex => fromStrRadix 16 hex
    | '0' :: 'X' :: hex => fromStrRadix 16 hex
    | digits => fromStrRadix 10 digits
  match parsed with
  | some n => .ok n
  | none => .error (.validation ("invalid Trace integer: " ++ String.ofList value))

/-- `parse_kind`. -/
def parseKind (value : String) : Except HubError UInt32 :=
  match String.ofList (lower (trim value.toList)) with
  | "memory_plain" => .ok 2
  | "exec_plain" => .ok 3
  | "branch" | "branch_edge" => .ok 4
  | "syscall" => .ok 5
  | "exception" | "context_change" => .ok 6
  | "exec" | "exec_bytes" => .ok 9
  | "memory" | "mem_value" => .ok 10
  | "marker" => .ok 11
  | "repeat" => .ok 12
  | "registers" | "reg_snapshot" => .ok 13
  | _ => do
      let id ← parseInteger value
      if id < 2 ^ 32 then .ok (UInt32.ofNat id)
      else .error (.validation "Trace kind id is out of range")

/-- `Predicate`. -/
inductive Predicate where
  | kind (kind : UInt32)
  | address (address : UInt64)
  | thread (thread : UInt32)
  | sequence (sequence : UInt64)
  | memory (address : UInt64)
deriving DecidableEq, Repr

/-- `Predicate::parse`. -/
def Predicate.parse (index key : String) : Except HubError Predicate :=
  match index with
  | "kind" => return .kind (← parseKind key)
  | "address" => return .address (UInt64.ofNat (← parseInteger key))
  | "thread" => do
      let thread ← parseInteger key
      if thread < 2 ^ 32 then .ok (.thread (UInt32.ofNat thread))
      else .error (.validation "Trace thread id is out of range")
  | "sequence" => return .sequence (UInt64.ofNat (← parseInteger key))
  | "memory" => return .memory (UInt64.ofNat (← parseInteger key))
  | _ => .error (.validation "Trace index must be kind, address, thread, sequence, or memory")

/-- `ALLOWED` of `parse_fields`. -/
def allowedFields : List String :=
  ["sequence", "kind", "kind_id", "thread_id", "address", "size", "bytes", "memory", "access",
    "value", "target", "taken", "number", "phase", "arguments", "return_value", "errno", "reason",
    "info", "context_ip", "tag", "marker_value", "frame", "reg_id", "width", "part",
    "repeat_count", "original_kind", "args"]

/-- `parse_fields`. -/
def parseFields (args : Args) : Except HubError (List String) :=
  match args "fields" with
  | some (.array values) =>
      if 32 < values.length then
        .error (.validation "Trace field projection exceeds 32 entries")
      else values.mapM fun value =>
        match value.asStr with
        | none => .error (.validation "Trace projected field must be a string")
        | some field =>
            if field ∈ allowedFields then .ok field
            else .error (.validation ("unsupported Trace projected field: " ++ field))
  | _ => .ok []

/-- The arguments of `query` once they are read. -/
structure Request where
  index : String
  key : String
  limit : Nat
  before : Nat
  payload : Bool
  fields : List String
  predicate : Predicate
  includeMetadata : Bool
  one_le_limit : 1 ≤ limit
  limit_le : limit ≤ 256
deriving Repr

instance : DecidableEq Request := fun a b =>
  decidable_of_iff (a.index = b.index ∧ a.key = b.key ∧ a.limit = b.limit ∧ a.before = b.before ∧
      a.payload = b.payload ∧ a.fields = b.fields ∧ a.predicate = b.predicate ∧
      a.includeMetadata = b.includeMetadata) (by
    cases a
    cases b
    simp)

/-- How `query` reads its arguments. -/
def Request.parse (args : Args) : Except HubError Request := do
  let index ← requiredString args "index"
  let key ← requiredString args "key"
  let text ← requiredString args "limit"
  match fromStrRadix 10 text.toList with
  | none => .error (.validation "Trace index limit must be decimal")
  | some limit =>
      if hlimit : 1 ≤ limit ∧ limit ≤ 256 then
        let before ← match (args "before").bind Json.asStr with
          | some text => parseInteger text
          | none => .ok 0
        let payload := boolean args "payload"
        let fields ← parseFields args
        let predicate ← Predicate.parse index key
        let includeMetadata := boolean args "metadata"
        return ⟨index, key, limit, before, payload, fields, predicate, includeMetadata,
          hlimit.1, hlimit.2⟩
      else .error (.validation "Trace index limit must be 1..256")

/-! ## The database -/

/-- The column that the `WHERE` clause of `database_filter` compares. -/
inductive Column where
  | kind
  | address
  | threadId
  | sequence
  | memoryAddress
deriving DecidableEq, Repr

/-- The rows of the `FROM` clause, with the value of the column.  Table `memory_index` is joined
with `events` by the sequence number. -/
def Column.rows (db : Database) : Column → List (EventRow × Int)
  | .kind => db.events.map fun e => (e, e.kind)
  | .address => db.events.map fun e => (e, e.address)
  | .threadId => db.events.map fun e => (e, e.threadId)
  | .sequence => db.events.map fun e => (e, e.sequence)
  | .memoryAddress => db.memoryIndex.flatMap fun m =>
      (db.events.filter fun e => e.sequence = m.sequence).map fun e => (e, m.memoryAddress)

/-- `database_filter`: the column and the value it is compared with. -/
def Predicate.databaseFilter : Predicate → Except HubError (Column × Int)
  | .kind k => .ok (.kind, k.toNat)
  | .address a => .ok (.address, asI64 a.toNat)
  | .thread t => .ok (.threadId, t.toNat)
  | .sequence n =>
      if n.toNat < 2 ^ 63 then .ok (.sequence, n.toNat)
      else .error (.validation "Trace sequence is out of range")
  | .memory a => .ok (.memoryAddress, asI64 a.toNat)

/-- `as u64`. -/
def asU64 (n : Int) : Nat := (n % 2 ^ 64).toNat

/-- `row_to_record`.  A sequence number is never negative here. -/
def rowToRecord (row : EventRow) : Option Record :=
  if row.payload.length ≠ 64 ∨ ¬(0 ≤ row.kind ∧ row.kind < 2 ^ 32) ∨
      ¬(0 ≤ row.threadId ∧ row.threadId < 2 ^ 32) then none
  else some ⟨row.sequence, row.kind.toNat, row.threadId.toNat, asU64 row.address,
    Vector.ofFn fun i => LittleEndian.decode ((row.payload.drop (i * 8)).take 8)⟩

/-- The rows that match, the `WHERE` clause of all three statements. -/
def matchedRows (db : Database) (column : Column) (key : Int) : List EventRow :=
  ((column.rows db).filter fun row => row.2 = key).map Prod.fst

/-- The position of the page as a parameter of the statements, none for zero. -/
def pagePosition (before : Nat) : Except HubError (Option Nat) :=
  if before = 0 then .ok none
  else if before < 2 ^ 63 then .ok (some before)
  else .error (.validation "Trace page position is out of range")

/-- `AND e.sequence < ?2`, when there is a position. -/
def belowPosition (position : Option Nat) (matched : List EventRow) : List EventRow :=
  match position with
  | some before => matched.filter fun e => e.sequence < before
  | none => matched

/-- `ORDER BY e.sequence DESC LIMIT ?`. -/
def newestRows (limit : Nat) (eligible : List EventRow) : List EventRow :=
  (eligible.mergeSort fun a b => b.sequence ≤ a.sequence).take limit

/-- `query_database`: the number of records that match, the number of those that are eligible
for the page, and the page, newest first. -/
def queryDatabase (db : Database) (predicate : Predicate) (before limit : Nat) :
    Except HubError (Nat × Nat × List Record) := do
  let (column, key) ← predicate.databaseFilter
  let matched := matchedRows db column key
  let position ← pagePosition before
  let eligible := belowPosition position matched
  match (newestRows limit eligible).mapM rowToRecord with
  | some records => .ok (matched.length, eligible.length, records)
  | none => .error (.internal "read Trace records")

/-! ## Rows of the reply -/

/-- `json!(n.to_string())`. -/
def decimal (n : Nat) : Json := .string (toString n)

/-- `format!("0x{n:x}")`. -/
def hex (n : Nat) : Json := .string ("0x" ++ String.ofList (Nat.toDigits 16 n))

/-- `format!("{n:016x}")`. -/
def hex16 (n : Nat) : String := String.ofList ((Nat.toDigits 16 n).leftpad 16 '0')

/-- `kind_name`. -/
def kindName : Nat → String
  | 1 => "hook_regs"
  | 2 => "memory_plain"
  | 3 => "exec_plain"
  | 4 => "branch"
  | 5 => "syscall"
  | 6 => "exception"
  | 7 => "module_load"
  | 8 => "module_unload"
  | 9 => "exec"
  | 10 => "memory"
  | 11 => "marker"
  | 12 => "repeat"
  | 13 => "registers"
  | kind => "unknown_" ++ toString kind

/-- What `add_payload` inserts. -/
def payloadFields (r : Record) : List (String × Json) :=
  match r.kind with
  | 2 | 10 =>
      [("memory", hex r.arg0), ("size", decimal r.arg1),
        ("access", .string (match r.arg2 with
          | 0 => "read"
          | 1 => "write"
          | 2 => "read2"
          | _ => "unknown"))] ++ if r.kind = 10 then [("value", hex r.arg3)] else []
  | 3 => [("size", decimal r.arg0)]
  | 4 => [("target", hex r.arg0), ("taken", .bool (r.arg1 ≠ 0))]
  | 5 =>
      [("number", decimal r.arg0), ("phase", .string (if r.arg1 ≠ 0 then "exit" else "entry"))] ++
        if r.arg1 ≠ 0 then [("return_value", hex r.arg3), ("errno", hex r.arg4)]
        else [("arguments", .array ((r.args.toList.drop 2).map hex))]
  | 6 => [("reason", decimal r.arg0), ("info", hex r.arg1), ("context_ip", hex r.arg2)]
  | 9 =>
      let bytes := LittleEndian.encode 8 r.arg1 ++ LittleEndian.encode 8 r.arg2
      [("size", decimal r.arg0), ("bytes", .string (hexText (bytes.take (min r.arg0 15))))]
  | 11 => [("tag", decimal r.arg0), ("marker_value", hex r.arg1)]
  | 12 => [("repeat_count", decimal r.arg0),
      ("original_kind", .string (kindName (r.arg1 % 2 ^ 32)))]
  | 13 => [("frame", decimal r.arg7), ("reg_id", decimal r.arg0), ("width", decimal r.arg3),
      ("part", decimal r.arg4), ("value", .string ("0x" ++ hex16 r.arg2 ++ hex16 r.arg1))]
  | _ => [("args", .array (r.args.toList.map hex))]

/-- `add_payload`. -/
def addPayload (row : List (String × Json)) (r : Record) : List (String × Json) :=
  row.filter (fun member => member.1 ∉ (payloadFields r).map Prod.fst) ++ payloadFields r

/-- `project_record`. -/
def projectRecord (payload : Bool) (fields : List String) (r : Record) : Json :=
  let row := [("sequence", decimal r.sequence), ("kind", .string (kindName r.kind)),
    ("kind_id", decimal r.kind), ("thread_id", decimal r.threadId), ("address", hex r.address)]
  let row := if payload then addPayload row r else row
  if fields = [] then
    .object (if payload then row else row.filter fun member => member.1 ≠ "kind_id")
  else
    let row := if fields.any fun field => (row.lookup field).isNone then addPayload row r else row
    .object (fields.eraseDups.filterMap fun field =>
      (row.lookup field).map fun value => (field, value))

/-! ## The query -/

/-- The reply of `query`. -/
structure Reply where
  index : String
  key : String
  before : Nat
  limit : Nat
  payload : Bool
  physicalRecords : Nat
  matchedTotal : Nat
  eligibleTotal : Nat
  returned : Nat
  hasOlder : Bool
  nextBefore : String
  truncatedTailBytes : Nat
  metadata : Option Json
  events : List Json

/-- The metadata of the reply, when it was asked for. -/
def replyMetadata (fromStr : String → Option Json) (includeMetadata : Bool) (text : String) :
    Except HubError (Option Json) :=
  if includeMetadata then
    match fromStr text with
    | some value => .ok (some value)
    | none => .error (.validation "invalid Trace metadata")
  else .ok none

/-- `query`. -/
def query (fromStr : String → Option Json) (database : Database) (args : Args) :
    Except HubError Reply := do
  let request ← Request.parse args
  let (matchedTotal, eligibleTotal, records) ←
    queryDatabase database request.predicate request.before request.limit
  let records := records.reverse
  let firstSequence := (records.head?.map Record.sequence).getD 0
  let events := records.map (projectRecord request.payload request.fields)
  let hasOlder := decide (events.length < eligibleTotal)
  let nextBefore := if hasOlder then toString firstSequence else "0"
  let metadata ← replyMetadata fromStr request.includeMetadata database.metadataJson
  return ⟨request.index, request.key, request.before, request.limit, request.payload,
    database.physicalRecords, matchedTotal, eligibleTotal, events.length, hasOlder, nextBefore,
    database.truncatedTail, metadata, events⟩

/-- The arguments with another position. -/
def Args.at (args : Args) (before : String) : Args :=
  Function.update args "before" (some (.string before))

/-- The replies from a position on, each asked for with the `next_before` of the one before it,
until that is "0".  There are none when the fuel runs out. -/
def follow (fromStr : String → Option Json) (database : Database) (args : Args) :
    Nat → String → Option (Except HubError (List Reply))
  | 0, _ => none
  | fuel + 1, before =>
      match query fromStr database (args.at before) with
      | .error e => some (.error e)
      | .ok reply =>
          if reply.nextBefore = "0" then some (.ok [reply])
          else (follow fromStr database args fuel reply.nextBefore).map
            fun replies => replies.map (reply :: ·)

end PinBridge.TraceQuery
