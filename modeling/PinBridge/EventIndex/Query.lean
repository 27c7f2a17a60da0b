import PinBridge.HookQuery.Event
import PinBridge.HookQuery.Wildcard
import PinBridge.Hooks.Prototype
import PinBridge.Lanes.Paging
import PinBridge.Lib.Sizes

/-!
# Indexed event queries

The Hub looks up the events of a hook or syscall lane by an index: an API name, a syscall number, an
address or a thread.  It reads the lane backwards in windows of 4096 events before a sequence
number, takes the events that match until it has as many as it was asked for, and returns where the
next query goes on (`eventIndexQuery`).  It stops for good when a window is empty, when it has seen
the first event, or when it has seen as many events as a lane keeps.

A window is read by the agent (`handleEventsNewest`): it reads the number of events without a lock
and then the ring with it.  If the lock stays taken, the window is empty.

The events are JSON objects.  The names of addresses and the signatures of functions are looked up
by functions that do not change.
-/

namespace PinBridge.EventIndex

open BoundedLog (Ring)
open Lanes (HookLogRecord pageInto)
open Hooks (trim lower)
open scoped Sizes

/-! ## The agent -/

/-- `HOOK_EVENT_CAPACITY`. -/
def hookEventCapacity : ℕ+ := 32768

/-- A reply to `HOOK_EVENTS_NEWEST` or `SYSCALL_EVENTS_NEWEST`. -/
structure Window where
  total : Nat
  dropped : Nat
  next : Nat
  events : List HookLogRecord

/-- What a handler finds: the counters, which it reads without the lock, and the ring with it. -/
structure Moment where
  /-- `total()`. -/
  total : Nat
  /-- `dropped()`. -/
  dropped : Nat
  ring : Ring HookLogRecord hookEventCapacity
  /-- The lock stays taken. -/
  busy : Bool

/-- `handle_hook_events_newest` and `handle_syscall_events_newest`. -/
def handleEventsNewest (m : Moment) (limit requestedBefore : Nat) : Window :=
  let limit := max 1 (min limit 4096)
  let before := if requestedBefore = 0 then 0 else min requestedBefore (m.total + 1)
  let after := if before = 0 then m.total - limit else before - (limit + 1)
  let (events, liveTotal) :=
    if m.busy then ([], m.total) else ((pageInto m.ring after limit).2, m.ring.total)
  let events := if before ≠ 0 then events.filter (·.sequence.toNat < before) else events
  ⟨liveTotal, m.dropped, (events.getLast?.map fun event => event.sequence.toNat).getD after, events⟩

/-! ## Events -/

/-- `dec`. -/
def dec (n : Nat) : Json := .string (toString n)

/-- `hex`. -/
def hex (n : Nat) : Json := .string ("0x" ++ String.ofList (Nat.toDigits 16 n))

/-- A value or null. -/
def orNull (value : Option Json) : Json := value.getD .null

/-- An event of the hook lane (`hook_monitor`).  `resolve` gives the module and the symbol of an
address, which may be empty. -/
def hookEvent (resolve : UInt64 → Option (String × String)) (event : HookLogRecord) : Json :=
  let symbol := resolve event.address
  let functionHook := event.flags &&& 2 ≠ 0
  .object [
    ("sequence", dec event.sequence.toNat),
    ("timestamp_unix_ns", dec event.timestampUnixNs.toNat),
    ("kind", .string (if ¬functionHook then "hit" else if event.kind = 14 then "return"
      else "entry")),
    ("hook_type", .string (if functionHook then "api" else "instruction")),
    ("thread_id", dec event.threadId.toNat),
    ("address", hex event.address.toNat),
    ("module", orNull (symbol.bind fun s => if s.1 ≠ "" then some (.string s.1) else none)),
    ("symbol", orNull (symbol.bind fun s => if s.2 ≠ "" then some (.string s.2) else none)),
    ("display", orNull (symbol.bind fun s =>
      if s.2 ≠ "" then some (.string (s.1 ++ "!" ++ s.2)) else none)),
    ("signature_capture", .bool (event.flags &&& 1 ≠ 0)),
    ("argument_count", dec event.argumentCount.toNat),
    ("arguments", .array ((event.arguments.toList.take event.argumentCount.toNat).map
      fun value => hex value.toNat)),
    ("return_value", orNull (if functionHook ∧ event.kind = 14 then
      some (hex (event.arguments.get 0).toNat) else none))]

/-- An event of the syscall lane (`syscall_monitor_window`). -/
def syscallEvent (event : HookLogRecord) : Json :=
  let entry := event.arguments.get 1 = 0
  .object [
    ("sequence", dec event.sequence.toNat),
    ("timestamp_unix_ns", dec event.timestampUnixNs.toNat),
    ("generation", dec (event.arguments.get 8).toNat),
    ("thread_id", dec event.threadId.toNat),
    ("number", hex (event.arguments.get 0).toNat),
    ("number_decimal", dec (event.arguments.get 0).toNat),
    ("phase", .string (if entry then "entry" else "exit")),
    ("kind", .string (if entry then "entry" else "return")),
    ("hook_type", .string "syscall"),
    ("arguments", .array (if entry then
      ((event.arguments.toList.drop 2).take 6).map fun value => hex value.toNat else [])),
    ("return_value", orNull (if entry then none else some (hex (event.arguments.get 3).toNat))),
    ("errno", orNull (if entry then none else some (hex (event.arguments.get 4).toNat)))]

/-- What the Hub has for a function with a known prototype. -/
structure Signature where
  function : String
  /-- `to_json`, for a pointer width. -/
  toJson : Nat → Json
  /-- `typed_return`. -/
  typedReturn : Option Json → Nat → Json
  /-- `typed_arguments`. -/
  typedArguments : List Json → Nat → List Json

/-- `parse_u64`. -/
def parseU64 (text : String) : Option Nat :=
  match trim text.toList with
  | '0' :: 'x' :: hex => HookQuery.fromStrRadix 16 hex
  | '0' :: 'X' :: hex => HookQuery.fromStrRadix 16 hex
  | digits => HookQuery.fromStrRadix 10 digits

/-- `parse_value_u64`. -/
def parseValueU64 (value : Json) : Option Nat := value.asStr.bind parseU64

/-- What the Hub adds to an event of the hook lane (`hook_monitor`). -/
def decorate (signatures : Nat → Option Signature) (pointerWidth : Nat) (event : Json) : Json :=
  match (event.get "address").bind parseValueU64 with
  | none => event
  | some address =>
      let signatureCapture := ((event.get "signature_capture").bind Json.asBool).getD false
      let functionHook := decide ((event.get "hook_type").bind Json.asStr = some "api")
      let kind := ((event.get "kind").bind Json.asStr).getD "entry"
      let rawArguments := ((event.get "arguments").bind Json.asArray).getD []
      let rawReturn := event.get "return_value"
      match if functionHook then signatures address else none with
      | some signature =>
          let event :=
            if ((event.get "display").bind Json.asStr).isNone then
              event.insert "display" (.string signature.function)
            else event
          let event := event.insert "symbol" (.string signature.function)
          let event := event.insert "signature" (signature.toJson pointerWidth)
          let event := event.insert "signature_status" (.string "resolved")
          if signatureCapture then
            let event := event.insert "capture_status" (.string "signature")
            if kind = "return" then
              event.insert "typed_return" (signature.typedReturn rawReturn pointerWidth)
            else
              event.insert "typed_arguments"
                (.array (signature.typedArguments rawArguments pointerWidth))
          else event.insert "capture_status" (.string "pre_signature_raw_abi")
      | none =>
          let event := event.insert "signature_status"
            (.string (if functionHook then "missing" else "not_applicable"))
          event.insert "capture_status"
            (.string (if functionHook then "raw_abi" else "instruction"))

/-! ## Arguments -/

/-- The indexes. -/
inductive Index where
  | api
  | syscall
  | address
  | thread
  deriving DecidableEq, Repr

/-- The lanes. -/
inductive Source where
  | hook
  | syscall
  deriving DecidableEq, Repr

/-- A query whose arguments have been checked. -/
structure Query where
  index : Index
  key : String
  numericKey : Option Nat
  module : Option String
  source : Source
  phases : List String
  payload : Bool
  fields : List String
  limit : Nat
  limit_pos : 0 < limit
  limit_le : limit ≤ 256
  deriving DecidableEq

/-- `Map<String, Value>`. -/
abbrev Args : Type := String → Option Json

/-- An error of the tool, `HubError::Validation`. -/
abbrev Validation : Type := String

/-- `req`. -/
def req (args : Args) (name : String) : Except Validation String :=
  match (args name).bind Json.asStr with
  | some text => .ok text
  | none => .error (name ++ " must be string")

/-- The texts of an array. -/
def texts (error : Validation) (check : String → Except Validation Unit) :
    List Json → Except Validation (List String)
  | [] => .ok []
  | value :: values => do
      let text ← match value.asStr with
        | some text => .ok text
        | none => .error error
      check text
      let rest ← texts error check values
      pure (text :: rest)

/-- `ALLOWED`. -/
def allowedFields : List String :=
  ["sequence", "timestamp_unix_ns", "generation", "kind", "phase", "hook_type", "thread_id",
    "address", "module", "symbol", "display", "signature_capture", "signature_status",
    "capture_status", "argument_count", "arguments", "typed_arguments", "return_value",
    "typed_return", "errno", "number", "number_decimal"]

/-- `parse_event_index_fields`. -/
def parseEventIndexFields (args : Args) : Except Validation (List String) :=
  match args "fields" with
  | none => .ok []
  | some value =>
      match value.asArray with
      | none => .error "event index fields must be an array"
      | some values =>
          if 32 < values.length then .error "event index fields accepts at most 32 names"
          else texts "event index fields must be strings" (fun field =>
            if field ∈ allowedFields then .ok ()
            else .error ("unsupported event index field: " ++ field)) values

/-- `parse_event_index_phases`. -/
def parseEventIndexPhases (args : Args) : Except Validation (List String) :=
  match args "phases" with
  | none => .ok []
  | some value =>
      match value.asArray with
      | none => .error "event index phases must be an array"
      | some values =>
          texts "event index phases must be strings" (fun phase =>
            if phase ∈ ["hit", "entry", "return", "exit"] then .ok ()
            else .error ("unsupported event index phase: " ++ phase)) values

/-- `str::parse`. -/
def parseDecimal (text : String) : Option Nat := HookQuery.fromStrRadix 10 text.toList

/-- The index of a name. -/
def parseIndex (text : String) : Option Index :=
  match String.ofList (lower (trim text.toList)) with
  | "api" => some .api
  | "syscall" => some .syscall
  | "address" => some .address
  | "thread" => some .thread
  | _ => none

/-- The lane of an index. -/
def parseSource (args : Args) : Index → Except Validation Source
  | .syscall => .ok .syscall
  | .thread =>
      match ((args "source").bind Json.asStr).getD "hook" with
      | "hook" => .ok .hook
      | "syscall" => .ok .syscall
      | _ => .error "thread index source must be hook or syscall"
  | .api => .ok .hook
  | .address => .ok .hook

/-- The arguments of `event_index_query`: the query and `before`. -/
def parseQuery (args : Args) : Except Validation (Query × Nat) := do
  let name ← req args "index"
  let index ← match parseIndex name with
    | some index => .ok index
    | none => .error "event index must be api, syscall, address, or thread"
  let key := String.ofList (trim (← req args "key").toList)
  if key = "" ∨ 512 < key.utf8ByteSize then .error "event index key must contain 1..512 bytes"
  else
    let text ← req args "limit"
    let limit ← match parseDecimal text with
      | some limit => .ok limit
      | none => .error "event index limit must be decimal"
    if hlimit : limit = 0 ∨ 256 < limit then
      .error "event index limit must be explicitly set to 1..256"
    else
      let before ← match parseDecimal (((args "before").bind Json.asStr).getD "0") with
        | some before => .ok before
        | none => .error "event index before must be decimal"
      let payload := ((args "payload").bind Json.asBool).getD false
      let fields ← parseEventIndexFields args
      let phases ← parseEventIndexPhases args
      let module := (((args "module").bind Json.asStr).map fun text =>
        String.ofList (trim text.toList)).filter (· ≠ "")
      if index = .api ∧ module = none then
        .error "api index queries require an explicit module"
      else
        let numericKey ←
          if index = .api then .ok none
          else match parseU64 key with
            | some value => .ok (some value)
            | none => .error ("invalid integer: " ++ key)
        if index = .syscall ∧ 0xFFF < numericKey.getD 0 then
          .error "syscall index key must be in the native 0x000..0xfff range"
        else if index = .thread ∧ 0xFFFFFFFF < numericKey.getD 0 then
          .error "thread index key exceeds u32"
        else
          let source ← parseSource args index
          pure (⟨index, key, numericKey, module, source, phases, payload, fields, limit,
            by omega, by omega⟩, before)

/-! ## Matching -/

/-- `event_index_matches`. -/
def Query.accepts (q : Query) (event : Json) : Bool :=
  let phase := (((event.get "phase").or (event.get "kind")).bind Json.asStr).getD ""
  if q.phases ≠ [] ∧ phase ∉ q.phases then false
  else
    match q.index with
    | .api =>
        decide ((event.get "hook_type").bind Json.asStr = some "api") &&
          ((event.get "module").bind Json.asStr).any (fun value =>
            HookQuery.wildcardMatch (q.module.getD "*").toUTF8.toList value.toUTF8.toList) &&
          ((event.get "symbol").bind Json.asStr).any fun value =>
            HookQuery.wildcardMatch q.key.toUTF8.toList value.toUTF8.toList
    | .syscall =>
        decide (((event.get "number_decimal").or (event.get "number")).bind parseValueU64 =
          q.numericKey)
    | .address => decide ((event.get "address").bind parseValueU64 = q.numericKey)
    | .thread => decide ((event.get "thread_id").bind parseValueU64 = q.numericKey)

/-- `strip_event_index_payload`. -/
def stripEventIndexPayload (event : Json) : Json :=
  ["arguments", "typed_arguments", "return_value", "typed_return", "errno", "signature"].foldl
    Json.remove event

/-- `project_event_index_fields`. -/
def projectEventIndexFields (event : Json) (fields : List String) : Json :=
  .object (fields.filterMap fun field => (event.get field).map fun value => (field, value))

/-- An event as it is returned. -/
def Query.present (q : Query) (event : Json) : Json :=
  let event := if q.payload then event else stripEventIndexPayload event
  if q.fields = [] then event else projectEventIndexFields event q.fields

/-- `event_index_sequence`. -/
def eventIndexSequence (event : Json) : Option Nat := (event.get "sequence").bind parseValueU64

/-- The lane metadata of a page (`event_index_lane_metadata`). -/
def eventIndexLaneMetadata (source : Source) (page : Window) : Json :=
  match source with
  | .syscall => .object [("ring_total", dec page.total), ("ring_dropped", dec page.dropped),
      ("ring_capacity", .string "32768"), ("history_overwritten", dec (page.total - 32768))]
  | .hook => .object [("lane_total", dec page.total), ("lane_dropped", dec page.dropped),
      ("capacity", .string "32768"), ("history_overwritten", dec (page.total - 32768))]

/-! ## The query -/

/-- What the Hub looks up for events. -/
structure Names where
  resolve : UInt64 → Option (String × String)
  signatures : Nat → Option Signature
  pointerWidth : Nat

/-- An event of a lane as the query sees it. -/
def Names.view (names : Names) (source : Source) (event : HookLogRecord) : Json :=
  match source with
  | .syscall => syscallEvent event
  | .hook => decorate names.signatures names.pointerWidth (hookEvent names.resolve event)

/-- What a query has found so far. -/
structure Found where
  events : List Json
  /-- `last_match_sequence`. -/
  last : Option Nat

/-- The loop over the events of a page. -/
def Query.scan (q : Query) : List Json → Found → Found
  | [], found => found
  | event :: events, found =>
      if q.accepts event then
        let found := ⟨found.events ++ [q.present event], eventIndexSequence event⟩
        if found.events.length = q.limit then found else q.scan events found
      else q.scan events found

/-- The events of a page, the newest first. -/
def newestFirst (events : List Json) : List Json :=
  (events.mergeSort fun a b =>
    (eventIndexSequence a).getD 0 ≤ (eventIndexSequence b).getD 0).reverse

/-- The answer of a query. -/
structure Answer where
  scanned : Nat
  nextBefore : Option Nat
  exhausted : Bool
  lane : Json
  events : List Json
  /-- No event before this one has been seen, or none at all if it is zero. -/
  floor : Nat
  /-- The moment of the last page. -/
  moment : Nat
  /-- The last page has been asked for before this number. -/
  asked : Nat

/-- The answer when the loop is left. -/
def Found.answer (found : Found) (exhausted : Bool) (before scanned floor moment : Nat)
    (lane : Json) : Answer where
  scanned := scanned
  nextBefore := if exhausted then none else found.last.or (if before ≠ 0 then some before else none)
  exhausted := exhausted
  lane := lane
  events := found.events
  floor := floor
  moment := moment
  asked := before

/-- The loop of `event_index_query`, from a page that is read at a moment. -/
def Query.loop (q : Query) (names : Names) (moments : Nat → Moment) (moment before scanned : Nat)
    (found : Found) (lane : Option Json) : Answer :=
  let page := handleEventsNewest (moments moment) 4096 before
  let lane := lane.getD (eventIndexLaneMetadata q.source page)
  let events := newestFirst (page.events.map (names.view q.source))
  if hempty : events = [] then found.answer true before scanned before moment lane
  else
    let oldest := (events.getLast?.bind eventIndexSequence).getD 0
    let seen := scanned + events.length
    let found := q.scan events found
    if found.events.length = q.limit then
      found.answer false before seen (found.last.getD 0) moment lane
    else if oldest ≤ 1 ∨ 32768 ≤ seen then found.answer true before seen oldest moment lane
    else q.loop names moments (moment + 1) oldest seen found (some lane)
  termination_by 32768 - scanned
  decreasing_by
    have := List.length_pos_of_ne_nil hempty
    show 32768 - (scanned + events.length) < 32768 - scanned
    omega

/-- `event_index_query`. -/
def Query.run (q : Query) (names : Names) (moments : Nat → Moment) (moment before : Nat) : Answer :=
  q.loop names moments moment before 0 ⟨[], none⟩ none

end PinBridge.EventIndex
