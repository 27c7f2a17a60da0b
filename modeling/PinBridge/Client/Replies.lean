import PinBridge.Client.Reader
import PinBridge.Query.Agent

/-!
# The decoders of the client

One decoder for each method of `Client` that looks into the body of its reply, in the order of the
source, next to the layout of the body.  `ping`, `ring_newest`, `hook_events_newest`,
`syscall_events_newest`, `script_list` and `trace_status` return a part of what another method
returns, and the methods that are left out ignore the body.
-/

namespace PinBridge.Client

open Lanes (HookLogRecord)
open Layouts (Layout)
open LittleEndian (decode)
open Query (MemoryRegion)
open Scripts (ScriptListEntry ScriptBreakpointBinding ScriptDecisionBinding ScriptInventory
  OutputLine nonEmpty readThread describe)
open Utf8 (Text fromUtf8Lossy)

/-! ## Counters and records -/

/-- `PingInfo`. -/
structure PingInfo where
  abiMajor : UInt32
  abiMinor : UInt32
  pid : UInt32
  total : UInt64
  arch : Option UInt32
  pointerWidth : Option UInt32

/-- `ping_full`. -/
def pingFull (body : List UInt8) : Decode PingInfo := do
  newReader body
  let abiMajor ← u32OrErr
  let abiMinor ← u32OrErr
  let pid ← u32OrErr
  let total ← u64OrErr
  let arch ← word 4
  let pointerWidth ← word 4
  return { abiMajor, abiMinor, pid, total, arch := arch.map UInt32.ofNat,
           pointerWidth := pointerWidth.map UInt32.ofNat }

def pingLayout : Layout := .all [.fixed 4, .fixed 4, .fixed 4, .fixed 8]

/-- `counters`. -/
def counters (body : List UInt8) : Decode (UInt64 × UInt64 × UInt64 × List UInt64) := do
  newReader body
  let total ← u64OrErr
  let dropped ← u64OrErr
  let capacity ← u64OrErr
  let kinds ← times u64OrErr 8
  return (total, dropped, capacity, kinds)

def countersLayout : Layout := .all [.fixed 8, .fixed 8, .fixed 8, .fixed (8 * 8)]

/-- The number in a slice of `n` bytes. -/
def numberAt (bytes : List UInt8) (n i : ℕ) : Decode ℕ := decode <$> slice bytes i (i + n)

/-- The numbers in slices of eight bytes. -/
def numbersAt (bytes : List UInt8) : ℕ → ℕ → Decode (List ℕ)
  | 0, _ => return []
  | n + 1, i => do
      let number ← numberAt bytes 8 i
      let numbers ← numbersAt bytes n (i + 8)
      return number :: numbers

/-- `EventRecord::decode`. -/
def decodeEvent (bytes : List UInt8) : Decode (Option Event) :=
  if bytes.length < eventWireLen then return none
  else do
    let sequence ← numberAt bytes 8 0
    let kind ← numberAt bytes 4 8
    let threadId ← numberAt bytes 4 12
    let address ← numberAt bytes 8 16
    let arg0 ← numberAt bytes 8 24
    let arg1 ← numberAt bytes 8 32
    let arg2 ← numberAt bytes 8 40
    let arg3 ← numberAt bytes 8 48
    let arg4 ← numberAt bytes 8 56
    let arg5 ← numberAt bytes 8 64
    let arg6 ← numberAt bytes 8 72
    let arg7 ← numberAt bytes 8 80
    return some {
      sequence := .ofNat sequence, kind := .ofNat kind, threadId := .ofNat threadId,
      address := .ofNat address, arg0 := .ofNat arg0, arg1 := .ofNat arg1, arg2 := .ofNat arg2,
      arg3 := .ofNat arg3, arg4 := .ofNat arg4, arg5 := .ofNat arg5, arg6 := .ofNat arg6,
      arg7 := .ofNat arg7 }

/-- `HOOK_LOG_WIRE_LEN`. -/
def hookLogWireLen : ℕ := 168

/-- `HookLogRecord::decode`. -/
def decodeHookLog (bytes : List UInt8) : Decode (Option HookLogRecord) :=
  if bytes.length < hookLogWireLen then return none
  else do
    let arguments ← numbersAt bytes 16 40
    let sequence ← numberAt bytes 8 0
    let timestampUnixNs ← numberAt bytes 8 8
    let kind ← numberAt bytes 4 16
    let threadId ← numberAt bytes 4 20
    let address ← numberAt bytes 8 24
    let argumentCount ← numberAt bytes 4 32
    let flags ← numberAt bytes 4 36
    return some {
      sequence := .ofNat sequence, timestampUnixNs := .ofNat timestampUnixNs, kind := .ofNat kind,
      threadId := .ofNat threadId, address := .ofNat address,
      argumentCount := .ofNat argumentCount, flags := .ofNat flags,
      arguments := .ofFn fun i => .ofNat (arguments.getD i 0) }

variable {α : Type}

/-- The loop over records of `n` bytes each. -/
def decodeRows (n : ℕ) (record : List UInt8 → Decode (Option α)) (message : String) :
    ℕ → List UInt8 → Decode (List α)
  | 0, _ => return []
  | count + 1, rest => do
      let event ← orErr (record rest) message
      let rest ← slice rest n rest.length
      let events ← decodeRows n record message count rest
      return event :: events

/-- A page of records behind three numbers: `priority_newest`, `hook_events_window`,
`syscall_events_window` and `ring_page`. -/
def recordPage (n : ℕ) (record : List UInt8 → Decode (Option α)) (message : String)
    (body : List UInt8) : Decode (UInt64 × UInt64 × UInt64 × List α) := do
  newReader body
  let total ← u64OrErr
  let dropped ← u64OrErr
  let next ← u64OrErr
  let count ← u64OrErr
  withCapacity count.toNat n
  let rest ← remaining
  let events ← decodeRows n record message count.toNat rest
  return (total, dropped, next, events)

def recordLayout (n : ℕ) : Layout := .all [.fixed 8, .fixed 8, .fixed 8, .rows 8 none 0 (.fixed n)]

/-- `priority_newest`. -/
def priorityNewest : List UInt8 → Decode (UInt64 × UInt64 × UInt64 × List Event) :=
  recordPage eventWireLen decodeEvent "short priority event"

/-- `hook_events_window`. -/
def hookEventsWindow : List UInt8 → Decode (UInt64 × UInt64 × UInt64 × List HookLogRecord) :=
  recordPage hookLogWireLen decodeHookLog "short Hook event"

/-- `syscall_events_window`. -/
def syscallEventsWindow : List UInt8 → Decode (UInt64 × UInt64 × UInt64 × List HookLogRecord) :=
  recordPage hookLogWireLen decodeHookLog "short Syscall event"

/-- `ring_page`, with the total that it drops. -/
def ringPage : List UInt8 → Decode (UInt64 × UInt64 × UInt64 × List Event) :=
  recordPage eventWireLen decodeEvent "short event"

/-! ## Control -/

/-- `stop`, `resume` and `step`. -/
def firstFlag (body : List UInt8) : Decode Bool := return body.head?.getD 0 ≠ 0

/-- `read_memory`. -/
def readMemory (body : List UInt8) : Decode (List UInt8) := do
  newReader body
  let _ ← u64OrErr
  let copied ← u64OrErr
  let data ← remaining
  let length ← asUsize copied.toNat
  if data.length < length then refuse "short read payload"
  else slice data 0 length

def readMemoryLayout : Layout := .all [.fixed 8, .data 8]

/-- `write_memory` and `resolve_name`. -/
def oneU64 (body : List UInt8) : Decode UInt64 := do
  newReader body
  u64OrErr

/-- `bp_set`, `bp_remove` and `script_load`. -/
def oneU32 (body : List UInt8) : Decode UInt32 := do
  newReader body
  u32OrErr

/-- `hook_set`, `hook_signature_set` and `hook_rule_set`. -/
def oneFlag (body : List UInt8) : Decode Bool := do
  newReader body
  return (← u32OrErr) ≠ 0

/-- `trace_start` and `trace_start_spec`. -/
def traceStart (body : List UInt8) : Decode Unit := do
  newReader body
  if (← u32OrErr) = 0 then refuse "trace start refused" else return ()

/-- A row of `bp_list`. -/
def bpEntry : Decode (UInt32 × UInt64 × UInt64) := do
  let id ← u32OrErr
  let address ← u64OrErr
  let hits ← u64OrErr
  return (id, address, hits)

def bpRow : Layout := .all [.fixed 4, .fixed 8, .fixed 8]

/-- `bp_list`. -/
def bpList (body : List UInt8) :
    Decode (Bool × UInt32 × UInt64 × UInt64 × List (UInt32 × UInt64 × UInt64)) :=
  if body.length < 21 then refuse "short bp list"
  else do
    let stopped := (← index body 0) ≠ 0
    newReader (← slice body 1 body.length)
    let hitTid ← u32OrErr
    let hitAddr ← u64OrErr
    let stopGen ← u64OrErr
    let count ← u32OrErr
    let entries ← vec 20 bpEntry count.toNat
    return (stopped, hitTid, hitAddr, stopGen, entries)

def bpListLayout : Layout := .all [.fixed 1, .fixed 4, .fixed 8, .fixed 8, .rows 4 none 0 bpRow]

/-- `checked_mul`. -/
def checkedMul (a b : ℕ) : Decode (Option ℕ) :=
  return if 2 ^ (← read) ≤ a * b then none else some (a * b)

/-- `entry_stop_status`. -/
def entryStopStatus (body : List UInt8) :
    Decode (Bool × UInt32 × UInt64 × Option UInt64) :=
  if body.length < 21 then refuse "short bp list"
  else do
    let stopped := (← index body 0) ≠ 0
    newReader (← slice body 1 body.length)
    let hitTid ← u32OrErr
    let hitAddr ← u64OrErr
    let _ ← u64OrErr
    let count ← u32OrErr
    let rowsLen ← orErr (checkedMul count.toNat 20) "bp list count overflow"
    orErr (skip rowsLen) "short bp list entries"
    let entry ← word 8
    return (stopped, hitTid, hitAddr, entry.map UInt64.ofNat)

def entryStopLayout : Layout := .all [.fixed 1, .fixed 4, .fixed 8, .fixed 8, .span 24 20]

/-! ## Lists -/

/-- A row of `modules`. -/
def moduleEntry : Decode (UInt64 × UInt64 × Bool × Text) := do
  let low ← u64OrErr
  let high ← u64OrErr
  let isMain := (← u8OrErr) ≠ 0
  let nameLen := (← u32OrErr).toNat
  let rest ← remaining
  if rest.length < nameLen then refuse "short module name"
  else
    let name := fromUtf8Lossy (← slice rest 0 nameLen)
    orErr (skip nameLen) "short module entry"
    return (low, high, isMain, name)

def moduleRow : Layout := .all [.fixed 8, .fixed 8, .fixed 1, .block 4]

/-- Rows behind a count of 32 bits. -/
def countedRows (least : ℕ) (row : Decode α) (body : List UInt8) : Decode (List α) := do
  newReader body
  let count ← u32OrErr
  vec least row count.toNat

def countedLayout (row : Layout) : Layout := .all [.rows 4 none 0 row]

/-- `modules`. -/
def modules : List UInt8 → Decode (List (UInt64 × UInt64 × Bool × Text)) :=
  countedRows 21 moduleEntry

/-- `threads`. -/
def threads : List UInt8 → Decode (List UInt32) := countedRows 4 u32OrErr

/-- A row of `context_get`. -/
def registerEntry : Decode (UInt32 × UInt64) := do
  let reg ← u32OrErr
  let value ← u64OrErr
  return (reg, value)

def registerRow : Layout := .all [.fixed 4, .fixed 8]

/-- `context_get`. -/
def contextGet : List UInt8 → Decode (List (UInt32 × UInt64)) := countedRows 12 registerEntry

/-- `exc_policy_get`. -/
def excPolicyGet (body : List UInt8) : Decode (Bool × UInt32 × Bool) :=
  if body.length < 6 then refuse "short policy payload"
  else do
    let enabled := (← index body 0) ≠ 0
    let code := UInt32.ofNat (decode (← slice body 1 5))
    let pending := (← index body 5) ≠ 0
    return (enabled, code, pending)

/-- A row of `disasm`. -/
def disasmEntry : Decode (UInt64 × UInt32 × UInt32 × Text × List UInt8 × UInt64) := do
  let address ← u64OrErr
  let size ← u32OrErr
  let kind ← u32OrErr
  let target ← u64OrErr
  let textLen := (← u32OrErr).toNat
  let rest ← remaining
  let rowLen ← add textLen size.toNat
  if rest.length < rowLen then refuse "short disasm row"
  else
    let text := fromUtf8Lossy (← slice rest 0 textLen)
    let bytes ← slice rest textLen rowLen
    orErr (skip rowLen) "short disasm row"
    return (address, size, kind, text, bytes, target)

def disasmRow : Layout := .all [.fixed 8, .blocks 12]

/-- `disasm`. -/
def disasm : List UInt8 → Decode (List (UInt64 × UInt32 × UInt32 × Text × List UInt8 × UInt64)) :=
  countedRows 28 disasmEntry

/-- `Resolution`. -/
structure Resolution where
  kind : UInt8
  offset : UInt64
  module : Text
  symbol : Text

/-- A row of `resolve`. -/
def resolveEntry : Decode Resolution := do
  let kind ← u8OrErr
  let _ ← u64OrErr
  let offset ← u64OrErr
  let module ← readShortStr
  let symbol ← readShortStr
  return { kind, offset, module, symbol }

def resolveRow : Layout := .all [.fixed 1, .fixed 8, .fixed 8, .block 2, .block 2]

/-- `resolve`. -/
def resolve : List UInt8 → Decode (List Resolution) := countedRows 21 resolveEntry

/-- A row of `exports`. -/
def exportEntry : Decode (UInt64 × Text) := do
  let address ← u64OrErr
  let name ← readShortStr
  return (address, name)

def exportRow : Layout := .all [.fixed 8, .block 2]

/-- `exports`. -/
def exports : List UInt8 → Decode (List (UInt64 × Text)) := countedRows 10 exportEntry

/-- `hook_list` and `hook_function_list`. -/
def hookList : List UInt8 → Decode (List UInt64) := countedRows 8 u64OrErr

/-- `hook_set_batch`. -/
def hookSetBatch (body : List UInt8) : Decode (UInt32 × UInt32 × Bool) := do
  newReader body
  let added ← u32OrErr
  let total ← u32OrErr
  let capacityFull := (← u32OrErr) ≠ 0
  return (added, total, capacityFull)

/-- `HookRangeResult`. -/
structure HookRangeResult where
  decoded : UInt64
  matched : UInt64
  added : UInt32
  total : UInt32
  capacityFull : Bool
  truncated : Bool
  complete : Bool
  applied : Bool
  addresses : List UInt64

/-- `hook_range`. -/
def hookRange (body : List UInt8) : Decode HookRangeResult := do
  newReader body
  let decoded ← u64OrErr
  let matched ← u64OrErr
  let count := (← u32OrErr).toNat
  let added ← u32OrErr
  let total ← u32OrErr
  let flags ← u32OrErr
  let addresses ← vec 8 u64OrErr count
  return {
    decoded, matched, added, total, capacityFull := flags &&& 1 ≠ 0, truncated := flags &&& 2 ≠ 0,
    complete := flags &&& 4 ≠ 0, applied := flags &&& 8 ≠ 0, addresses }

def hookRangeLayout : Layout := .all [.fixed 8, .fixed 8, .rows 4 none 12 (.fixed 8)]

/-! ## Scripts -/

/-- `ScriptStatus`. -/
structure ScriptStatus where
  loaded : Bool
  state : UInt8
  delivered : UInt64
  dropped : UInt64
  name : Text

/-- `script_status`. -/
def scriptStatus (body : List UInt8) : Decode ScriptStatus :=
  if body.length < 20 then refuse "short script status"
  else do
    let loaded := (← index body 0) ≠ 0
    let state ← index body 1
    newReader (← slice body 2 body.length)
    let delivered ← u64OrErr
    let dropped ← u64OrErr
    let nameLen := (← u16OrErr).toNat
    let rest ← remaining
    if rest.length < nameLen then refuse "short script name"
    else
      let name := fromUtf8Lossy (← slice rest 0 nameLen)
      return { loaded, state, delivered, dropped, name }

def scriptStatusLayout : Layout := .all [.fixed 1, .fixed 1, .fixed 8, .fixed 8, .block 2]

/-- A script of `script_inventory`. -/
def scriptEntry : Decode ScriptListEntry := do
  let name ← readShortStr
  let state ← u8OrErr
  let delivered ← u64OrErr
  let dropped ← u64OrErr
  return { name, state, delivered, dropped }

def scriptRow : Layout := .all [.block 2, .fixed 1, .fixed 8, .fixed 8]

/-- A breakpoint of `script_inventory`. -/
def bindingEntry : Decode ScriptBreakpointBinding := do
  let id ← u32OrErr
  let plugin ← readShortStr
  let callback ← readShortStr
  let description ← readShortStr
  let once := (← u8OrErr) ≠ 0
  let threadId := readThread (← u32OrErr)
  let lastStopGeneration ← u64OrErr
  let lastAction ← readShortStr
  let lastReturn ← readShortStr
  let lastError ← readShortStr
  return {
    id, plugin, callback, description, once, threadId, lastStopGeneration,
    lastAction := nonEmpty lastAction, lastReturn := nonEmpty lastReturn,
    lastError := nonEmpty lastError }

def bindingRow : Layout :=
  .all [.fixed 4, .block 2, .block 2, .block 2, .fixed 1, .fixed 4, .fixed 8, .block 2, .block 2,
    .block 2]

/-- The code filter of a decision. -/
def codesEntry : Decode (Option (List UInt32)) := do
  let tag ← u8OrErr
  if tag = 0 then return none
  else if tag = 1 then
    let count ← u32OrErr
    let values ← vec 4 u32OrErr count.toNat
    return some values
  else refuse "bad decision code filter"

def codesField : Layout := .tagged (.rows 4 none 0 (.fixed 4))

/-- A decision of `script_inventory`. -/
def decisionEntry : Decode ScriptDecisionBinding := do
  let id ← u64OrErr
  let plugin ← readShortStr
  let selector ← readShortStr
  let callback ← readShortStr
  let once := (← u8OrErr) ≠ 0
  let threadId := readThread (← u32OrErr)
  let codes ← codesEntry
  let lastGeneration ← u64OrErr
  let lastReturn ← readShortStr
  let lastError ← readShortStr
  return {
    id, plugin, selector, callback, description := [], once, address := none, threadId, codes,
    lastGeneration, lastReturn := nonEmpty lastReturn, lastError := nonEmpty lastError }

def decisionRow : Layout :=
  .all [.fixed 8, .block 2, .block 2, .block 2, .fixed 1, .fixed 4, codesField, .fixed 8, .block 2,
    .block 2]

/-- A description of `script_inventory`. -/
def metadataEntry : Decode (UInt64 × UInt64 × Text) := do
  let id ← u64OrErr
  let address ← u64OrErr
  let description ← readShortStr
  return (id, address, description)

def metadataRow : Layout := .all [.fixed 8, .fixed 8, .block 2]

/-- A section that older servers do not send. -/
def tailRows (rows : ℕ → Decode (List α)) : Decode (List α) := do
  if (← remaining).isEmpty then return []
  else
    let count ← u32OrErr
    rows count.toNat

/-- `script_inventory`. -/
def scriptInventory (body : List UInt8) : Decode ScriptInventory := do
  newReader body
  let count ← u32OrErr
  let scripts ← vec 19 scriptEntry count.toNat
  let breakpoints ← tailRows (vec 29 bindingEntry)
  let decisions ← tailRows (vec 32 decisionEntry)
  let metadata ← tailRows (times metadataEntry)
  return { scripts, breakpoints, decisions := metadata.foldl describe decisions }

def inventoryLayout : Layout :=
  .all [.rows 4 none 0 scriptRow, .tail (.rows 4 none 0 bindingRow),
    .tail (.rows 4 none 0 decisionRow), .tail (.each 4 metadataRow)]

/-- A line of `script_output`. -/
def outputEntry : Decode OutputLine := do
  let seq ← u64OrErr
  let plugin ← readShortStr
  let line ← readShortStr
  return { seq, plugin, line }

def outputRow : Layout := .all [.fixed 8, .block 2, .block 2]

/-- `script_output`. -/
def scriptOutput (body : List UInt8) : Decode (UInt64 × List OutputLine) := do
  newReader body
  let next ← u64OrErr
  let count ← u32OrErr
  let lines ← vec 12 outputEntry count.toNat
  return (next, lines)

def outputLayout : Layout := .all [.fixed 8, .rows 4 none 0 outputRow]

/-! ## Memory -/

/-- The fields of a `MemoryRegion`. -/
def regionEntry : Decode MemoryRegion := do
  let base ← u64OrErr
  let size ← u64OrErr
  let allocationBase ← u64OrErr
  let allocationProtect ← u32OrErr
  let protect ← u32OrErr
  let state ← u32OrErr
  let kind ← u32OrErr
  return { base, size, allocationBase, allocationProtect, protect, state, kind }

def regionRow : Layout :=
  .all [.fixed 8, .fixed 8, .fixed 8, .fixed 4, .fixed 4, .fixed 4, .fixed 4]

/-- `memory_region`. -/
def memoryRegion (body : List UInt8) : Decode (Option MemoryRegion) := do
  if body.isEmpty then return none
  else if (← index body 0) = 0 then return none
  else
    newReader (← slice body 1 body.length)
    let region ← regionEntry
    return some region

def memoryRegionLayout : Layout := .flagged regionRow

/-- `MemoryMapSection`. -/
structure MemoryMapSection where
  address : UInt64
  size : UInt64
  kind : UInt32
  readable : Bool
  writable : Bool
  executable : Bool
  mapped : Bool
  name : Text

/-- `MemoryMapModule`. -/
structure MemoryMapModule where
  low : UInt64
  high : UInt64
  entry : UInt64
  mappedSize : UInt64
  imageType : UInt32
  isMain : Bool
  name : Text
  sections : List MemoryMapSection

/-- `MemoryMap`. -/
structure MemoryMap where
  regions : List MemoryRegion
  heaps : List UInt64
  modules : List MemoryMapModule

/-- A vector of at most so many rows. -/
def limitedVec (limit : ℕ) (message : String) (least : ℕ) (row : Decode α) :
    Decode (List α) := do
  let count := (← u32OrErr).toNat
  if limit < count then refuse message else vec least row count

/-- A section of `memory_map`. -/
def sectionEntry : Decode MemoryMapSection := do
  let address ← u64OrErr
  let size ← u64OrErr
  let kind ← u32OrErr
  let flags ← u8OrErr
  let name ← readLayoutString "section name"
  return {
    address, size, kind, readable := flags &&& 1 ≠ 0, writable := flags &&& 2 ≠ 0,
    executable := flags &&& 4 ≠ 0, mapped := flags &&& 8 ≠ 0, name }

def sectionRow : Layout := .all [.fixed 8, .fixed 8, .fixed 4, .fixed 1, .block 4]

/-- A module of `memory_map`. -/
def mapModuleEntry : Decode MemoryMapModule := do
  let low ← u64OrErr
  let high ← u64OrErr
  let entry ← u64OrErr
  let mappedSize ← u64OrErr
  let imageType ← u32OrErr
  let isMain := (← u8OrErr) ≠ 0
  let name ← readLayoutString "module name"
  let sections ← limitedVec 256 "section count exceeds limit" 25 sectionEntry
  return { low, high, entry, mappedSize, imageType, isMain, name, sections }

def mapModuleRow : Layout :=
  .all [.fixed 8, .fixed 8, .fixed 8, .fixed 8, .fixed 4, .fixed 1, .block 4,
    .rows 4 (some 256) 0 sectionRow]

/-- `memory_map`. -/
def memoryMap (body : List UInt8) : Decode MemoryMap := do
  newReader body
  let regions ← limitedVec 65536 "memory map region count exceeds limit" 40 regionEntry
  let heaps ← limitedVec 16384 "heap count exceeds limit" 8 u64OrErr
  let modules ← limitedVec 512 "module count exceeds limit" 45 mapModuleEntry
  return { regions, heaps, modules }

def memoryMapLayout : Layout :=
  .all [.rows 4 (some 65536) 0 regionRow, .rows 4 (some 16384) 0 (.fixed 8),
    .rows 4 (some 512) 0 mapModuleRow]

/-! ## The trace recorder -/

/-- `trace_stop`. -/
def traceStop (body : List UInt8) : Decode (UInt64 × UInt64) := do
  newReader body
  let recorded ← u64OrErr
  let dropped ← u64OrErr
  return (recorded, dropped)

/-- `TraceStatus`. -/
structure TraceStatus where
  state : UInt8
  active : Bool
  recorded : UInt64
  dropped : UInt64

/-- `trace_status_detail`. -/
def traceStatusDetail (body : List UInt8) : Decode TraceStatus :=
  if body.isEmpty then refuse "short trace status"
  else do
    let active := (← index body 0) ≠ 0
    newReader (← slice body 1 body.length)
    let recorded ← u64OrErr
    let dropped ← u64OrErr
    let state := (← u8).getD (if active then 1 else 3)
    return { state, active, recorded, dropped }

end PinBridge.Client
