import PinBridge.Query.Agent

/-!
# The query server

One handler for each operation of the protocol, and `write_frame`.  A handler reads its payload and
answers with a body, or fails with a status and no body.  The operations that record a trace or load
a script answer a failure with its text.
-/

namespace PinBridge.Query

open Lanes (HookLogRecord Sequenced pageInto nextCursor)
open Scripts (putU32 putU64 putShort putCount putBool statusOk statusBadRequest statusInternal
  takeStr handleScriptList handleScriptOutput handleScriptLoad)
open Utf8 Wire
open scoped Sizes

/-! ## Frames -/

/-- `MAX_FRAME`. -/
def maxFrame : UInt32 := 0x100000

/-- `write_frame`: what goes to the stream, unless the frame is too large. -/
def writeFrame (opCode status : UInt8) (payload : List UInt8) : Option (List UInt8) :=
  let len := UInt32.ofNat (payload.length + 2)
  if len > maxFrame then none
  else some (putU32 len ++ [opCode, status] ++ payload)

/-! ## Operations -/

/-- The operations of `proto::op`. -/
inductive Op where
  | ping | counters | ringPage | priorityNewest
  | stop | resume | readMem | writeMem | bpSet | bpList | bpRemove | modules
  | threads | contextGet | contextSet | engineSet | excPolicySet | excPolicyGet | step
  | memoryRegion | memoryMap
  | disasm | resolve | resolveName | exports | syscallFilter
  | traceStart | traceStop | traceStatus | traceStartSpec | traceExtend
  | scriptLoad | scriptUnload | scriptList | scriptOutput
  | hookSet | hookRemove | hookClear | hookList | hookRuleSet | hookRuleClear | hookSetBatch
  | hookFunctionList | hookEventsNewest | hookSignatureSet | hookSignatureRemove | hookRange
  | syscallEventsNewest
  | unknown (code : UInt8)
deriving DecidableEq, Repr

def Op.code : Op → UInt8
  | ping => 0x01 | counters => 0x02 | ringPage => 0x03 | priorityNewest => 0x04
  | stop => 0x10 | resume => 0x11 | readMem => 0x12 | writeMem => 0x13 | bpSet => 0x14
  | bpList => 0x15 | bpRemove => 0x16 | modules => 0x17
  | threads => 0x20 | contextGet => 0x21 | contextSet => 0x22 | engineSet => 0x23
  | excPolicySet => 0x24 | excPolicyGet => 0x25 | step => 0x26
  | memoryRegion => 0x28 | memoryMap => 0x29
  | disasm => 0x30 | resolve => 0x31 | resolveName => 0x32 | exports => 0x33
  | syscallFilter => 0x34
  | traceStart => 0x35 | traceStop => 0x36 | traceStatus => 0x37 | traceStartSpec => 0x38
  | traceExtend => 0x39
  | scriptLoad => 0x40 | scriptUnload => 0x41 | scriptList => 0x42 | scriptOutput => 0x43
  | hookSet => 0x50 | hookRemove => 0x51 | hookClear => 0x52 | hookList => 0x53
  | hookRuleSet => 0x54 | hookRuleClear => 0x55 | hookSetBatch => 0x56
  | hookFunctionList => 0x57 | hookEventsNewest => 0x58 | hookSignatureSet => 0x59
  | hookSignatureRemove => 0x5a | hookRange => 0x5b | syscallEventsNewest => 0x5c
  | unknown code => code

/-- `requires_jit`. -/
def Op.requiresJit : Op → Bool
  | stop | resume | bpSet | bpRemove | contextGet | contextSet | engineSet | excPolicySet | step
  | syscallFilter | traceStart | traceStartSpec | traceExtend | hookSet | hookSetBatch | hookRange
  | hookRemove | hookClear | hookRuleSet | hookRuleClear => true
  | _ => false

/-! ## Reading a payload -/

abbrev Handler := Reader UInt8 (List UInt8)

def u8 : Reader UInt8 UInt8 := UInt8.ofNat <$> word statusBadRequest 1

def u16 : Reader UInt8 Nat := word statusBadRequest 2

def u32 : Reader UInt8 UInt32 := UInt32.ofNat <$> word statusBadRequest 4

def u64 : Reader UInt8 UInt64 := UInt64.ofNat <$> word statusBadRequest 8

/-- A range of two addresses. -/
def u64Pair : Reader UInt8 (UInt64 × UInt64) := do
  let lo ← u64
  let hi ← u64
  return (lo, hi)

/-- The answer of a handler that fails without a body. -/
def respond (handler : Handler) (payload : List UInt8) : UInt8 × List UInt8 :=
  match handler payload with
  | .ok (body, _) => (statusOk, body)
  | .error code => (code, [])

/-- The answer of an operation whose failure has a text. -/
def respondText (bad : Text) (handler : Reader UInt8 (Except Text (List UInt8)))
    (payload : List UInt8) : UInt8 × List UInt8 :=
  match handler payload with
  | .ok (.ok body, _) => (statusOk, body)
  | .ok (.error message, _) => (statusInternal, encode message)
  | .error code => (code, encode bad)

/-! ## Lanes -/

section Lanes

variable {α : Type} [Sequenced α] {cap : ℕ+}

/-- `try_page`: nothing while the lock is taken. -/
def LaneState.tryPage (lane : LaneState α cap) (after limit : Nat) : Option (Nat × List α) :=
  if lane.busy then none else some (pageInto lane.ring after limit)

/-- The four words before the records of a page. -/
def pageImage (encode : α → List UInt8) (first second next : Nat) (events : List α) :
    List UInt8 :=
  LittleEndian.encode 8 first ++ LittleEndian.encode 8 second ++ LittleEndian.encode 8 next
    ++ LittleEndian.encode 8 events.length ++ events.flatMap encode

/-- The newest records of a lane, as `handle_priority_newest` copies them. -/
def newest (lane : LaneState α cap) (encode : α → List UInt8) (after limit : Nat)
    (keep : α → Bool) : List UInt8 :=
  let events := ((lane.tryPage after limit).getD (0, [])).2.filter keep
  pageImage encode lane.ring.total lane.dropped.toNat (nextCursor after events) events

end Lanes

/-- `HookLogRecord::encode`. -/
def hookLogLayout : List Nat := [8, 8, 4, 4, 8, 4, 4] ++ List.replicate 16 8

def encodeHookLog (r : HookLogRecord) : List UInt8 :=
  LittleEndian.pack hookLogLayout
    ([r.sequence.toNat, r.timestampUnixNs.toNat, r.kind.toNat, r.threadId.toNat, r.address.toNat,
      r.argumentCount.toNat, r.flags.toNat] ++ r.arguments.toList.map UInt64.toNat)

def handlePing (agent : Agent) : List UInt8 :=
  putU32 1 ++ putU32 11 ++ putU32 agent.pid ++ putU64 (UInt64.ofNat agent.ring.ring.total)
    ++ putU32 agent.wireId ++ putU32 agent.pointerWidth

def handleCounters (agent : Agent) : List UInt8 :=
  let total := agent.ring.ring.total
  let retained := min total 65536
  LittleEndian.encode 8 total ++ LittleEndian.encode 8 (agent.totalSeq.toNat - retained)
    ++ putU64 65536 ++ (List.range' 1 8).flatMap fun kind => putU64 (agent.kindCount kind)

def ringPageMaxLimit : Nat := 2048

def handleRingPage (agent : Agent) : Handler := do
  let after ← u64
  let limit ← u64
  let page := (agent.ring.tryPage after.toNat (min limit.toNat ringPageMaxLimit)).getD (0, [])
  return pageImage Event.encode agent.ring.ring.total page.1 (nextCursor after.toNat page.2) page.2

def priorityPageMaxLimit : Nat := 1024

/-- `limit.clamp(1, max)`. -/
def clampLimit (limit : UInt64) (bound : Nat) : Nat := max 1 (min limit.toNat bound)

def handlePriorityNewest (agent : Agent) : Handler := do
  let limit := clampLimit (← u64) priorityPageMaxLimit
  let after := agent.priority.ring.total - limit
  return newest agent.priority Event.encode after limit fun _ => true

def hookPageMaxLimit : Nat := 4096

/-- `handle_hook_events_newest` and `handle_syscall_events_newest`. -/
def handleNewestBefore {cap : ℕ+} (lane : LaneState HookLogRecord cap) : Handler := do
  let limit := clampLimit (← u64) hookPageMaxLimit
  let rest ← remaining
  let requestedBefore := if rest.length < 8 then 0 else LittleEndian.decode (rest.take 8)
  let total := lane.ring.total
  -- `total.saturating_add(1)`
  let before := if requestedBefore = 0 then 0 else min requestedBefore (min (total + 1) (2 ^ 64 - 1))
  let after := if before = 0 then total - limit else before - (limit + 1)
  return newest lane encodeHookLog after limit fun event =>
    before = 0 || decide (Sequenced.sequence event < before)

def handleHookEventsNewest (agent : Agent) : Handler := handleNewestBefore agent.hookEvents

def handleSyscallEventsNewest (agent : Agent) : Handler := handleNewestBefore agent.syscallEvents

/-! ## Control -/

def handleStop (agent : Agent) : List UInt8 :=
  if agent.isStopped then [1] else putBool agent.controlCommand

def handleResume (agent : Agent) : List UInt8 :=
  if agent.isStopped then putBool agent.controlCommand else [0]

def readMemMax : Nat := 65536

/-- `read_memory`: the buffer cut to what was copied. -/
def readMemory (agent : Agent) (address size : UInt64) : List UInt8 :=
  (agent.safeCopy address size).take size.toNat

def handleReadMem (agent : Agent) : Handler := do
  let address ← u64
  let size ← u64
  check (size ≠ 0 && size.toNat ≤ readMemMax) statusBadRequest
  let buffer := readMemory agent address size
  return putU64 address ++ putU64 (UInt64.ofNat buffer.length) ++ buffer

def regionImage (region : MemoryRegion) : List UInt8 :=
  putU64 region.base ++ putU64 region.size ++ putU64 region.allocationBase
    ++ putU32 region.allocationProtect ++ putU32 region.protect ++ putU32 region.state
    ++ putU32 region.kind

def handleMemoryRegion (agent : Agent) : Handler := do
  let address ← u64
  match agent.memoryRegion address with
  | none => return [0]
  | some region => return [1] ++ regionImage region

def writeMemMax : Nat := 65536

def handleWriteMem (agent : Agent) : Handler := do
  let address ← u64
  let len ← u64
  let data ← remaining
  check (len ≠ 0 && len.toNat ≤ writeMemMax && len.toNat ≤ data.length) statusBadRequest
  check agent.isStopped statusBadRequest
  return putU64 (agent.writeMemory address (data.take len.toNat))

/-- A text behind its length in 32 bits. -/
def putLong (text : Text) : List UInt8 := putCount (size text) ++ encode text

def handleModules (agent : Agent) : List UInt8 :=
  putCount agent.modules.1.length ++ agent.modules.1.flatMap fun entry =>
    putU64 entry.low ++ putU64 entry.high ++ putBool entry.isMain ++ putLong entry.name.text

def sectionFlags (entry : ModuleSection) : UInt8 :=
  entry.readable.toUInt8 ||| (entry.writable.toUInt8 <<< 1) ||| (entry.executable.toUInt8 <<< 2)
    ||| (entry.mapped.toUInt8 <<< 3)

def sectionImage (entry : ModuleSection) : List UInt8 :=
  putU64 entry.address ++ putU64 entry.size ++ putU32 entry.kind ++ [sectionFlags entry]
    ++ putLong entry.name.text

def moduleImage (entry : ModuleLayout) : List UInt8 :=
  putU64 entry.low ++ putU64 entry.high ++ putU64 entry.entry ++ putU64 entry.mappedSize
    ++ putU32 entry.imageType ++ putBool entry.isMain ++ putLong entry.name.text
    ++ putCount entry.sections.1.length ++ entry.sections.1.flatMap sectionImage

def handleMemoryMap (agent : Agent) : List UInt8 :=
  putCount agent.regions.1.length ++ agent.regions.1.flatMap regionImage
    ++ putCount agent.heaps.length ++ agent.heaps.flatMap putU64
    ++ putCount agent.modules.1.length ++ agent.modules.1.flatMap moduleImage

/-! ## Breakpoints and contexts -/

def handleBpSet (agent : Agent) : Handler := do
  let address ← u64
  match agent.bpSet address with
  | some id => return putU32 id
  | none => lift (.error statusInternal)

def handleBpList (agent : Agent) : List UInt8 :=
  putBool agent.isStopped ++ putU32 agent.lastHit.1 ++ putU64 agent.lastHit.2
    ++ putU64 agent.stopGen ++ putCount agent.bpList.1.length
    ++ agent.bpList.1.flatMap (fun row => putU32 row.1 ++ putU64 row.2.1 ++ putU64 row.2.2)
    ++ putU64 agent.entryBpAddress

def handleBpRemove (agent : Agent) : Handler := do
  let id ← u32
  check (agent.bpRemove id) statusBadRequest
  return putU32 id

def handleThreads (agent : Agent) : List UInt8 :=
  putCount agent.threads.length ++ agent.threads.flatMap putU32

def handleContextGet (agent : Agent) : Handler := do
  let tid ← u32
  match agent.context tid with
  | none => lift (.error statusBadRequest)
  | some registers =>
    return putCount registers.1.length
      ++ registers.1.flatMap fun row => putU32 row.1 ++ putU64 row.2

def handleContextSet (agent : Agent) : Handler := do
  let tid ← u32
  let reg ← u32
  let value ← u64
  lift (agent.contextSet tid reg value)
  return []

def handleEngineSet (agent : Agent) : Handler := do
  let kind ← u32
  let on ← u8
  check (agent.setEngineEnabled kind (on ≠ 0)) statusBadRequest
  return []

def handleExcPolicySet : Handler := do
  let _enabled ← u8
  let _code ← u32
  return []

def handleExcPolicyGet (agent : Agent) : List UInt8 :=
  putBool agent.policy.1 ++ putU32 agent.policy.2.1 ++ putBool agent.policy.2.2

def handleStep (agent : Agent) : Handler := do
  let tid ← u32
  let stepOver ← u8
  check agent.isStopped statusBadRequest
  lift (agent.step tid (stepOver ≠ 0))
  return [1]

/-! ## Code and symbols -/

/-- `MAX_INSNS`. -/
def maxInsns : Nat := 128

/-- `disassemble_local` gives at most as many rows as it is asked for. -/
def disassembleLocal (agent : Agent) (address count : UInt64) : Except UInt8 (List DisasmRow) :=
  if count = 0 || count.toNat > maxInsns then .error statusBadRequest
  else (agent.disassemble address count).map (List.take count.toNat)

def disasmImage (row : DisasmRow) : List UInt8 :=
  putU64 row.address ++ putU32 row.size ++ putU32 row.kind ++ putU64 row.target
    ++ putLong row.text.text ++ row.bytes.1

def handleDisasm (agent : Agent) : Handler := do
  let address ← u64
  let count ← u64
  let rows ← lift (disassembleLocal agent address count)
  return putCount rows.length ++ rows.flatMap disasmImage

/-- The addresses of a `RESOLVE` request. -/
def resolveRequest : Reader UInt8 (List UInt64) := do
  let count ← u32
  check (count.toNat ≤ 4096) statusBadRequest
  many u64 count.toNat

def resolutionImage (res : Resolution) : List UInt8 :=
  [res.kind] ++ putU64 res.base ++ putU64 res.offset ++ putShort res.moduleName
    ++ putShort res.symbol

def resolveReply (agent : Agent) (addresses : List UInt64) : List UInt8 :=
  putCount addresses.length ++ addresses.flatMap fun address => resolutionImage (agent.resolve address)

def handleResolve (agent : Agent) : Handler := do
  let addresses ← resolveRequest
  return resolveReply agent addresses

def handleResolveName (agent : Agent) : Handler := do
  let len ← u16
  let spec ← takeStr len
  return putU64 ((agent.resolveName spec).getD 0)

/-- `eq_ignore_ascii_case`. -/
def eqIgnoreAsciiCase (left right : Text) : Bool := left.map Char.toLower = right.map Char.toLower

/-- The module of an `EXPORTS` request and its exports. -/
def exportsRequest (agent : Agent) : Reader UInt8 (UInt64 × List ExportEntry) := do
  let len ← u16
  let moduleName ← takeStr len
  match agent.resolverModules.find? fun m => eqIgnoreAsciiCase m.short moduleName with
  | none => lift (.error statusInternal)
  | some m =>
    match agent.exportsOf m.low with
    | none => lift (.error statusInternal)
    | some entries => return (m.low, entries)

def exportImage (base : UInt64) (entry : ExportEntry) : List UInt8 :=
  putU64 (base + entry.rva.toUInt64) ++ putShort entry.name

/-- The reply of `EXPORTS`, with `EXPORTS_MAX`. -/
def exportsReply (request : UInt64 × List ExportEntry) : List UInt8 :=
  putCount (min request.2.length maxHookPoints)
    ++ (request.2.take maxHookPoints).flatMap (exportImage request.1)

def handleExports (agent : Agent) : Handler := do
  let request ← exportsRequest agent
  return exportsReply request

/-- The caller range at the end of a `SYSCALL_FILTER` request, which older clients leave out. -/
def filterScope (rest : List UInt8) : Reader UInt8 (UInt64 × UInt64) :=
  if rest.length = 0 then pure (0, 0) else u64Pair

def handleSyscallFilter : Handler := do
  let mode ← u8
  check (mode ≤ 1) statusBadRequest
  let count ← u16
  check (count ≤ 4096) statusBadRequest
  let _numbers ← many u32 count
  let rest ← remaining
  check (rest.length = 0 || rest.length = 16) statusBadRequest
  let scope ← filterScope rest
  check ((scope.1 = 0) == (scope.2 = 0) && (scope.2 = 0 || scope.1 < scope.2)) statusBadRequest
  return []

/-! ## Traces and scripts -/

def traceStartRequest : Reader UInt8 TraceSpec := do
  let kindsMask ← u32
  let range ← u64Pair
  let pathLen ← u16
  let path ← takeStr pathLen
  return { kindsMask, ranges := [range], threads := [], path }

def handleTraceStart (agent : Agent) : List UInt8 → UInt8 × List UInt8 :=
  respondText "bad trace_start payload".toList do
    let spec ← traceStartRequest
    return (agent.traceStart spec).map fun _ => putU32 1

def rangesRequest : Reader UInt8 (List (UInt64 × UInt64)) := do
  let count ← u16
  check (count ≠ 0 && count ≤ 16) statusBadRequest
  many u64Pair count

def traceStartSpecRequest : Reader UInt8 TraceSpec := do
  let kindsMask ← u32
  let ranges ← rangesRequest
  let threadCount ← u16
  check (threadCount ≤ 64) statusBadRequest
  let threads ← many u32 threadCount
  let pathLen ← u16
  let path ← takeStr pathLen
  return { kindsMask, ranges, threads, path }

def handleTraceStartSpec (agent : Agent) : List UInt8 → UInt8 × List UInt8 :=
  respondText "bad trace_start_spec payload".toList do
    let spec ← traceStartSpecRequest
    return (agent.traceStart spec).map fun _ => putU32 1

def handleTraceExtend (agent : Agent) : List UInt8 → UInt8 × List UInt8 :=
  respondText "bad trace_extend payload".toList do
    let ranges ← rangesRequest
    return (agent.traceExtend ranges).map fun _ => []

def handleTraceStop (agent : Agent) : List UInt8 :=
  putU64 agent.traceStop.1 ++ putU64 agent.traceStop.2

def handleTraceStatus (agent : Agent) : List UInt8 :=
  putBool agent.traceStatus.1 ++ putU64 agent.traceStatus.2.1 ++ putU64 agent.traceStatus.2.2
    ++ [agent.sessionState]

def scriptUnloadRequest : Reader UInt8 Text := do
  let nameLen ← u16
  takeStr nameLen

def handleScriptUnload (agent : Agent) : List UInt8 → UInt8 × List UInt8 :=
  respondText "bad script_unload payload".toList do
    let name ← scriptUnloadRequest
    return (agent.unload name).map fun _ => []

def scriptOutputReply (agent : Agent) (payload : List UInt8) : UInt8 × List UInt8 :=
  match handleScriptOutput agent.output payload with
  | .ok body => (statusOk, body)
  | .error code => (code, [])

/-! ## Hook points -/

def handleHookSet (agent : Agent) : Handler := do
  let address ← u64
  return putU32 (agent.hookSet address).toUInt32

/-- The three words that answer a batch. -/
def batchImage (result : UInt32 × UInt32 × Bool) : List UInt8 :=
  putU32 result.1 ++ putU32 result.2.1 ++ putU32 result.2.2.toUInt32

def handleHookSetBatch (agent : Agent) : Handler := do
  let count ← u32
  let rest ← remaining
  check (count.toNat ≤ maxHookPoints && rest.length = count.toNat * 8) statusBadRequest
  let addresses ← many u64 count.toNat
  return batchImage (agent.hookSetBatch addresses)

def handleHookRange (agent : Agent) : Handler := do
  let start ← u64
  let stop ← u64
  let kindMask ← u32
  let apply ← u8
  let rest ← remaining
  check rest.isEmpty statusBadRequest
  let scan ← lift (agent.scanRange start stop kindMask)
  let applied := apply ≠ 0 && scan.complete
  let (added, total, capacityFull) :=
    if applied then agent.hookSetPlainBatch scan.addresses.1
    else (0, UInt32.ofNat agent.hookList.1.length, false)
  let flags := capacityFull.toUInt32 ||| (scan.truncated.toUInt32 <<< 1)
    ||| (scan.complete.toUInt32 <<< 2) ||| (applied.toUInt32 <<< 3)
  return putU64 scan.decoded ++ putU64 scan.matched ++ putCount scan.addresses.1.length
    ++ putU32 added ++ putU32 total ++ putU32 flags ++ scan.addresses.1.flatMap putU64

def handleHookRemove : Handler := do
  let _address ← u64
  return []

/-- `handle_hook_list` and `handle_hook_function_list`. -/
def addressesImage (addresses : Capped UInt64 maxHookPoints) : List UInt8 :=
  putCount addresses.1.length ++ addresses.1.flatMap putU64

def handleHookSignatureSet (agent : Agent) : Handler := do
  let address ← u64
  let callingConvention ← u32
  let returnKind ← u32
  let parameterCount ← u32
  let floatParameterMask ← u32
  return putU32 (agent.setFunctionSignature
    { address, callingConvention, returnKind, parameterCount, floatParameterMask }).toUInt32

def handleHookSignatureRemove : Handler := do
  let _address ← u64
  return []

def handleHookRuleSet (agent : Agent) : Handler := do
  let address ← u64
  let threadId ← u32
  let matchReg ← u32
  let matchMask ← u64
  let matchValue ← u64
  let setReg ← u32
  let setValue ← u64
  -- `PB_REG_INVALID_` is register zero
  check (matchReg ≠ 0 || matchMask = 0) statusBadRequest
  return putU32 (agent.setRule
    { address, threadId, matchReg, matchMask, matchValue, setReg, setValue }).toUInt32

/-! ## The server -/

/-- The dispatch of `serve_client`. -/
def answer (agent : Agent) (op : Op) (payload : List UInt8) : UInt8 × List UInt8 :=
  match op with
  | .ping => (statusOk, handlePing agent)
  | .counters => (statusOk, handleCounters agent)
  | .ringPage => respond (handleRingPage agent) payload
  | .priorityNewest => respond (handlePriorityNewest agent) payload
  | .stop => (statusOk, handleStop agent)
  | .resume => (statusOk, handleResume agent)
  | .readMem => respond (handleReadMem agent) payload
  | .writeMem => respond (handleWriteMem agent) payload
  | .bpSet => respond (handleBpSet agent) payload
  | .bpList => (statusOk, handleBpList agent)
  | .bpRemove => respond (handleBpRemove agent) payload
  | .modules => (statusOk, handleModules agent)
  | .threads => (statusOk, handleThreads agent)
  | .contextGet => respond (handleContextGet agent) payload
  | .contextSet => respond (handleContextSet agent) payload
  | .engineSet => respond (handleEngineSet agent) payload
  | .excPolicySet => respond handleExcPolicySet payload
  | .excPolicyGet => (statusOk, handleExcPolicyGet agent)
  | .step => respond (handleStep agent) payload
  | .memoryRegion => respond (handleMemoryRegion agent) payload
  | .memoryMap => (statusOk, handleMemoryMap agent)
  | .disasm => respond (handleDisasm agent) payload
  | .resolve => respond (handleResolve agent) payload
  | .resolveName => respond (handleResolveName agent) payload
  | .exports => respond (handleExports agent) payload
  | .syscallFilter => respond handleSyscallFilter payload
  | .traceStart => handleTraceStart agent payload
  | .traceStop => (statusOk, handleTraceStop agent)
  | .traceStatus => (statusOk, handleTraceStatus agent)
  | .traceStartSpec => handleTraceStartSpec agent payload
  | .traceExtend => handleTraceExtend agent payload
  | .scriptLoad => handleScriptLoad agent.load payload
  | .scriptUnload => handleScriptUnload agent payload
  | .scriptList => (statusOk, handleScriptList agent.plugins)
  | .scriptOutput => scriptOutputReply agent payload
  | .hookSet => respond (handleHookSet agent) payload
  | .hookRemove => respond handleHookRemove payload
  | .hookClear => (statusOk, [])
  | .hookList => (statusOk, addressesImage agent.hookList)
  | .hookRuleSet => respond (handleHookRuleSet agent) payload
  | .hookRuleClear => (statusOk, [])
  | .hookSetBatch => respond (handleHookSetBatch agent) payload
  | .hookFunctionList => (statusOk, addressesImage agent.functionList)
  | .hookEventsNewest => respond (handleHookEventsNewest agent) payload
  | .hookSignatureSet => respond (handleHookSignatureSet agent) payload
  | .hookSignatureRemove => respond handleHookSignatureRemove payload
  | .hookRange => respond (handleHookRange agent) payload
  | .syscallEventsNewest => respond (handleSyscallEventsNewest agent) payload
  | .unknown _ => (statusBadRequest, [])

/-- The body of `serve_client` between reading a frame and writing one. -/
def reply (agent : Agent) (op : Op) (payload : List UInt8) : UInt8 × List UInt8 :=
  if agent.probeMode && op.requiresJit then
    (statusBadRequest, encode "operation unavailable in probe mode".toList)
  else answer agent op payload

/-- The frame that answers a request, or none when `serve_client` drops the connection. -/
def serve (agent : Agent) (op : Op) (payload : List UInt8) : Option (List UInt8) :=
  writeFrame op.code (reply agent op payload).1 (reply agent op payload).2

end PinBridge.Query
