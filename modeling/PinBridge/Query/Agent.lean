import PinBridge.Lanes.Paging
import PinBridge.Lib.Sizes
import PinBridge.Scripts.Replies

/-!
# What the query server reads

The query server answers from the state of the agent.  `Agent` has a field for each value that a
handler reads and for each call that a handler makes.  A call is a function from its arguments to
its result, so that a statement about every agent is a statement about every result of a call.

The capacities of the source are part of the types: `Capped` is a list of at most so many
entries, and a name that the agent reads from a C buffer has at most so many bytes before it is
decoded.
-/

namespace PinBridge.Query

open BoundedLog (Ring)
open Lanes (HookLogRecord)
open Scripts (PluginInfo OutputEntry)
open Utf8
open scoped Sizes

/-- At most `n` entries. -/
abbrev Capped (α : Type) (n : Nat) := { entries : List α // entries.length ≤ n }

/-- A string from a C buffer of `n + 1` bytes. -/
abbrev CText (n : Nat) := Capped UInt8 n

/-- `CStr::to_string_lossy`. -/
def CText.text {n : Nat} (name : CText n) : Text := fromUtf8Lossy name.1

theorem CText.size_text_le {n : Nat} (name : CText n) : size name.text ≤ 3 * n :=
  (size_fromUtf8Lossy_le name.1).trans (Nat.mul_le_mul_left 3 name.2)

/-! ## Target memory -/

/-- `MemoryRegion`. -/
structure MemoryRegion where
  base : UInt64
  size : UInt64
  allocationBase : UInt64
  allocationProtect : UInt32
  protect : UInt32
  state : UInt32
  kind : UInt32

/-- `ModuleSection`. -/
structure ModuleSection where
  address : UInt64
  size : UInt64
  kind : UInt32
  readable : Bool
  writable : Bool
  executable : Bool
  mapped : Bool
  name : CText 127

/-- `ModuleLayout`, with `MAX_SECTIONS_PER_MODULE`. -/
structure ModuleLayout where
  low : UInt64
  high : UInt64
  entry : UInt64
  mappedSize : UInt64
  imageType : UInt32
  isMain : Bool
  name : CText 511
  sections : Capped ModuleSection 256

/-- `DisasmRow`.  An instruction has at most fifteen bytes. -/
structure DisasmRow where
  address : UInt64
  size : UInt32
  kind : UInt32
  target : UInt64
  text : CText 63
  bytes : Capped UInt8 15

/-! ## Symbols -/

/-- `ExportEntry`. -/
structure ExportEntry where
  rva : UInt32
  name : Text

/-- `Module` of the resolver. -/
structure ResolverModule where
  low : UInt64
  high : UInt64
  short : Text

/-- `Resolution`. -/
structure Resolution where
  kind : UInt8
  base : UInt64
  offset : UInt64
  moduleName : Text
  symbol : Text

/-! ## Hook points -/

/-- `MAX_HOOK_POINTS`. -/
def maxHookPoints : Nat := 32768

/-- `RangeScan`. -/
structure RangeScan where
  decoded : UInt64
  matched : UInt64
  addresses : Capped UInt64 maxHookPoints
  truncated : Bool
  complete : Bool

/-- `FunctionSignatureLayout`. -/
structure FunctionSignatureLayout where
  address : UInt64
  callingConvention : UInt32
  returnKind : UInt32
  parameterCount : UInt32
  floatParameterMask : UInt32

/-- `HookRule`. -/
structure HookRule where
  address : UInt64
  threadId : UInt32
  matchReg : UInt32
  matchMask : UInt64
  matchValue : UInt64
  setReg : UInt32
  setValue : UInt64

/-! ## The agent -/

/-- A lane with its lock and its count of dropped records. -/
structure LaneState (α : Type) (cap : ℕ+) where
  ring : Ring α cap
  busy : Bool
  dropped : UInt64

/-- The arguments of `record::start` and `record::start_spec`. -/
structure TraceSpec where
  kindsMask : UInt32
  ranges : List (UInt64 × UInt64)
  threads : List UInt32
  path : Text

/-- The agent as the query server sees it. -/
structure Agent where
  probeMode : Bool
  pid : UInt32
  wireId : UInt32
  pointerWidth : UInt32
  ring : LaneState Event 65536
  totalSeq : UInt64
  kindCount : Nat → UInt64
  priority : LaneState Event 4096
  hookEvents : LaneState HookLogRecord 32768
  syscallEvents : LaneState HookLogRecord 32768
  isStopped : Bool
  controlCommand : Bool
  /-- The bytes that `pb_pin_safe_copy` delivers. -/
  safeCopy : UInt64 → UInt64 → List UInt8
  /-- The bytes that `WriteProcessMemory` writes. -/
  writeMemory : UInt64 → List UInt8 → UInt64
  memoryRegion : UInt64 → Option MemoryRegion
  regions : Capped MemoryRegion 65536
  heaps : List UInt64
  modules : Capped ModuleLayout 512
  bpSet : UInt64 → Option UInt32
  bpRemove : UInt32 → Bool
  bpList : Capped (UInt32 × UInt64 × UInt64) 64
  lastHit : UInt32 × UInt64
  stopGen : UInt64
  entryBpAddress : UInt64
  /-- The threads that Pin reports as stopped. -/
  threads : List UInt32
  context : UInt32 → Option (Capped (UInt32 × UInt64) 18)
  contextSet : UInt32 → UInt32 → UInt64 → Except UInt8 Unit
  setEngineEnabled : UInt32 → Bool → Bool
  policy : Bool × UInt32 × Bool
  step : UInt32 → Bool → Except UInt8 Unit
  disassemble : UInt64 → UInt64 → Except UInt8 (List DisasmRow)
  resolverModules : List ResolverModule
  exportsOf : UInt64 → Option (List ExportEntry)
  resolve : UInt64 → Resolution
  resolveName : Text → Option UInt64
  traceStart : TraceSpec → Except Text Unit
  traceExtend : List (UInt64 × UInt64) → Except Text Unit
  traceStop : UInt64 × UInt64
  traceStatus : Bool × UInt64 × UInt64
  sessionState : UInt8
  load : Text → Text → Except Text UInt32
  unload : Text → Except Text Unit
  plugins : List PluginInfo
  output : List OutputEntry
  hookSet : UInt64 → Bool
  hookSetBatch : List UInt64 → UInt32 × UInt32 × Bool
  hookSetPlainBatch : List UInt64 → UInt32 × UInt32 × Bool
  scanRange : UInt64 → UInt64 → UInt32 → Except UInt8 RangeScan
  hookList : Capped UInt64 maxHookPoints
  functionList : Capped UInt64 maxHookPoints
  setFunctionSignature : FunctionSignatureLayout → Bool
  setRule : HookRule → Bool

end PinBridge.Query
