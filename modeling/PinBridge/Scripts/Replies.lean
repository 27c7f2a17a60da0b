import PinBridge.Lib.Utf8
import PinBridge.Lib.Wire

/-!
# The replies about scripts

The agent answers a query about its plugins with four sections of rows, each behind a 32-bit
count: the plugins, the breakpoint handlers of all plugins, their decisions, and the metadata of
the decisions.  The last three were added one after the other, and a client reads a section only
if bytes are left.  Texts are written behind a 16-bit length.  A page of output lines has one
section.

The integer fields have the widths of the source.  A row of the agent carries what the scripting
interface checks before it stores the row.
-/

namespace PinBridge.Scripts

open Utf8 Wire

/-! ## The rows of the agent -/

/-- `DecisionSelector`. -/
inductive DecisionSelector
  | childFollow
  | hookEntry
  | hookReturn
  | syscallEntry
  | syscallExit
  | exceptionHandle
  | debuggerBreakpoint
  | debuggerSingleStep
  | debuggerAsyncBreak
deriving DecidableEq, Repr

namespace DecisionSelector

def name : DecisionSelector → Text
  | childFollow => "child.follow".toList
  | hookEntry => "hook.entry".toList
  | hookReturn => "hook.return".toList
  | syscallEntry => "syscall.entry".toList
  | syscallExit => "syscall.exit".toList
  | exceptionHandle => "exception.handle".toList
  | debuggerBreakpoint => "debugger.breakpoint".toList
  | debuggerSingleStep => "debugger.single_step".toList
  | debuggerAsyncBreak => "debugger.async_break".toList

def isHook (selector : DecisionSelector) : Bool := selector = hookEntry || selector = hookReturn

def isDebugger (selector : DecisionSelector) : Bool :=
  selector = debuggerBreakpoint || selector = debuggerSingleStep || selector = debuggerAsyncBreak

end DecisionSelector

/-- The reserved invalid-thread sentinel `u32::MAX`. -/
def invalidThread : UInt32 := 0xFFFFFFFF

/-- The filters that `pb_intercept` accepts for a selector.  The thread filter is looked at for
`child.follow` only. -/
def checkFilters (selector : DecisionSelector) (address : Option UInt64)
    (threadId : Option UInt32) (numbers codes : Option (List UInt32)) : Except String Unit :=
  if selector.isHook then
    if numbers.isSome || codes.isSome then
      .error "Hook interceptors do not accept numbers or codes"
    else if (address.filter (· ≠ 0)).isNone then
      .error "hook interceptor requires a non-zero address"
    else .ok ()
  else if selector = .childFollow then
    if address.isSome || threadId.isSome || numbers.isSome || codes.isSome then
      .error "child.follow does not accept address, thread_id, numbers, or codes"
    else .ok ()
  else if selector = .syscallEntry || selector = .syscallExit then
    if address.isSome then .error "syscall interceptors do not accept address"
    else if codes.isSome then .error "syscall interceptors do not accept codes"
    else .ok ()
  else if selector.isDebugger then
    if address.isSome || numbers.isSome || codes.isSome then
      .error "debugger interceptors accept only the optional thread_id filter"
    else .ok ()
  else
    if address.isSome || numbers.isSome then
      .error "exception.handle does not accept address or numbers"
    else .ok ()

/-- `pb_breakpoint` refuses the sentinel as a thread filter, `pb_intercept` does not. -/
def acceptsThread (threadId : Option UInt32) : Bool := threadId ≠ some invalidThread

/-- `BreakpointBindingInfo`. -/
structure BreakpointBindingInfo where
  id : UInt32
  callbackName : Text
  description : Text
  once : Bool
  threadId : Option UInt32
  lastStopGeneration : UInt64
  lastAction : Option Text
  lastReturn : Option Text
  lastError : Option Text
  accepted : acceptsThread threadId = true

/-- `DecisionBindingInfo`. -/
structure DecisionBindingInfo where
  id : UInt64
  selector : DecisionSelector
  callbackName : Text
  description : Text
  once : Bool
  address : Option UInt64
  threadId : Option UInt32
  codes : Option (List UInt32)
  lastGeneration : UInt64
  lastReturn : Option Text
  lastError : Option Text
  accepted : ∃ numbers, checkFilters selector address threadId numbers codes = .ok ()

/-- `PluginInfo`: a row of the listing. -/
structure PluginInfo where
  name : Text
  state : UInt8
  delivered : UInt64
  dropped : UInt64
  breakpoints : List BreakpointBindingInfo
  decisions : List DecisionBindingInfo

/-- A decision with the plugin it belongs to, in the order of the listing. -/
def decisionsOf (entries : List PluginInfo) : List (Text × DecisionBindingInfo) :=
  entries.flatMap fun entry => entry.decisions.map fun binding => (entry.name, binding)

def breakpointsOf (entries : List PluginInfo) : List (Text × BreakpointBindingInfo) :=
  entries.flatMap fun entry => entry.breakpoints.map fun binding => (entry.name, binding)

/-- `LIST_SNAPSHOT`.  The ids of decisions come from one counter (`NEXT_ID`). -/
structure Listing where
  entries : List PluginInfo
  ids_nodup : ((decisionsOf entries).map fun row => row.2.id).Nodup

/-- An address that `pb_intercept` has stored is not zero. -/
theorem DecisionBindingInfo.address_ne_zero (binding : DecisionBindingInfo) :
    binding.address ≠ some 0 := by
  obtain ⟨numbers, haccepted⟩ := binding.accepted
  intro haddress
  rw [haddress] at haccepted
  cases hselector : binding.selector <;>
    simp [checkFilters, hselector, DecisionSelector.isHook, DecisionSelector.isDebugger]
      at haccepted
  all_goals split at haccepted <;> simp at haccepted

/-! ## Loading -/

def statusOk : UInt8 := 0

def statusBadRequest : UInt8 := 1

def statusInternal : UInt8 := 2

/-- `take_str`. -/
def takeStr (n : Nat) : Reader UInt8 Text := fromUtf8Lossy <$> take statusBadRequest n

/-- The name and the source of a load request. -/
def scriptLoadRequest : Reader UInt8 (Text × Text) := do
  let nameLen ← word statusBadRequest 2
  let name ← takeStr nameLen
  let srcLen ← word statusBadRequest 4
  let source ← takeStr srcLen
  return (name, source)

/-- `handle_script_load`.  The scripting host decides whether the source compiles. -/
def handleScriptLoad (load : Text → Text → Except Text UInt32) (payload : List UInt8) :
    UInt8 × List UInt8 :=
  match scriptLoadRequest payload with
  | .error status => (status, encode "bad script_load payload".toList)
  | .ok ((name, source), _) =>
    match load name source with
    | .ok id => (statusOk, LittleEndian.encode 4 id.toNat)
    | .error message => (statusInternal, encode message)

/-! ## Writing -/

def putU32 (value : UInt32) : List UInt8 := LittleEndian.encode 4 value.toNat

def putU64 (value : UInt64) : List UInt8 := LittleEndian.encode 8 value.toNat

/-- A text behind its length, of which two bytes are kept. -/
def putShort (text : Text) : List UInt8 := LittleEndian.encode 2 (size text) ++ encode text

/-- The number of rows, as 32 bits. -/
def putCount (n : Nat) : List UInt8 := putU32 (UInt32.ofNat n)

def putBool (value : Bool) : List UInt8 := [if value then 1 else 0]

/-- `short_wire_text`. -/
def shortWireText (value : Text) : Text :=
  if size value ≤ 65535 then value else truncate value (boundaryFrom value 65535)

def scriptRow (entry : PluginInfo) : List UInt8 :=
  putShort entry.name ++ [entry.state] ++ putU64 entry.delivered ++ putU64 entry.dropped

def bindingRow (row : Text × BreakpointBindingInfo) : List UInt8 :=
  let (plugin, binding) := row
  putU32 binding.id ++ putShort plugin ++ putShort (shortWireText binding.callbackName)
    ++ putShort (shortWireText binding.description) ++ putBool binding.once
    ++ putU32 (binding.threadId.getD invalidThread) ++ putU64 binding.lastStopGeneration
    ++ putShort (shortWireText (binding.lastAction.getD []))
    ++ putShort (shortWireText (binding.lastReturn.getD []))
    ++ putShort (shortWireText (binding.lastError.getD []))

def codesImage : Option (List UInt32) → List UInt8
  | none => [0]
  | some codes => [1] ++ (putCount codes.length ++ codes.flatMap putU32)

def decisionRow (row : Text × DecisionBindingInfo) : List UInt8 :=
  let (plugin, binding) := row
  putU64 binding.id ++ putShort plugin ++ putShort (shortWireText binding.selector.name)
    ++ putShort (shortWireText binding.callbackName) ++ putBool binding.once
    ++ putU32 (binding.threadId.getD invalidThread) ++ codesImage binding.codes
    ++ putU64 binding.lastGeneration ++ putShort (shortWireText (binding.lastReturn.getD []))
    ++ putShort (shortWireText (binding.lastError.getD []))

def metadataRow (row : Text × DecisionBindingInfo) : List UInt8 :=
  putU64 row.2.id ++ putU64 (row.2.address.getD 0) ++ putShort (shortWireText row.2.description)

/-- A section of rows behind their count. -/
def rowsImage {β : Type} (image : β → List UInt8) (rows : List β) : List UInt8 :=
  putCount rows.length ++ rows.flatMap image

/-- `handle_script_list`. -/
def handleScriptList (entries : List PluginInfo) : List UInt8 :=
  rowsImage scriptRow entries ++ rowsImage bindingRow (breakpointsOf entries)
    ++ rowsImage decisionRow (decisionsOf entries) ++ rowsImage metadataRow (decisionsOf entries)

/-- `OutputEntry`. -/
structure OutputEntry where
  seq : UInt64
  plugin : Text
  line : Text

/-- `output::page` on the lines of the ring. -/
def outputPage (entries : List OutputEntry) (after : UInt64) (limit : Nat) :
    UInt64 × List OutputEntry :=
  let out := (entries.filter fun entry => after < entry.seq).take limit
  ((out.getLast?.map OutputEntry.seq).getD after, out)

def outputPageMax : UInt32 := 1024

def outputRow (entry : OutputEntry) : List UInt8 :=
  putU64 entry.seq ++ putShort (entry.plugin.take 65535) ++ putShort (entry.line.take 65535)

/-- `handle_script_output`. -/
def handleScriptOutput (entries : List OutputEntry) (payload : List UInt8) :
    Except UInt8 (List UInt8) := do
  let (after, payload) ← word statusBadRequest 8 payload
  let (limit, _) ← word statusBadRequest 4 payload
  let (next, page) := outputPage entries (UInt64.ofNat after) (min limit outputPageMax.toNat)
  return putU64 next ++ rowsImage outputRow page

/-! ## Reading -/

/-- `ScriptListEntry`. -/
structure ScriptListEntry where
  name : Text
  state : UInt8
  delivered : UInt64
  dropped : UInt64

/-- `ScriptBreakpointBinding`. -/
structure ScriptBreakpointBinding where
  id : UInt32
  plugin : Text
  callback : Text
  description : Text
  once : Bool
  threadId : Option UInt32
  lastStopGeneration : UInt64
  lastAction : Option Text
  lastReturn : Option Text
  lastError : Option Text

/-- `ScriptDecisionBinding`. -/
structure ScriptDecisionBinding where
  id : UInt64
  plugin : Text
  selector : Text
  callback : Text
  description : Text
  once : Bool
  address : Option UInt64
  threadId : Option UInt32
  codes : Option (List UInt32)
  lastGeneration : UInt64
  lastReturn : Option Text
  lastError : Option Text

/-- `ScriptInventory`. -/
structure ScriptInventory where
  scripts : List ScriptListEntry
  breakpoints : List ScriptBreakpointBinding
  decisions : List ScriptDecisionBinding

/-- `OutputLine`. -/
structure OutputLine where
  seq : UInt64
  plugin : Text
  line : Text

def u8OrErr : Reader String UInt8 := UInt8.ofNat <$> word "short payload" 1

def u32OrErr : Reader String UInt32 := UInt32.ofNat <$> word "short payload" 4

def u64OrErr : Reader String UInt64 := UInt64.ofNat <$> word "short payload" 8

/-- `read_short_str`. -/
def readShortStr : Reader String Text := fromUtf8Lossy <$> block "short string" 2

/-- A text that is not empty. -/
def nonEmpty (text : Text) : Option Text := if text.isEmpty then none else some text

def readThread (value : UInt32) : Option UInt32 :=
  if value = invalidThread then none else some value

def scriptEntry : Reader String ScriptListEntry := do
  let name ← readShortStr
  let state ← u8OrErr
  let delivered ← u64OrErr
  let dropped ← u64OrErr
  return { name, state, delivered, dropped }

def bindingEntry : Reader String ScriptBreakpointBinding := do
  let id ← u32OrErr
  let plugin ← readShortStr
  let callback ← readShortStr
  let description ← readShortStr
  let once ← u8OrErr
  let threadId ← u32OrErr
  let lastStopGeneration ← u64OrErr
  let lastAction ← readShortStr
  let lastReturn ← readShortStr
  let lastError ← readShortStr
  return {
    id, plugin, callback, description, once := once ≠ 0, threadId := readThread threadId,
    lastStopGeneration, lastAction := nonEmpty lastAction, lastReturn := nonEmpty lastReturn,
    lastError := nonEmpty lastError }

def codesEntry : Reader String (Option (List UInt32)) := do
  let tag ← u8OrErr
  if tag = 0 then return none
  else if tag = 1 then
    let count ← u32OrErr
    let values ← many u32OrErr count.toNat
    return some values
  else throw "bad decision code filter"

def decisionEntry : Reader String ScriptDecisionBinding := do
  let id ← u64OrErr
  let plugin ← readShortStr
  let selector ← readShortStr
  let callback ← readShortStr
  let once ← u8OrErr
  let threadId ← u32OrErr
  let codes ← codesEntry
  let lastGeneration ← u64OrErr
  let lastReturn ← readShortStr
  let lastError ← readShortStr
  return {
    id, plugin, selector, callback, description := [], once := once ≠ 0, address := none,
    threadId := readThread threadId, codes, lastGeneration, lastReturn := nonEmpty lastReturn,
    lastError := nonEmpty lastError }

def metadataEntry : Reader String (UInt64 × UInt64 × Text) := do
  let id ← u64OrErr
  let address ← u64OrErr
  let description ← readShortStr
  return (id, address, description)

/-- A section that older servers do not send. -/
def tailSection {α : Type} (entry : Reader String α) : Reader String (List α) := do
  if ← atEnd then return []
  let count ← u32OrErr
  many entry count.toNat

/-- The metadata of the first decision with the id. -/
def describe (decisions : List ScriptDecisionBinding) (row : UInt64 × UInt64 × Text) :
    List ScriptDecisionBinding :=
  match decisions with
  | [] => []
  | decision :: decisions =>
    if decision.id = row.1 then
      { decision with
        address := if row.2.1 ≠ 0 then some row.2.1 else none
        description := row.2.2 } :: decisions
    else decision :: describe decisions row

/-- `script_inventory` on the body of the reply. -/
def scriptInventory : Reader String ScriptInventory := do
  let count ← u32OrErr
  let scripts ← many scriptEntry count.toNat
  let breakpoints ← tailSection bindingEntry
  let decisions ← tailSection decisionEntry
  let metadata ← tailSection metadataEntry
  return { scripts, breakpoints, decisions := metadata.foldl describe decisions }

def outputLine : Reader String OutputLine := do
  let seq ← u64OrErr
  let plugin ← readShortStr
  let line ← readShortStr
  return { seq, plugin, line }

/-- The payload of a `script_output` request. -/
def outputRequest (after : UInt64) (limit : UInt32) : List UInt8 := putU64 after ++ putU32 limit

/-- `script_output` on the body of the reply. -/
def scriptOutput : Reader String (UInt64 × List OutputLine) := do
  let next ← u64OrErr
  let count ← u32OrErr
  let lines ← many outputLine count.toNat
  return (next, lines)

end PinBridge.Scripts
