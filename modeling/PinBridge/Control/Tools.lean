import Mathlib.Data.List.Basic

/-!
# The tools of the Hub and the methods of the Agent

`HubService::call` serves a fixed list of tools.  `Tool.methods` lists the methods of
`AgentApi` that the code of a tool calls, its helpers included.  `AgentMethod.changes`
says which methods change the target, its instrumentation, its recording or its scripts.
`isWrite` is the list the Hub keeps by hand.  `isWrite_of_changes` says that it misses
nothing `dispatch_guarded` runs.
-/

namespace PinBridge.Control

/-! ## Callers and modes -/

/-- `ControlMode`. -/
inductive ControlMode where
  | manual
  | aiReadOnly
  | aiAssist
  | aiAutonomous
  | automationPaused
  deriving DecidableEq, Repr

/-- `ChannelActor`. -/
inductive ChannelActor where
  | human
  | ai
  | system
  deriving DecidableEq, Repr

/-- `Caller`. -/
structure Caller where
  actor : ChannelActor
  trusted : Bool
  deriving DecidableEq, Repr

/-- `Caller::TRUSTED_HUMAN`. -/
def Caller.trustedHuman : Caller := ⟨.human, true⟩

/-- `Caller::AI`. -/
def Caller.ai : Caller := ⟨.ai, false⟩

/-- `Caller::SYSTEM`. -/
def Caller.system : Caller := ⟨.system, true⟩

/-- `ControlMode::ai_can_write`. -/
def ControlMode.aiCanWrite (mode : ControlMode) : Bool := mode = .aiAutonomous

/-! ## Methods of the Agent -/

/-- The methods of `AgentApi` that talk to the Agent or choose it. -/
inductive AgentMethod where
  | setPort
  | status
  | pause
  | resume
  | memoryRead
  | memoryWrite
  | breakpointSet
  | breakpointRemove
  | breakpointList
  | breakpointInventory
  | registersGet
  | registerSet
  | registerId
  | threads
  | modules
  | moduleExports
  | hookSet
  | hookFunctionSet
  | hookSignatureSet
  | hookSignatureRemove
  | hookRemove
  | hookClear
  | hookList
  | hookInventoryPage
  | hookCallbackCount
  | hookMonitor
  | hookModule
  | hookTargetsApply
  /-- `hook_range`, which adds Hooks only when it is told to. -/
  | hookRange (apply : Bool)
  | syscallConfigSet
  | syscallMonitor
  | memoryMap
  | exceptionMonitor
  | exceptionPolicyGet
  | exceptionPolicySet
  | exceptionInventory
  | traceStartSpec
  | traceStatus
  | traceStop
  | step
  | disassemble
  | resolve
  | resolveName
  | scriptLoad
  | scriptUnload
  | scriptList
  | scriptOutput
  | eventsNewest
  deriving DecidableEq, Repr

/-- The method changes the target, its instrumentation, its recording or its scripts. -/
def AgentMethod.changes : AgentMethod → Bool
  | .setPort | .pause | .resume | .memoryWrite | .breakpointSet | .breakpointRemove | .registerSet
  | .hookSet | .hookFunctionSet | .hookSignatureSet | .hookSignatureRemove | .hookRemove
  | .hookClear | .hookModule | .hookTargetsApply | .syscallConfigSet | .exceptionPolicySet
  | .traceStartSpec | .traceStop | .step | .scriptLoad | .scriptUnload => true
  | .hookRange apply => apply
  | .status | .memoryRead | .breakpointList | .breakpointInventory | .registersGet | .registerId
  | .threads | .modules | .moduleExports | .hookList | .hookInventoryPage | .hookCallbackCount
  | .hookMonitor | .syscallMonitor | .memoryMap | .exceptionMonitor | .exceptionPolicyGet
  | .exceptionInventory | .traceStatus | .disassemble | .resolve | .resolveName | .scriptList
  | .scriptOutput | .eventsNewest => false

/-! ## Tools -/

/-- `TOOL_NAMES` and `events_newest`. -/
inductive Tool where
  | controlStatus
  | controlHandoffToAi
  | controlTakeoverManual
  | controlPauseAutomation
  | sessionStatus
  | sessionSetAgentPort
  | targetPause
  | targetResume
  | targetStepInto
  | targetStepOver
  | breakpointSet
  | breakpointRemove
  | breakpointList
  | breakpointInventory
  | registersGet
  | registerSet
  | memoryRead
  | memoryWrite
  | disassemble
  | modulesList
  | moduleExports
  | hookTargetsQuery
  | hookMonitorApply
  | hookSet
  | hookFunctionSet
  | hookSignatureSet
  | hookSignatureRemove
  | hookRemove
  | hookClear
  | hookList
  | hookInventory
  | hookMonitor
  | hookEventsQuery
  | hookEventsExport
  | eventIndexQuery
  | eventIndexExport
  | traceScopeQuery
  | traceRecordStart
  | traceRecordStatus
  | traceRecordStop
  | traceIndexQuery
  | traceIndexExport
  | hookModule
  | hookRangePreview
  | hookRangeSet
  | syscallConfigGet
  | syscallConfigSet
  | syscallMonitor
  | memoryMap
  | exceptionMonitor
  | exceptionPolicyGet
  | exceptionPolicySet
  | exceptionInventory
  | threadsList
  | addressResolve
  | activityList
  | activityGet
  | scriptInject
  | scriptReplace
  | scriptStart
  | scriptStop
  | scriptRemove
  | scriptList
  | scriptGet
  | scriptStatus
  | scriptOutput
  | eventsNewest
  deriving DecidableEq, Repr

/-- `is_write`. -/
def Tool.isWrite : Tool → Bool
  | .targetPause | .targetResume | .targetStepInto | .targetStepOver | .breakpointSet
  | .breakpointRemove | .hookSet | .hookFunctionSet | .hookSignatureSet | .hookSignatureRemove
  | .hookRemove | .hookClear | .hookModule | .hookMonitorApply | .hookRangeSet | .traceRecordStart
  | .traceRecordStop | .syscallConfigSet | .registerSet | .memoryWrite | .sessionSetAgentPort
  | .scriptInject | .scriptReplace | .scriptStart | .scriptStop | .scriptRemove
  | .exceptionPolicySet => true
  | _ => false

/-- The methods the code of a tool calls in `dispatch_guarded`, and what `call` does for
`events_newest`.  Arguments and answers
decide which of them, in which order and how often. -/
def Tool.methods : Tool → List AgentMethod
  | .controlStatus | .controlHandoffToAi | .controlTakeoverManual | .controlPauseAutomation
  | .traceIndexQuery | .traceIndexExport | .syscallConfigGet | .activityList | .activityGet
  | .scriptGet => []
  | .sessionStatus => [.status]
  | .sessionSetAgentPort => [.setPort]
  | .targetPause => [.pause]
  | .targetResume => [.resume]
  | .targetStepInto | .targetStepOver => [.step]
  | .breakpointSet => [.breakpointSet]
  | .breakpointRemove => [.breakpointInventory, .breakpointRemove]
  | .breakpointList => [.breakpointList]
  | .breakpointInventory => [.breakpointInventory]
  | .registersGet => [.registersGet]
  | .registerSet => [.registerId, .registerSet]
  | .memoryRead => [.memoryRead]
  | .memoryWrite => [.memoryWrite]
  | .disassemble => [.disassemble]
  | .modulesList => [.modules]
  | .moduleExports | .hookTargetsQuery => [.moduleExports]
  | .hookMonitorApply => [.hookTargetsApply]
  | .hookSet => [.hookSet]
  | .hookFunctionSet => [.hookSignatureSet, .hookFunctionSet, .hookSignatureRemove, .status]
  | .hookSignatureSet => [.hookSignatureSet, .status]
  | .hookSignatureRemove => [.hookSignatureRemove]
  | .hookRemove => [.hookCallbackCount, .hookRemove, .hookSignatureRemove]
  | .hookClear => [.hookCallbackCount, .hookClear]
  | .hookList => [.hookList]
  | .hookInventory => [.hookInventoryPage, .status]
  | .hookMonitor | .hookEventsQuery | .hookEventsExport => [.hookMonitor]
  | .eventIndexQuery | .eventIndexExport => [.syscallMonitor, .hookMonitor]
  | .traceScopeQuery => [.modules, .threads]
  | .traceRecordStart => [.traceStartSpec]
  | .traceRecordStatus => [.traceStatus]
  | .traceRecordStop => [.traceStop]
  | .hookModule => [.hookModule]
  | .hookRangePreview => [.hookRange false]
  | .hookRangeSet => [.hookRange true]
  | .syscallConfigSet => [.modules, .syscallConfigSet]
  | .syscallMonitor => [.syscallMonitor]
  | .memoryMap => [.memoryMap]
  | .exceptionMonitor => [.exceptionMonitor]
  | .exceptionPolicyGet => [.exceptionPolicyGet]
  | .exceptionPolicySet => [.exceptionPolicySet]
  | .exceptionInventory => [.exceptionInventory]
  | .threadsList => [.threads]
  | .addressResolve => [.resolveName, .resolve]
  | .scriptInject => [.scriptLoad]
  | .scriptReplace => [.scriptList, .scriptLoad]
  | .scriptStart => [.scriptLoad]
  | .scriptStop | .scriptRemove => [.scriptUnload]
  | .scriptList | .scriptStatus => [.scriptList]
  | .scriptOutput => [.scriptOutput]
  | .eventsNewest => [.eventsNewest]

/-- A check a tool makes of its caller in its own code. -/
def Tool.refuses : Tool → Caller → Bool
  | .sessionSetAgentPort, caller => caller.actor ≠ .human || !caller.trusted
  | .hookModule, caller => caller.actor = .ai
  | _, _ => false

/-- `is_write` has every tool that changes something in `dispatch_guarded`. -/
theorem Tool.isWrite_of_changes {tool : Tool} {method : AgentMethod} (h : method ∈ tool.methods)
    (hchanges : method.changes = true) : tool.isWrite = true := by
  have hall : ∀ method ∈ tool.methods, method.changes = true → tool.isWrite = true := by
    cases tool <;> decide
  exact hall method h hchanges

end PinBridge.Control
