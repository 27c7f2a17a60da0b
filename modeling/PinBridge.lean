import PinBridge.Lib.Transition
import PinBridge.Lib.Tally
import PinBridge.Lib.RunLength
import PinBridge.Trace.Import
import PinBridge.Breakpoints.Table
import PinBridge.Lanes.Paging
import PinBridge.Scripts.RoundTrip
import PinBridge.Query.FrameFit
import PinBridge.Recorder.LossFree
import PinBridge.Breaker.Acknowledgement
import PinBridge.Intercept.Rendezvous
import PinBridge.Taint.Slice
import PinBridge.Taint.Sources
import PinBridge.Registers.Deltas
import PinBridge.Registers.Frames
import PinBridge.Registers.Replay
import PinBridge.Traps.Coverage
import PinBridge.Stops.Replay
import PinBridge.Stops.Progress
import PinBridge.Hooks.Arming
import PinBridge.Hooks.Hub
import PinBridge.Hooks.Windows
import PinBridge.Scripts.Mailbox
import PinBridge.Scripts.Lifetime
import PinBridge.Scripts.Knobs
import PinBridge.Scripts.Records
import PinBridge.Lib.Ledger
import PinBridge.Lib.Table
import PinBridge.Scripts.Handlers
import PinBridge.Scripts.Routing
import PinBridge.Scripts.Dispatch
import PinBridge.Scripts.Registry
import PinBridge.Scripts.Once
import PinBridge.Scripts.Leases
import PinBridge.Scripts.Points
import PinBridge.Scripts.Ownership
import PinBridge.Scripts.SyscallConfig
import PinBridge.Engines.Policies
import PinBridge.Engines.Agreement
import PinBridge.Recorder.Reserve
import PinBridge.Stops.Parking
import PinBridge.Hooks.Tables
import PinBridge.Children.Follow
import PinBridge.Exit.Step
import PinBridge.Exit.Grace
import PinBridge.Control.Gate
import PinBridge.HookQuery.Wildcard
import PinBridge.HookQuery.Calls
import PinBridge.Trace.Skipping
import PinBridge.Trace.Stream
import PinBridge.Stepping.Request
import PinBridge.Hooks.Points
import PinBridge.Hooks.Returns
import PinBridge.Disasm.Range
import PinBridge.Stops.Failure
import PinBridge.Stops.Statics
import PinBridge.Trace.Pages
import PinBridge.Scripts.Window
import PinBridge.Policies.MemoryTranslation
import PinBridge.Policies.CodeFetch
import PinBridge.Intercept.Merge
import PinBridge.Hooks.Rules
import PinBridge.Children.CommandLine
import PinBridge.Syscalls.Pairing
import PinBridge.EventIndex.Walk
import PinBridge.Stepping.Boundaries
import PinBridge.Priority.OutOfMemory
import PinBridge.Client.Scripts
import PinBridge.Client.Total
import PinBridge.Resolve.Answers
import PinBridge.Hub.Audit
import PinBridge.Hub.Ipc
import PinBridge.Hub.Scopes
import PinBridge.Hub.Selections
