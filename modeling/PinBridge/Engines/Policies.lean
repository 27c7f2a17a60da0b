import Mathlib.Data.Finset.Basic
import Mathlib.Data.Finset.Union
import PinBridge.Lib.Transition
import PinBridge.Trace.Event

/-!
# Capture engines and instrumentation policies

Two threads decide what is captured.  The query server turns engines on and off
for the whole trace range (`set_engine_enabled`), and the scripting thread
replaces the rules of the scripts (`set_instrumentation_policies`).  Both derive
the flags of the engines from what they have read of the other's state.

Their operations are cut into single loads and stores (`QueryPc`, `ScriptPc`).
The instrumentation callback, which inserts the capture calls of one
instruction, is cut likewise (`InsPc`).  Pin runs it under its client lock, and
an invalidation waits for it.  Pin's invalidations succeed.

A flag is wrong at the end when a thread stores it after the other one has
changed what it depends on.  `State.Fresh` says that no such store happens.
-/

namespace PinBridge.Engines

open Transition (run Always Guarded)

/-! ## Rules -/

/-- `EVENT_INSTRUCTION_DECODE`. -/
def eventInstructionDecode : UInt32 := 25

/-- `EVENT_TRACE_INSTRUMENT`. -/
def eventTraceInstrument : UInt32 := 29

/-- `EVENT_ROUTINE_INSTRUMENT`. -/
def eventRoutineInstrument : UInt32 := 30

/-- `EVENT_BBL_INSTRUMENT`. -/
def eventBblInstrument : UInt32 := 31

/-- A mask of event kinds, as the set of its bits. -/
abbrev Kinds : Type := Finset UInt32

/-- `INSTRUMENT_ALL`. -/
def instrumentAll : Kinds :=
  {eventExec, eventMemory, eventBranchEdge, eventInstructionDecode, eventTraceInstrument,
    eventRoutineInstrument, eventBblInstrument}

/-- `MAX_INSTRUMENTATION_RANGES`. -/
def maxInstrumentationRanges : Nat := 64

/-- `MAX_INSTRUMENTATION_THREADS`. -/
def maxInstrumentationThreads : Nat := 64

/-- An address range, without its end. -/
structure Range where
  /-- The first address. -/
  start : UInt64
  /-- The end. -/
  stop : UInt64
  deriving DecidableEq, Repr

/-- `in_range`. -/
def Range.has (r : Range) (address : UInt64) : Bool := r.start ≤ address && address < r.stop

/-- `InstrumentationPolicyConfig`. -/
structure PolicyConfig where
  /-- The kinds to capture. -/
  kinds : Kinds
  /-- The ranges. -/
  ranges : List Range
  /-- The threads, all of them when there are none. -/
  threads : List UInt32

/-- `InstrumentationRule`. -/
structure Rule where
  /-- The kinds to capture. -/
  kinds : Kinds
  /-- The range. -/
  range : Range
  /-- The threads, all of them when there are none. -/
  threads : Finset UInt32
  deriving DecidableEq

/-- `matches_instrumentation`. -/
def Rule.matchesInstrumentation (r : Rule) (address : UInt64) (kind : UInt32) : Bool :=
  kind ∈ r.kinds && r.range.has address

/-- `matches_analysis`. -/
def Rule.matchesAnalysis (r : Rule) (address : UInt64) (threadId kind : UInt32) : Bool :=
  r.matchesInstrumentation address kind && (r.threads = ∅ || threadId ∈ r.threads)

/-- The rules of a policy that is being checked, a range after the other. -/
def addRanges (kinds : Kinds) (threads : Finset UInt32) :
    List Range → List Rule → Option (List Rule)
  | [], rules => some rules
  | range :: ranges, rules =>
      if range.stop ≤ range.start ∨ maxInstrumentationRanges ≤ rules.length then none
      else addRanges kinds threads ranges (rules ++ [⟨kinds, range, threads⟩])

/-- The rules of some policies, none when one is refused. -/
def addPolicies : List PolicyConfig → List Rule → Option (List Rule)
  | [], rules => some rules
  | config :: configs, rules =>
      if config.kinds = ∅ ∨ ¬ config.kinds ⊆ instrumentAll then none
      else if config.ranges = [] ∨ maxInstrumentationRanges < config.ranges.length ∨
          maxInstrumentationThreads < config.threads.length then none
      else
        (addRanges config.kinds config.threads.toFinset config.ranges rules).bind fun rules =>
          addPolicies configs rules

/-! ## States -/

/-- The engines with a flag. -/
inductive Capture where
  | exec
  | memory
  | branch
  deriving DecidableEq, Repr

/-- The kind of an engine's events. -/
def Capture.kind : Capture → UInt32
  | .exec => eventExec
  | .memory => eventMemory
  | .branch => eventBranchEdge

/-- The engine of a kind. -/
def Capture.ofKind (kind : UInt32) : Option Capture :=
  if kind = eventMemory then some .memory
  else if kind = eventExec then some .exec
  else if kind = eventBranchEdge then some .branch
  else none

/-- The order in which the scripting thread and the callback go through the
engines. -/
def captures : List Capture := [.exec, .memory, .branch]

/-- Where the query server is in `set_engine_enabled`. -/
inductive QueryPc where
  | idle
  /-- It has changed the global kinds, which were `previous` before. -/
  | changed (k : Capture) (on : Bool) (previous : Kinds)
  /-- It has looked the kind up in the policy. -/
  | looked (k : Capture) (on : Bool) (previous : Kinds) (policyUsesKind : Bool)
  /-- It has stored the flag and is going to invalidate the trace range. -/
  | stored
  deriving DecidableEq

/-- Where the scripting thread is in `set_instrumentation_policies`. -/
inductive ScriptPc where
  | idle
  /-- It has read the global kinds and has some flags to store. -/
  | storing (flags : List Capture) (kinds : Kinds) (rules : List Rule) (flushRanges : List Range)
  /-- It has published the rules and has some ranges to invalidate. -/
  | flushing (flushRanges : List Range)
  deriving DecidableEq

/-- Where the callback is in the instrumentation of an instruction. -/
inductive InsPc where
  | idle
  /-- It has found no engine on for the address. -/
  | gate (address : UInt64)
  /-- It goes through the engines and has inserted the calls of some. -/
  | flag (address : UInt64) (engines inserted : List Capture)
  /-- The flag of the first engine is set. -/
  | wantsGlobal (address : UInt64) (k : Capture) (engines inserted : List Capture)
  /-- The engine is not on for the address. -/
  | wantsPolicy (address : UInt64) (k : Capture) (engines inserted : List Capture)
  deriving DecidableEq

/-- The engines, the two threads and the code cache. -/
structure State where
  /-- `GLOBAL_ENGINE_KINDS`. -/
  globalKinds : Kinds
  /-- `ENABLE_EXEC`, `ENABLE_MEMORY` and `ENABLE_BRANCH`. -/
  enable : Capture → Bool
  /-- `INSTRUMENTATION_POLICY`. -/
  policy : List Rule
  /-- The query server. -/
  query : QueryPc
  /-- The scripting thread. -/
  script : ScriptPc
  /-- The callback. -/
  ins : InsPc
  /-- The capture calls of the instrumented instructions. -/
  cache : UInt64 → Option (List Capture)

/-- An instruction, as far as its capture calls depend on it. -/
structure Instruction where
  /-- It is a branch, a call or a return. -/
  branchy : Bool
  /-- Its memory operands: whether each is read and whether it is written. -/
  operands : List (Bool × Bool)

/-- An engine has calls for an instruction.  Those for memory are one for each
access of an operand, and only branches, calls and returns have edges. -/
def Instruction.has (i : Instruction) : Capture → Bool
  | .exec => true
  | .memory => i.operands.any fun operand => operand.1 || operand.2
  | .branch => i.branchy

/-- What was started with. -/
structure Startup where
  /-- `TRACE_START` and `TRACE_END`. -/
  traceRange : Range
  /-- The engines on from the start. -/
  engines : Kinds
  /-- The instructions of the application. -/
  instruction : UInt64 → Instruction

variable (c : Startup)

/-- The Agent has read its environment. -/
def State.init : State where
  globalKinds := c.engines
  enable k := k.kind ∈ c.engines
  policy := []
  query := .idle
  script := .idle
  ins := .idle
  cache _ := none

/-- Some rule has a kind. -/
def usesKind (rules : List Rule) (kind : UInt32) : Bool := rules.any fun r => kind ∈ r.kinds

/-- `global_engine_matches`. -/
def State.globalEngineMatches (s : State) (address : UInt64) (kind : UInt32) : Bool :=
  kind ∈ s.globalKinds && c.traceRange.has address

/-- Invalidate a range. -/
def State.removeInstrumentation (s : State) (r : Range) : State :=
  { s with cache := fun address => if r.has address then none else s.cache address }

/-! ## Steps -/

/-- What happens next. -/
inductive Action where
  /-- A call of `set_engine_enabled`. -/
  | setEngine (kind : UInt32) (on : Bool)
  /-- The query server goes on. -/
  | query
  /-- A call of `set_instrumentation_policies`. -/
  | setPolicies (configs : List PolicyConfig)
  /-- The scripting thread goes on. -/
  | script
  /-- Pin comes to an instruction that is not instrumented. -/
  | onIns (address : UInt64)
  /-- The callback goes on. -/
  | ins

/-- `set_engine_enabled` changes the global kinds. -/
def State.setEngine (s : State) (kind : UInt32) (on : Bool) : State :=
  match Capture.ofKind kind with
  | none => s
  | some k =>
      { s with
        globalKinds := if on then insert k.kind s.globalKinds else s.globalKinds.erase k.kind
        query := .changed k on s.globalKinds }

/-- The next part of `set_engine_enabled`. -/
def State.queryStep (s : State) : QueryPc → Option State
  | .idle => none
  | .changed k on previous =>
      some { s with query := .looked k on previous (usesKind s.policy k.kind) }
  | .looked k on previous policyUsesKind =>
      let changed : Bool := decide (k.kind ∈ previous) ≠ on
      some { s with
        enable := Function.update s.enable k (on || policyUsesKind)
        query := if changed then .stored else .idle }
  | .stored =>
      if s.ins = .idle then some { s.removeInstrumentation c.traceRange with query := .idle }
      else none

/-- `set_instrumentation_policies` checks the policies and reads the global
kinds. -/
def State.setPolicies (s : State) (configs : List PolicyConfig) : State :=
  if configs = [] then
    { s with
      script := .storing captures s.globalKinds [] (s.policy.map Rule.range) }
  else
    match addPolicies configs [] with
    | none => s
    | some rules =>
        { s with
          script := .storing captures (rules.foldl (fun kinds r => kinds ∪ r.kinds) s.globalKinds)
            rules (rules.map Rule.range).dedup }

/-- The next part of `set_instrumentation_policies`. -/
def State.scriptStep (s : State) : ScriptPc → Option State
  | .idle => none
  | .storing (k :: flags) kinds rules flushRanges =>
      some { s with
        enable := Function.update s.enable k (k.kind ∈ kinds)
        script := .storing flags kinds rules flushRanges }
  | .storing [] _ rules flushRanges =>
      some { s with policy := rules, script := .flushing flushRanges }
  | .flushing (r :: flushRanges) =>
      if s.ins = .idle then
        some { s.removeInstrumentation r with script := .flushing flushRanges }
      else none
  | .flushing [] => some { s with script := .idle }

/-- The callback has inserted the calls of an instruction. -/
def State.finish (s : State) (address : UInt64) (inserted : List Capture) : State :=
  { s with ins := .idle, cache := Function.update s.cache address (some inserted) }

/-- The capture calls of an engine are inserted, if it has some for the
instruction. -/
def insertCall (address : UInt64) (k : Capture) (inserted : List Capture) : List Capture :=
  if (c.instruction address).has k then k :: inserted else inserted

/-- The next part of the callback. -/
def State.insStep (s : State) : InsPc → State
  | .idle => s
  | .gate address =>
      if s.policy.any fun r => r.range.has address then
        { s with ins := .flag address captures [] }
      else s.finish address []
  | .flag address [] inserted => s.finish address inserted
  | .flag address (k :: engines) inserted =>
      if s.enable k then { s with ins := .wantsGlobal address k engines inserted }
      else { s with ins := .flag address engines inserted }
  | .wantsGlobal address k engines inserted =>
      if s.globalEngineMatches c address k.kind then
        { s with ins := .flag address engines (insertCall c address k inserted) }
      else { s with ins := .wantsPolicy address k engines inserted }
  | .wantsPolicy address k engines inserted =>
      if s.policy.any fun r => r.matchesInstrumentation address k.kind then
        { s with ins := .flag address engines (insertCall c address k inserted) }
      else { s with ins := .flag address engines inserted }

/-- The callback looks whether an engine is on for the address. -/
def State.onIns (s : State) (address : UInt64) : State :=
  if s.globalKinds ≠ ∅ ∧ c.traceRange.has address then
    { s with ins := .flag address captures [] }
  else { s with ins := .gate address }

/-- One action. -/
def State.step (s : State) : Action → Option State
  | .setEngine kind on => if s.query = .idle then some (s.setEngine kind on) else none
  | .query => s.queryStep c s.query
  | .setPolicies configs => if s.script = .idle then some (s.setPolicies configs) else none
  | .script => s.scriptStep s.script
  | .onIns address =>
      if s.ins = .idle ∧ s.cache address = none then some (s.onIns c address) else none
  | .ins => if s.ins = .idle then none else some (s.insStep c s.ins)

/-! ## Events -/

/-- `analysis_generation` finds one. -/
def State.analysisMatches (s : State) (address : UInt64) (threadId kind : UInt32) : Bool :=
  s.globalEngineMatches c address kind ||
    s.policy.any fun r => r.matchesAnalysis address threadId kind

/-- An execution of an instruction. -/
structure Execution where
  /-- The thread. -/
  threadId : UInt32
  /-- The predicate of the instruction holds.  Its calls are predicated. -/
  predicate : Bool
  /-- It is a step of the debugger (`on_step_event`). -/
  stepped : Bool

/-- The calls of an engine that are inserted come to the flag of the engine.
`on_exec` does not at a step of the debugger. -/
def Execution.comesTo (e : Execution) (k : Capture) : Bool :=
  e.predicate && !(k = .exec && e.stepped)

/-- The callbacks `on_exec`, `on_memory` and `on_branch_edge` of an instruction
with some capture calls submit an event. -/
def State.submits (s : State) (inserted : List Capture) (address : UInt64) (e : Execution)
    (k : Capture) : Bool :=
  k ∈ inserted && e.comesTo k && s.enable k && s.analysisMatches c address e.threadId k.kind

/-- Engines and policies agree when both threads are idle. -/
structure State.Agrees (s : State) : Prop where
  /-- The flags. -/
  enable : ∀ k, s.enable k = (decide (k.kind ∈ s.globalKinds) || usesKind s.policy k.kind)
  /-- The events of an execution of an instrumented instruction. -/
  submits : ∀ address inserted, s.cache address = some inserted → ∀ e k,
    s.submits c inserted address e k =
      ((c.instruction address).has k && e.comesTo k &&
        s.analysisMatches c address e.threadId k.kind)

end PinBridge.Engines
