import Mathlib.Algebra.Order.Ring.Int
import Mathlib.Data.List.FinRange
import PinBridge.Hooks.Prototype
import PinBridge.Lib.PartialMaps
import PinBridge.Scripts.Handlers

/-!
# Responses of the interceptors

A handler of `pb.intercept` raises, or returns a Python value.  The dispatcher of its event reads
the value as an `InterceptResponse` (`parseResponse`), which says what is to change: registers,
arguments, the number of a system call, what it returns, or whether an event is passed to the
debugger.  It merges the responses of all handlers into one (`mergeResponse`), which is complete
unless a handler failed or two of them disagree (`dispatch`).

What a dispatch does to the registry of the plugins is left out: errors, the removal of handlers
that are called once, and counters.  The handlers are collected before the first is called.
-/

namespace PinBridge.Interceptors

open Hooks (lower trim oneOf)
open Utf8 (Text)

/-! ## Architecture -/

/-- The architecture of the application. -/
inductive Arch where
  | ia32
  | intel64
  deriving DecidableEq, Repr

/-- `MAX_REGISTERS`. -/
abbrev maxRegisters : Nat := 18

/-- `MAX_STACK_ARGUMENTS`. -/
abbrev maxStackArguments : Nat := 4

/-- `MAX_SYSCALL_ARGUMENTS`. -/
abbrev maxSyscallArguments : Nat := 6

/-- `arch::name`. -/
def Arch.name : Arch → String
  | .ia32 => "x86"
  | .intel64 => "x64"

/-- The names of `gp_registers`. -/
def Arch.gpRegisters : Arch → List String
  | .ia32 => ["eax", "ebx", "ecx", "edx", "esi", "edi", "ebp", "esp", "eip", "eflags"]
  | .intel64 =>
      ["rax", "rbx", "rcx", "rdx", "rsi", "rdi", "rbp", "rsp", "r8", "r9", "r10", "r11", "r12",
        "r13", "r14", "r15", "rip", "rflags"]

/-- `return_reg`. -/
def Arch.returnReg : Arch → String
  | .ia32 => "eax"
  | .intel64 => "rax"

/-- `instr_ptr_reg`. -/
def Arch.instrPtrReg : Arch → String
  | .ia32 => "eip"
  | .intel64 => "rip"

/-- The position of a register. -/
def Arch.position (arch : Arch) (name : Text) : Option (Fin maxRegisters) :=
  (List.finRange maxRegisters).find? fun i =>
    arch.gpRegisters[i.val]?.any fun candidate => candidate.toList == lower name

example : Arch.intel64.position Arch.intel64.instrPtrReg.toList = some 16 := by decide

example : Arch.ia32.position Arch.ia32.instrPtrReg.toList = some 8 := by decide

/-- The name of a register in a message. -/
def Arch.label (arch : Arch) (i : Fin maxRegisters) : String :=
  arch.gpRegisters[i.val]?.getD "register"

/-! ## Responses -/

/-- Some of `n` words, with a bit for each that is set. -/
structure Words (n : Nat) where
  mask : BitVec 32
  values : Vector UInt64 n
  deriving DecidableEq

/-- A word that may be set. -/
structure OptionalWord where
  isSet : Bool
  word : UInt64
  deriving DecidableEq

/-- `HOOK_ACTION_CONTINUE` and `HOOK_ACTION_RETURN`. -/
inductive HookAction where
  | continue
  | return
  deriving DecidableEq, Repr

/-- `InterceptResponse`. -/
structure Response where
  action : HookAction
  registers : Words maxRegisters
  stackArguments : Words maxStackArguments
  syscallNumber : OptionalWord
  syscallArguments : Words maxSyscallArguments
  syscallReturn : OptionalWord
  syscallErrno : OptionalWord
  debuggerPassSet : Bool
  debuggerPassToDebugger : Bool
  deriving DecidableEq

/-- No word is set. -/
def Words.empty {n : Nat} : Words n := ⟨0#32, Vector.replicate n 0⟩

/-- `InterceptResponse::EMPTY`. -/
def Response.empty : Response where
  action := .continue
  registers := .empty
  stackArguments := .empty
  syscallNumber := ⟨false, 0⟩
  syscallArguments := .empty
  syscallReturn := ⟨false, 0⟩
  syscallErrno := ⟨false, 0⟩
  debuggerPassSet := false
  debuggerPassToDebugger := true

/-- Set a word, whatever it was. -/
def Words.put {n : Nat} (words : Words n) (index : Fin n) (value : UInt64) : Words n :=
  ⟨words.mask ||| 1#32 <<< index.val, words.values.set index value⟩

/-- `response_set`. -/
def responseSet {n : Nat} (words : Words n) (index : Fin n) (value : UInt64) (field : String) :
    Except String (Words n) :=
  if words.mask &&& 1#32 <<< index.val ≠ 0#32 ∧ words.values[index] ≠ value then
    .error s!"conflicting values for {field}"
  else .ok (words.put index value)

/-- `merge_optional_word`, of a word that is set. -/
def mergeOptionalWord (aggregate : OptionalWord) (incoming : UInt64) (field : String) :
    Except String OptionalWord :=
  if aggregate.isSet ∧ aggregate.word ≠ incoming then .error s!"conflicting values for {field}"
  else .ok ⟨true, incoming⟩

/-- `set_pass_decision`. -/
def setPassDecision (response : Response) (pass : Bool) : Except String Response :=
  if response.debuggerPassSet ∧ response.debuggerPassToDebugger ≠ pass then
    .error "conflicting pass_to_debugger values"
  else .ok { response with debuggerPassSet := true, debuggerPassToDebugger := pass }

/-! ## Fields -/

/-- What a response may set. -/
inductive Field where
  | register (i : Fin maxRegisters)
  | stackArgument (i : Fin maxStackArguments)
  | syscallNumber
  | syscallArgument (i : Fin maxSyscallArguments)
  | syscallReturn
  | syscallErrno
  | debuggerPass
  deriving DecidableEq, Repr

/-- The values of a field. -/
def Field.Value : Field → Type
  | .debuggerPass => Bool
  | _ => UInt64

/-- The word at an index, if it is set. -/
def Words.get {n : Nat} (words : Words n) (index : Fin n) : Option UInt64 :=
  if words.mask &&& 1#32 <<< index.val ≠ 0#32 then some words.values[index] else none

/-- The word, if it is set. -/
def OptionalWord.get (word : OptionalWord) : Option UInt64 :=
  if word.isSet then some word.word else none

/-- The value of a field, if it is set. -/
def Response.get (r : Response) : (field : Field) → Option field.Value
  | .register i => r.registers.get i
  | .stackArgument i => r.stackArguments.get i
  | .syscallNumber => r.syscallNumber.get
  | .syscallArgument i => r.syscallArguments.get i
  | .syscallReturn => r.syscallReturn.get
  | .syscallErrno => r.syscallErrno.get
  | .debuggerPass => if r.debuggerPassSet then some r.debuggerPassToDebugger else none

/-- Set a field that may be set already, with the message of `merge_response` for a conflict. -/
def Response.set (arch : Arch) (r : Response) : (field : Field) → field.Value →
    Except String Response
  | .register i, value =>
      (responseSet r.registers i value (arch.label i)).map fun registers => { r with registers }
  | .stackArgument i, value =>
      (responseSet r.stackArguments i value s!"arguments[{i}]").map fun stackArguments =>
        { r with stackArguments }
  | .syscallNumber, value =>
      (mergeOptionalWord r.syscallNumber value "number").map fun syscallNumber =>
        { r with syscallNumber }
  | .syscallArgument i, value =>
      (responseSet r.syscallArguments i value s!"arguments[{i}]").map fun syscallArguments =>
        { r with syscallArguments }
  | .syscallReturn, value =>
      (mergeOptionalWord r.syscallReturn value "return_value").map fun syscallReturn =>
        { r with syscallReturn }
  | .syscallErrno, value =>
      (mergeOptionalWord r.syscallErrno value "errno").map fun syscallErrno =>
        { r with syscallErrno }
  | .debuggerPass, pass => setPassDecision r pass

/-! ## Python values -/

/-- A Python value, as far as the dispatchers look at it. -/
inductive PyValue where
  | none
  | bool (b : Bool)
  | int (i : Int)
  | str (text : Text)
  | list (items : List PyValue)
  | dict (items : List (PyValue × PyValue))
  /-- Any other object, with what its `__index__` gives. -/
  | other (index : Option Int)

/-- The value of a key of a dictionary. -/
def getItem (items : List (PyValue × PyValue)) (key : String) : Option PyValue :=
  (items.find? fun item =>
    match item.1 with
    | .str text => text == key.toList
    | _ => false).map (·.2)

/-- The number that a value stands for. -/
def PyValue.index : PyValue → Option Int
  | .bool b => some (if b then 1 else 0)
  | .int i => some i
  | .other index => index
  | _ => Option.none

/-- `extract_word`: an unsigned word or else a signed one. -/
def extractWord (value : PyValue) (field : String) : Except String UInt64 :=
  match value.index with
  | some i =>
      if -2 ^ 63 ≤ i ∧ i < 2 ^ 64 then .ok (.ofInt i)
      else .error s!"{field} must be an integer fitting 64 bits"
  | none => .error s!"{field} must be an integer fitting 64 bits"

/-! ## Reading a response -/

/-- The kind of a request, which is the selector of its handlers. -/
inductive Kind where
  | hookEntry
  | hookReturn
  | syscallEntry
  | syscallExit
  | exceptionHandle
  | debuggerBreakpoint
  | debuggerSingleStep
  | debuggerAsyncBreak
  deriving DecidableEq, Repr

/-- The entries of `registers`. -/
def parseRegisterItems (arch : Arch) : List (PyValue × PyValue) → Words maxRegisters →
    Except String (Words maxRegisters)
  | [], registers => .ok registers
  | (.str text, value) :: items, registers =>
      let name := String.ofList text
      let architecture := arch.name
      match arch.position text with
      | none => .error s!"unknown register for {architecture}: {name}"
      | some index =>
          (extractWord value s!"register {name}").bind fun value =>
            (responseSet registers index value s!"register {name}").bind
              (parseRegisterItems arch items)
  | _ :: _, _ => .error "register name must be a string"

/-- The value of `registers`. -/
def parseRegisters (arch : Arch) (value : Option PyValue) (registers : Words maxRegisters) :
    Except String (Words maxRegisters) :=
  match value with
  | none => .ok registers
  | some (.dict items) => parseRegisterItems arch items registers
  | some _ => .error "registers must be a dictionary"

/-- The items of a list of words. -/
def parseWords {n : Nat} (put : Words n → Fin n → UInt64 → String → Except String (Words n)) :
    List (Fin n × PyValue) → Words n → Except String (Words n)
  | [], words => .ok words
  | (index, value) :: items, words =>
      (extractWord value s!"arguments[{index}]").bind fun value =>
        (put words index value s!"arguments[{index}]").bind (parseWords put items)

/-- The value of `action` of a Hook. -/
def parseHookAction (kind : Kind) (value : Option PyValue) : Except String HookAction :=
  match value with
  | none => .ok .continue
  | some (.str action) =>
      let word := lower (trim action)
      let name := String.ofList action
      if oneOf word ["continue", "proceed", "resume"] then .ok .continue
      else if oneOf word ["return", "skip"] then
        if kind = .hookEntry then .ok .return
        else .error "action='return' is valid only for hook.entry"
      else .error s!"unknown Hook action: {name}"
  | some _ => .error "Hook action must be a string"

/-- The value of `arguments` or `stack_arguments` of a Hook. -/
def parseStackArguments (kind : Kind) (value : Option PyValue) :
    Except String (Words maxStackArguments) :=
  match value with
  | none => .ok .empty
  | some value =>
      if kind ≠ .hookEntry then .error "Hook return interceptors cannot patch stack arguments"
      else
        match value with
        | .list items =>
            if maxStackArguments < items.length then
              .error "arguments accepts at most four items"
            else parseWords responseSet ((List.finRange _).zip items) .empty
        | _ => .error "arguments must be a list with at most four items"

/-- The value of `return_value` of a Hook. -/
def parseHookReturn (arch : Arch) (value : Option PyValue) (registers : Words maxRegisters) :
    Except String (Words maxRegisters) :=
  match value with
  | none => .ok registers
  | some value =>
      (extractWord value "return_value").bind fun value =>
        match arch.position arch.returnReg.toList with
        | none => .error "native return register is not available"
        | some index => responseSet registers index value "return_value"

/-- `parse_response` of `hook`. -/
def parseHook (arch : Arch) (kind : Kind) : PyValue → Except String Response
  | .none => .ok .empty
  | .dict items =>
      (parseHookAction kind (getItem items "action")).bind fun action =>
        (parseRegisters arch (getItem items "registers") .empty).bind fun registers =>
          (parseStackArguments kind
            ((getItem items "arguments").or (getItem items "stack_arguments"))).bind
            fun stackArguments =>
              (parseHookReturn arch (getItem items "return_value") registers).map fun registers =>
                { Response.empty with action, registers, stackArguments }
  | _ => .error "Hook interceptor must return None or a dictionary"

/-- A word of a system call that can be changed on one side of it only. -/
def parseSyscallWord (allowed : Bool) (value : Option PyValue) (field refusal : String) :
    Except String OptionalWord :=
  match value with
  | none => .ok ⟨false, 0⟩
  | some value =>
      if allowed then (extractWord value field).map fun word => ⟨true, word⟩ else .error refusal

/-- The value of `arguments` of a system call. -/
def parseSyscallArguments (entry : Bool) (value : Option PyValue) :
    Except String (Words maxSyscallArguments) :=
  match value with
  | none => .ok .empty
  | some value =>
      if entry then
        match value with
        | .list items =>
            if maxSyscallArguments < items.length then .error "arguments accepts at most six items"
            else
              parseWords (fun words index value _ => .ok (words.put index value))
                ((List.finRange _).zip items) .empty
        | _ => .error "arguments must be a list with at most six items"
      else .error "arguments can be changed only at syscall.entry"

/-- `parse_response` of `syscall`. -/
def parseSyscall (kind : Kind) : PyValue → Except String Response
  | .none => .ok .empty
  | .dict items =>
      let entry : Bool := kind = .syscallEntry
      (parseSyscallWord entry (getItem items "number") "number"
        "number can be changed only at syscall.entry").bind fun syscallNumber =>
        (parseSyscallArguments entry (getItem items "arguments")).bind fun syscallArguments =>
          (parseSyscallWord (!entry) (getItem items "return_value") "return_value"
            "return_value can be changed only at syscall.exit").bind fun syscallReturn =>
            (parseSyscallWord (!entry) (getItem items "errno") "errno"
              "errno can be changed only at syscall.exit").map fun syscallErrno =>
              { Response.empty with syscallNumber, syscallArguments, syscallReturn, syscallErrno }
  | _ => .error "syscall interceptor must return None or a dictionary"

/-- `parse_response` of `exception`. -/
def parseException (arch : Arch) : PyValue → Except String Response
  | .none => .ok .empty
  | .dict items =>
      (parseRegisters arch (getItem items "registers") .empty).map fun registers =>
        { Response.empty with registers }
  | _ => .error "exception.handle must return None or a dictionary"

/-- The value of `pass_to_debugger`. -/
def parsePass (value : Option PyValue) (response : Response) : Except String Response :=
  match value with
  | none => .ok response
  | some (.bool pass) => setPassDecision response pass
  | some _ => .error "pass_to_debugger must be bool"

/-- The value of `action` for the debugger. -/
def parseDebuggerAction (value : Option PyValue) (response : Response) : Except String Response :=
  match value with
  | none => .ok response
  | some (.str action) =>
      let word := lower (trim action)
      let name := String.ofList action
      if oneOf word ["pass", "stop", "debugger"] then setPassDecision response true
      else if oneOf word ["squash", "consume", "resume"] then setPassDecision response false
      else .error s!"unknown debugger action: {name}"
  | some _ => .error "debugger action must be a string"

/-- `validate_response`. -/
def validateResponse (arch : Arch) (kind : Kind) (response : Response) : Except String Unit :=
  if kind = .debuggerAsyncBreak ∧ response.debuggerPassSet ∧ ¬response.debuggerPassToDebugger then
    .error "debugger.async_break cannot be squashed by Pin"
  else if (kind = .debuggerBreakpoint ∨ kind = .debuggerSingleStep) ∧
      ((arch.position arch.instrPtrReg.toList).any fun index =>
        (response.registers.get index).isSome) ∧
      (¬response.debuggerPassSet ∨ response.debuggerPassToDebugger) then
    .error ("changing the instruction pointer requires pass_to_debugger=False for " ++
      "breakpoint/single-step")
  else .ok ()

/-- `parse_response` of `debugger`. -/
def parseDebugger (arch : Arch) (kind : Kind) : PyValue → Except String Response
  | .none => .ok .empty
  | .dict items =>
      (parsePass (getItem items "pass_to_debugger") .empty).bind fun response =>
        (parseDebuggerAction (getItem items "action") response).bind fun response =>
          (parseRegisters arch (getItem items "registers") .empty).bind fun registers =>
            let response := { response with registers }
            (validateResponse arch kind response).map fun _ => response
  | _ => .error "debugger interceptor must return None or a dictionary"

/-- How the dispatcher of a request reads a value. -/
def parseResponse (arch : Arch) (kind : Kind) (value : PyValue) : Except String Response :=
  match kind with
  | .hookEntry | .hookReturn => parseHook arch kind value
  | .syscallEntry | .syscallExit => parseSyscall kind value
  | .exceptionHandle => parseException arch value
  | .debuggerBreakpoint | .debuggerSingleStep | .debuggerAsyncBreak => parseDebugger arch kind value

/-! ## Merging -/

/-- The fields that the dispatcher of a request merges, in its order. -/
def Kind.fields : Kind → List Field
  | .hookEntry | .hookReturn =>
      (List.finRange _).map .register ++ (List.finRange _).map .stackArgument
  | .syscallEntry | .syscallExit =>
      [.syscallNumber, .syscallReturn, .syscallErrno] ++ (List.finRange _).map .syscallArgument
  | .exceptionHandle => (List.finRange _).map .register
  | .debuggerBreakpoint | .debuggerSingleStep | .debuggerAsyncBreak =>
      .debuggerPass :: (List.finRange _).map .register

/-- The fields of a response. -/
def cells (arch : Arch) : PartialMaps.Cells Response String Field.Value where
  get := Response.get
  set := Response.set arch

/-- `merge_response`, with what is merged before a conflict.  Only a Hook has an action. -/
def mergeResponse (arch : Arch) (kind : Kind) (aggregate response : Response) :
    Response × Option String :=
  PartialMaps.copy (cells arch) response kind.fields
    (if response.action = .return then { aggregate with action := .return } else aggregate)

/-! ## Dispatch -/

/-- What a handler does: it raises or returns a value. -/
inductive Outcome where
  | raises (error : String)
  | returns (value : PyValue)

/-- The response of a handler. -/
def respond (arch : Arch) (kind : Kind) : Outcome → Except String Response
  | .raises error => .error error
  | .returns value => parseResponse arch kind value

/-- The loop over the handlers, with the aggregate and whether it is valid. -/
def dispatchLoop (arch : Arch) (kind : Kind) : List Outcome → Response → Bool → Response × Bool
  | [], aggregate, valid => (aggregate, valid)
  | outcome :: outcomes, aggregate, valid =>
      match respond arch kind outcome with
      | .error _ => dispatchLoop arch kind outcomes aggregate false
      | .ok response =>
          let (aggregate, error) := mergeResponse arch kind aggregate response
          dispatchLoop arch kind outcomes aggregate (valid && error.isNone)

/-- `DecisionSubscription`, as far as the dispatchers look at it. -/
structure Subscription where
  selector : Kind
  order : Nat
  address : Option UInt64
  threadId : Option UInt32
  numbers : Option (List UInt32)
  codes : Option (List UInt32)

/-- A plugin with its handlers. -/
structure Plugin where
  name : String
  running : Bool
  decisions : List (Nat × Subscription)

/-- `InterceptRequest`, as far as the handlers depend on it. -/
structure Request where
  kind : Kind
  threadId : UInt32
  address : UInt64
  syscallNumber : UInt64
  exceptionCode : UInt32

/-- `Handler`. -/
structure Handler where
  plugin : String
  id : Nat
  order : Nat
  deriving DecidableEq, Repr

/-- Whether a subscription is for a request. -/
def Subscription.accepts (s : Subscription) (request : Request) : Bool :=
  s.selector = request.kind && s.threadId.all (· = request.threadId) &&
    match request.kind with
    | .hookEntry | .hookReturn => s.address = some request.address
    | .syscallEntry | .syscallExit =>
        s.numbers.all fun numbers => request.syscallNumber.toUInt32 ∈ numbers
    | .exceptionHandle => s.codes.all fun codes => request.exceptionCode ∈ codes
    | _ => true

/-- The handlers for a request. -/
def matchingHandlers (request : Request) (registry : List Plugin) : List Handler :=
  (registry.filter (·.running)).flatMap fun plugin =>
    (plugin.decisions.filter fun decision => decision.2.accepts request).map fun decision =>
      ⟨plugin.name, decision.1, decision.2.order⟩

/-- `sort_handlers`. -/
def sortHandlers (handlers : List Handler) : List Handler :=
  Handlers.sortHandlers Handler.plugin Handler.order handlers

/-- What the dispatcher of a request passes to `complete`. -/
def dispatch (arch : Arch) (request : Request) (registry : List Plugin)
    (outcome : Handler → Outcome) : Response :=
  let outcomes := (sortHandlers (matchingHandlers request registry)).map outcome
  let (aggregate, valid) := dispatchLoop arch request.kind outcomes .empty true
  if valid then aggregate else .empty

end PinBridge.Interceptors
