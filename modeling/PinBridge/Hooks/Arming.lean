import Mathlib.Data.List.Sort
import PinBridge.Hooks.Capture
import PinBridge.Lib.Transition

/-!
# Arming Hooks

The tables of the Agent that decide what is inserted before a hooked
instruction, and what is inserted (`State`).  Hooks, function entries,
signatures, rules and callback interests are set and removed in any order
(`Op`).  Pin compiles an instruction whenever it needs to, reads the tables
then (`State.onIns`), and keeps the compiled copy until a change invalidates
its address.  There can be several copies of one instruction, compiled at
different times, and any of them may run.

A copy calls the passive callback or the context callback.  The choice is made
when it is compiled, but the signature is looked up when it runs, and setting a
signature invalidates nothing.  So a copy that was compiled without a signature
can run with one.

`State.Ok` relates the Agent's table of layouts to the prototypes they were
made from.  `captured_arguments_iff` says which copies report the caller's
arguments.
-/

namespace PinBridge.Hooks

open Utf8 (Text)

/-! ## Tables -/

/-- The most Hook points. -/
def maxHookPoints : Nat := 32768

/-- The most rules. -/
def maxHookRules : Nat := 65536

/-- An action rule of a Hook. -/
structure HookRule where
  /-- The hooked instruction. -/
  address : Nat
  /-- The thread it applies to. -/
  threadId : Nat
  /-- The register compared, 0 for none. -/
  matchReg : Nat
  /-- The bits compared. -/
  matchMask : Nat
  /-- The value compared with. -/
  matchValue : Nat
  /-- The register written. -/
  setReg : Nat
  /-- The value written. -/
  setValue : Nat
  deriving DecidableEq, Repr

/-- A callback interest: the address, whether it is in returns, and the thread. -/
structure HookInterest where
  /-- The hooked instruction. -/
  address : Nat
  /-- Returns or entries. -/
  isReturn : Bool
  /-- One thread, or all of them. -/
  thread : Option Nat
  deriving DecidableEq, Repr

/-- The flags a callback is inserted with. -/
structure HookFlags where
  /-- The instruction is a `ret`. -/
  isReturn : Bool
  /-- The instruction is a function entry. -/
  functionEntry : Bool
  /-- There is a rule or an interest. -/
  callback : Bool
  deriving DecidableEq, Repr

/-- What a compiled copy of a hooked instruction calls. -/
inductive Primitive where
  | monitor (flags : HookFlags)
  | context (flags : HookFlags)
  deriving DecidableEq, Repr

/-- The flags of a copy. -/
def Primitive.flags : Primitive → HookFlags
  | .monitor flags | .context flags => flags

/-- Whether a copy calls the context callback. -/
def Primitive.inContext : Primitive → Bool
  | .monitor _ => false
  | .context _ => true

/-- The Agent's tables and the compiled copies. -/
structure State where
  /-- The Hook points, sorted. -/
  hooks : List Nat
  /-- The function entries, sorted. -/
  functions : List Nat
  /-- The layouts, sorted by address. -/
  signatures : List FunctionSignatureLayout
  /-- The rules. -/
  rules : List HookRule
  /-- The callback interests. -/
  interests : List HookInterest
  /-- The prototype that the layout of an address was made from. -/
  declared : Nat → Option HookSignature
  /-- The live copies of each instruction. -/
  code : Nat → List Primitive

/-- An Agent that has just started. -/
def State.init : State where
  hooks := []
  functions := []
  signatures := []
  rules := []
  interests := []
  declared _ := none
  code _ := []

/-! ## Invalidation -/

/-- `u64::saturating_add`. -/
def satAdd (a b : Nat) : Nat := min (a + b) (2 ^ 64 - 1)

/-- Extend the window `low..high` by the windows of the sorted addresses that
it reaches. -/
def mergeWindows (span slack : Nat) : (low high : Nat) → List Nat → List (Nat × Nat)
  | low, high, [] => [(low, high)]
  | low, high, a :: rest =>
      if a ≤ satAdd high slack then mergeWindows span slack low (max high (satAdd a span)) rest
      else (low, high) :: mergeWindows span slack a (satAdd a span) rest

/-- The windows of some sorted addresses. -/
def batchWindows (span slack : Nat) : List Nat → List (Nat × Nat)
  | [] => []
  | first :: rest => mergeWindows span slack first (satAdd first span) rest

/-- `pb_pin_remove_instrumentation_in_range`, one window after the other. -/
def State.invalidate (s : State) (windows : List (Nat × Nat)) : State :=
  { s with
    code a := if windows.any fun w => w.1 ≤ a && a ≤ w.2 then [] else s.code a }

/-- Recompile one instruction. -/
def State.flush (s : State) (address : Nat) : State := s.invalidate [(address, address + 15)]

/-- Recompile functions, up to 64 KiB each. -/
def State.flushFunctionBatch (s : State) (addresses : List Nat) : State :=
  s.invalidate (batchWindows 0xffff 0 addresses)

/-- Recompile instructions. -/
def State.flushPlainBatch (s : State) (addresses : List Nat) : State :=
  s.invalidate (batchWindows 15 1 addresses)

/-- Sorted, without duplicates. -/
def sortDedup (addresses : List Nat) : List Nat := (addresses.insertionSort (· ≤ ·)).dedup

/-- Recompile hooked instructions. -/
def State.refreshInstrumentation (s : State) (addresses : List Nat) : State :=
  s.flushPlainBatch (sortDedup (addresses.filter (· ≠ 0)))

/-! ## Hook points -/

/-- Add a Hook point.  A full table refuses. -/
def State.set (s : State) (address : Nat) : State :=
  if address ∈ s.hooks ∨ maxHookPoints ≤ s.hooks.length then s
  else State.flush { s with hooks := s.hooks.orderedInsert (· ≤ ·) address } address

/-- The addresses of a batch that are new and still fit, and the table with
them. -/
def mergeBatch (master addresses : List Nat) (capacity : Nat) : List Nat × List Nat :=
  let incoming := (sortDedup (addresses.filter (· ≠ 0))).filter (· ∉ master)
  let incoming := incoming.take (capacity - master.length)
  ((master ++ incoming).insertionSort (· ≤ ·), incoming)

/-- Add function Hooks. -/
def State.setBatch (s : State) (addresses : List Nat) : State :=
  let (hooks, incoming) := mergeBatch s.hooks addresses maxHookPoints
  let accepted := sortDedup (addresses.filter fun a => a ≠ 0 ∧ a ∈ hooks)
  let (functions, newFunctions) := mergeBatch s.functions accepted maxHookPoints
  State.flushFunctionBatch { s with hooks, functions } (sortDedup (incoming ++ newFunctions))

/-- Add instruction Hooks. -/
def State.setPlainBatch (s : State) (addresses : List Nat) : State :=
  let (hooks, incoming) := mergeBatch s.hooks addresses maxHookPoints
  State.flushPlainBatch { s with hooks } incoming

/-! ## Signatures -/

/-- The layout stored for an address. -/
def State.functionSignature (s : State) (address : Nat) : Option FunctionSignatureLayout :=
  s.signatures.find? (·.address = address)

/-- Store a layout at its place, over the one that is there. -/
def insertLayout (layout : FunctionSignatureLayout) :
    List FunctionSignatureLayout → List FunctionSignatureLayout
  | [] => [layout]
  | l :: ls =>
      if layout.address < l.address then layout :: l :: ls
      else if layout.address = l.address then layout :: ls
      else l :: insertLayout layout ls

/-- Whether a layout is in range. -/
def FunctionSignatureLayout.valid (layout : FunctionSignatureLayout) : Bool :=
  layout.address ≠ 0 && layout.parameterCount ≤ 16 && layout.floatParameterMask < 2 ^ 16 &&
    layout.returnKind ≤ 2 && layout.callingConvention ≤ callConvX86Fastcall

/-- Store a layout.  `none` when it is refused. -/
def setFunctionSignature (signatures : List FunctionSignatureLayout)
    (layout : FunctionSignatureLayout) : Option (List FunctionSignatureLayout) :=
  let mask := layout.floatParameterMask &&& (2 ^ layout.parameterCount - 1)
  if !layout.valid then none
  else if !signatures.any (·.address = layout.address) ∧ maxHookPoints ≤ signatures.length then none
  else some (insertLayout { layout with floatParameterMask := mask } signatures)

/-- Set the signature of an address from its prototype. -/
def State.hookSignatureSet (s : State) (address : Nat) (prototype : Text) (source : String)
    (confidence : Nat) : State :=
  match parse prototype source confidence with
  | .error _ => s
  | .ok sig =>
      match setFunctionSignature s.signatures (sig.layoutAt address) with
      | none => s
      | some signatures =>
          { s with signatures, declared := Function.update s.declared address (some sig) }

/-- Remove the signature of an address. -/
def State.removeFunctionSignature (s : State) (address : Nat) : State :=
  { s with
    signatures := s.signatures.eraseP (·.address = address)
    declared := Function.update s.declared address none }

/-! ## Removal -/

/-- Remove a Hook point. -/
def State.remove (s : State) (address : Nat) : State :=
  let t := State.removeFunctionSignature
    { s with hooks := s.hooks.erase address, functions := s.functions.erase address } address
  if address ∈ s.functions then t.flushFunctionBatch [address]
  else if address ∈ s.hooks then t.flush address
  else t

/-- Remove all Hook points. -/
def State.clear (s : State) : State :=
  State.flushFunctionBatch
    { s with hooks := [], functions := [], signatures := [], declared := fun _ => none } s.hooks

/-! ## Rules and interests -/

/-- Whether an address has a rule. -/
def State.ruleInterested (s : State) (address : Nat) : Bool :=
  s.rules.any (·.address = address)

/-- The rules that differ in the written value only. -/
def HookRule.same (rule item : HookRule) : Bool :=
  item.address = rule.address && item.threadId = rule.threadId &&
    item.matchReg = rule.matchReg && item.matchMask = rule.matchMask &&
    item.matchValue = rule.matchValue && item.setReg = rule.setReg

/-- Replace the value of the first rule that is the same. -/
def replaceRule (rule : HookRule) : List HookRule → List HookRule
  | [] => []
  | item :: rest =>
      if rule.same item then { item with setValue := rule.setValue } :: rest
      else item :: replaceRule rule rest

/-- Add or replace a rule. -/
def State.setRule (s : State) (rule : HookRule) : State :=
  if rule.address = 0 ∨ rule.setReg = 0 ∨ (rule.matchReg ≠ 0 ∧ rule.matchMask = 0) then s
  else
    let replaced := s.rules.any rule.same
    if !replaced ∧ maxHookRules ≤ s.rules.length then s
    else
      let rules := if replaced then replaceRule rule s.rules else s.rules ++ [rule]
      let t := { s with rules := rules.mergeSort fun a b => a.address ≤ b.address }
      if s.ruleInterested rule.address then t else t.refreshInstrumentation [rule.address]

/-- Remove all rules. -/
def State.clearRules (s : State) : State :=
  if s.rules = [] then s
  else State.refreshInstrumentation { s with rules := [] } (s.rules.map (·.address))

/-- Whether an address has a callback of the kind. -/
def State.hookCallbackInterested (s : State) (address : Nat) (isReturn : Bool) : Bool :=
  s.interests.any fun i => i.address = address && i.isReturn = isReturn

/-- Recompile what new callback interests change. -/
def State.refreshCallbackInstrumentation (s : State) (changes : List (Nat × Bool)) : State :=
  let changes := changes.filter fun c => c.1 ∈ s.hooks
  let ofFunction (c : Nat × Bool) : Bool := c.2 && c.1 ∈ s.functions
  let points := (changes.filter fun c => !ofFunction c).map (·.1)
  let functions := (changes.filter ofFunction).map (·.1)
  (s.refreshInstrumentation points).flushFunctionBatch (sortDedup functions)

/-- Replace the callback interests.  Only kinds that were not there before
recompile anything. -/
def State.publishHookInterests (s : State) (interests : List HookInterest) : State :=
  let interests := interests.filter (·.address ≠ 0)
  let kinds := interests.map fun i => (i.address, i.isReturn)
  let changed := kinds.filter fun kind => !s.hookCallbackInterested kind.1 kind.2
  State.refreshCallbackInstrumentation { s with interests } changed

/-! ## Compiling -/

/-- Whether the signature of an address has a floating parameter. -/
def State.richSignature (s : State) (address : Nat) : Bool :=
  match s.functionSignature address with
  | some signature => signature.floatParameterMask ≠ 0
  | none => false

/-- What `on_ins` inserts before a hooked instruction. -/
def State.primitive (s : State) (address : Nat) (isReturn : Bool) : Primitive :=
  let functionEntry := !isReturn && address ∈ s.functions
  let callback := s.ruleInterested address || s.hookCallbackInterested address isReturn
  if callback || (functionEntry && s.richSignature address) then
    .context { isReturn, functionEntry, callback }
  else .monitor { isReturn, functionEntry, callback := false }

/-- Compile an instruction. -/
def State.onIns (s : State) (address : Nat) (isReturn : Bool) : State :=
  if address ∈ s.hooks then
    let copies := s.primitive address isReturn :: s.code address
    { s with code := Function.update s.code address copies }
  else s

/-! ## Operations -/

/-- What can happen between two entries of a function. -/
inductive Op where
  | hookSet (address : Nat)
  | hookSetBatch (addresses : List Nat)
  | hookSetPlainBatch (addresses : List Nat)
  | hookRemove (address : Nat)
  | hookClear
  | hookSignatureSet (address : Nat) (prototype : Text) (source : String) (confidence : Nat)
  | hookSignatureRemove (address : Nat)
  | hookRuleSet (rule : HookRule)
  | hookRuleClear
  | publishHookInterests (interests : List HookInterest)
  | compile (address : Nat) (isReturn : Bool)
  | invalidate (low high : Nat)

/-- The state after an operation. -/
def State.step (s : State) : Op → State
  | .hookSet address => s.set address
  | .hookSetBatch addresses => s.setBatch addresses
  | .hookSetPlainBatch addresses => s.setPlainBatch addresses
  | .hookRemove address => s.remove address
  | .hookClear => s.clear
  | .hookSignatureSet address prototype source confidence =>
      s.hookSignatureSet address prototype source confidence
  | .hookSignatureRemove address => s.removeFunctionSignature address
  | .hookRuleSet rule => s.setRule rule
  | .hookRuleClear => s.clearRules
  | .publishHookInterests interests => s.publishHookInterests interests
  | .compile address isReturn => s.onIns address isReturn
  | .invalidate low high => s.invalidate [(low, high)]

/-- The state after some operations. -/
def State.after (ops : List Op) : State := ops.foldl State.step State.init

/-! ## Running a copy -/

variable {target : Target}

/-- A record with the eight words of an event. -/
def eventRecord (kind : HookKind) (address threadId : Nat) (functionFlag : Bool)
    (values : List Nat) : HookLogRecord where
  kind
  threadId
  address
  argumentCount := if kind = .hookReturn then 0 else 8
  signatureFlag := false
  functionFlag
  arguments := argumentSlots values

/-- A record with the arguments of a signature. -/
def signatureEntryRecord (address threadId argumentCount : Nat) (arguments : List Nat) :
    HookLogRecord where
  kind := .hookRegs
  threadId
  address
  argumentCount := min argumentCount 16
  signatureFlag := true
  functionFlag := true
  arguments

/-- The record of the passive callback. -/
def State.onHookMonitor (s : State) (flags : HookFlags) (address threadId : Nat)
    (e : Entry target) : HookLogRecord :=
  let registers := [0, 1, 2, 3].map e.registers
  let signature := if flags.functionEntry then s.functionSignature address else none
  if flags.isReturn then
    eventRecord .hookReturn address threadId flags.functionEntry (e.returnValue :: registers)
  else match signature with
    | some signature =>
        signatureEntryRecord address threadId signature.parameterCount
          (e.captureMonitorSignatureArguments signature)
    | none =>
        eventRecord .hookRegs address threadId flags.functionEntry
          (registers ++ [0, 1, 2, 3].map e.monitorStackArgument)

/-- The record of the context callback, made before rules and interceptors
change the context. -/
def State.onHookContext (s : State) (flags : HookFlags) (address threadId : Nat)
    (e : Entry target) : HookLogRecord :=
  let registers := [0, 1, 2, 3].map e.registers
  let signature := if flags.functionEntry then s.functionSignature address else none
  if flags.isReturn then
    eventRecord .hookReturn address threadId flags.functionEntry (e.returnValue :: registers)
  else match signature with
    | some signature =>
        signatureEntryRecord address threadId signature.parameterCount
          (e.captureSignatureArguments signature)
    | none =>
        eventRecord .hookRegs address threadId flags.functionEntry
          (registers ++ [0, 1, 2, 3].map fun i => (e.contextStackArg i).getD 0)

/-- The record of a copy that runs on an entry. -/
def Primitive.record (v : Primitive) (s : State) (address threadId : Nat) (e : Entry target) :
    HookLogRecord :=
  match v with
  | .monitor flags => s.onHookMonitor flags address threadId e
  | .context flags => s.onHookContext flags address threadId e

/-! ## Layouts and prototypes -/

/-- The table holds the layouts of the declared prototypes and no others. -/
structure State.Ok (s : State) : Prop where
  /-- One layout for each address. -/
  sorted : s.signatures.Pairwise fun l m => l.address < m.address
  /-- Every layout is that of a declared prototype. -/
  agrees (address : Nat) :
    s.functionSignature address = (s.declared address).map fun sig => sig.layoutAt address
  /-- Every declared prototype was accepted. -/
  admissible {address : Nat} {sig : HookSignature} (h : s.declared address = some sig) :
    sig.Admissible

theorem State.Ok.init : State.init.Ok where
  sorted := .nil
  agrees _ := rfl
  admissible h := nomatch h

/-- The mask of a signature has no bit beyond its parameters. -/
theorem HookSignature.mask_eq (sig : HookSignature) (address : Nat) :
    (sig.layoutAt address).floatParameterMask &&& (2 ^ (sig.layoutAt address).parameterCount - 1) =
      (sig.layoutAt address).floatParameterMask := by
  refine Nat.eq_of_testBit_eq fun i => ?_
  rw [Nat.testBit_and, Nat.testBit_two_pow_sub_one]
  cases hbit : (sig.layoutAt address).floatParameterMask.testBit i with
  | false => rfl
  | true =>
      obtain ⟨p, hp, -⟩ := (sig.testBit_mask i).mp hbit
      have hi : i < (sig.layoutAt address).parameterCount := (List.getElem?_eq_some_iff.mp hp).1
      simp [hi]

theorem find?_insertLayout (layout : FunctionSignatureLayout) (ls : List FunctionSignatureLayout)
    (address : Nat) :
    (insertLayout layout ls).find? (·.address = address) =
      if layout.address = address then some layout else ls.find? (·.address = address) := by
  induction ls with
  | nil =>
      rw [insertLayout, List.find?_cons]
      split <;> simp_all
  | cons l ls ih =>
      rw [insertLayout]
      split
      next =>
        rw [List.find?_cons]
        split <;> simp_all
      next =>
        split
        next heq =>
          rw [List.find?_cons, List.find?_cons, ← heq]
          split <;> simp_all
        next hne =>
          rw [List.find?_cons, List.find?_cons, ih]
          split
          next hl =>
            rw [if_neg (fun heq => hne (heq.trans (of_decide_eq_true hl).symm))]
          next => rfl

theorem mem_insertLayout {layout l : FunctionSignatureLayout}
    {ls : List FunctionSignatureLayout} (h : l ∈ insertLayout layout ls) : l = layout ∨ l ∈ ls := by
  induction ls with
  | nil => exact .inl (List.mem_singleton.mp h)
  | cons m ls ih =>
      rw [insertLayout] at h
      split at h
      · exact List.mem_cons.mp h
      · split at h
        · exact (List.mem_cons.mp h).imp id fun h => List.mem_cons_of_mem _ h
        · rcases List.mem_cons.mp h with rfl | h
          · exact .inr (by simp)
          · exact (ih h).imp id fun h => List.mem_cons_of_mem _ h

theorem insertLayout_sorted {layout : FunctionSignatureLayout} {ls : List FunctionSignatureLayout}
    (h : ls.Pairwise fun l m => l.address < m.address) :
    (insertLayout layout ls).Pairwise fun l m => l.address < m.address := by
  induction ls with
  | nil => exact List.pairwise_singleton _ _
  | cons m ls ih =>
      obtain ⟨hm, hls⟩ := List.pairwise_cons.mp h
      rw [insertLayout]
      split
      next hlt =>
        refine List.pairwise_cons.mpr ⟨fun k hk => ?_, h⟩
        rcases List.mem_cons.mp hk with rfl | hk
        · exact hlt
        · exact hlt.trans (hm k hk)
      next hge =>
        split
        next heq => exact List.pairwise_cons.mpr ⟨fun k hk => heq ▸ hm k hk, hls⟩
        next hne =>
          refine List.pairwise_cons.mpr ⟨fun k hk => ?_, ih hls⟩
          rcases mem_insertLayout hk with rfl | hk
          · omega
          · exact hm k hk

/-- Operations that touch neither table keep them related. -/
theorem State.Ok.of_eq {s t : State} (h : s.Ok) (hsignatures : t.signatures = s.signatures)
    (hdeclared : t.declared = s.declared) : t.Ok where
  sorted := hsignatures ▸ h.sorted
  agrees address := by
    rw [State.functionSignature, hsignatures, hdeclared]
    exact h.agrees address
  admissible {address sig} hsig := h.admissible (hdeclared ▸ hsig)

theorem State.Ok.hookSignatureSet {s : State} (h : s.Ok) (address : Nat) (prototype : Text)
    (source : String) (confidence : Nat) :
    (s.hookSignatureSet address prototype source confidence).Ok := by
  rw [State.hookSignatureSet]
  split
  next => exact h
  next sig hparse =>
    have hsig := parse_admissible hparse
    split
    next => exact h
    next signatures hset =>
      have hsignatures : signatures = insertLayout (sig.layoutAt address) s.signatures := by
        simp only [setFunctionSignature, HookSignature.mask_eq,
          Option.ite_none_left_eq_some, Option.some.injEq] at hset
        exact hset.2.2.symm
      subst hsignatures
      refine ⟨insertLayout_sorted h.sorted, fun a => ?_, fun {a sig'} hdeclared => ?_⟩
      · dsimp only
        rw [State.functionSignature, find?_insertLayout]
        rcases eq_or_ne address a with rfl | hne
        · rw [if_pos (show (sig.layoutAt address).address = address from rfl),
            Function.update_self, Option.map_some]
        · rw [if_neg (show (sig.layoutAt address).address ≠ a from hne),
            Function.update_of_ne hne.symm]
          exact h.agrees a
      · dsimp only at hdeclared
        rcases eq_or_ne a address with rfl | hne
        · rw [Function.update_self, Option.some.injEq] at hdeclared
          exact hdeclared ▸ hsig
        · rw [Function.update_of_ne hne] at hdeclared
          exact h.admissible hdeclared

theorem find?_eraseP_layout {ls : List FunctionSignatureLayout}
    (h : ls.Pairwise fun l m => l.address < m.address) (address a : Nat) :
    (ls.eraseP (·.address = address)).find? (·.address = a) =
      if a = address then none else ls.find? (·.address = a) := by
  induction ls with
  | nil => simp
  | cons l ls ih =>
      obtain ⟨hl, hls⟩ := List.pairwise_cons.mp h
      rcases eq_or_ne l.address address with rfl | hne
      · rw [List.eraseP_cons_of_pos (by simp)]
        split
        next heq =>
          refine List.find?_eq_none.mpr fun m hm => ?_
          have := hl m hm
          simp only [decide_eq_true_eq]
          omega
        next hne => rw [List.find?_cons_of_neg (by simpa using Ne.symm hne)]
      · rw [List.eraseP_cons_of_neg (by simpa using hne), List.find?_cons, List.find?_cons, ih hls]
        split
        next hla =>
          rw [if_neg]
          rintro rfl
          exact hne (of_decide_eq_true hla)
        next => rfl

theorem State.Ok.removeFunctionSignature {s : State} (h : s.Ok) (address : Nat) :
    (s.removeFunctionSignature address).Ok := by
  refine ⟨h.sorted.sublist List.eraseP_sublist, fun a => ?_, fun {a sig} hdeclared => ?_⟩
  · rw [State.functionSignature, State.removeFunctionSignature]
    dsimp only
    rw [find?_eraseP_layout h.sorted]
    rcases eq_or_ne a address with rfl | hne
    · rw [if_pos rfl, Function.update_self, Option.map_none]
    · rw [if_neg hne, Function.update_of_ne hne]
      exact h.agrees a
  · rw [State.removeFunctionSignature] at hdeclared
    dsimp only at hdeclared
    rcases eq_or_ne a address with rfl | hne
    · rw [Function.update_self] at hdeclared
      exact nomatch hdeclared
    · rw [Function.update_of_ne hne] at hdeclared
      exact h.admissible hdeclared

theorem State.Ok.step {s : State} (h : s.Ok) (op : Op) : (s.step op).Ok := by
  cases op with
  | hookSet address =>
      rw [State.step, State.set]
      split
      · exact h
      · exact h.of_eq rfl rfl
  | hookSetBatch addresses => exact h.of_eq rfl rfl
  | hookSetPlainBatch addresses => exact h.of_eq rfl rfl
  | hookRemove address =>
      have hremoved : State.Ok (State.removeFunctionSignature
          { s with hooks := s.hooks.erase address, functions := s.functions.erase address }
          address) := by
        refine State.Ok.removeFunctionSignature ?_ address
        exact h.of_eq rfl rfl
      rw [State.step, State.remove]
      split
      · exact hremoved.of_eq rfl rfl
      · split
        · exact hremoved.of_eq rfl rfl
        · exact hremoved
  | hookClear => exact ⟨.nil, fun _ => rfl, nofun⟩
  | hookSignatureSet address prototype source confidence =>
      exact h.hookSignatureSet address prototype source confidence
  | hookSignatureRemove address => exact h.removeFunctionSignature address
  | hookRuleSet rule =>
      rw [State.step, State.setRule]
      split
      · exact h
      · dsimp only
        split
        · exact h
        · split
          · exact h.of_eq rfl rfl
          · exact h.of_eq rfl rfl
  | hookRuleClear =>
      rw [State.step, State.clearRules]
      split
      · exact h
      · exact h.of_eq rfl rfl
  | publishHookInterests interests => exact h.of_eq rfl rfl
  | compile address isReturn =>
      rw [State.step, State.onIns]
      split
      · exact h.of_eq rfl rfl
      · exact h
  | invalidate low high => exact h.of_eq rfl rfl

/-- The tables are related after every run. -/
theorem State.Ok.after (ops : List Op) : (State.after ops).Ok := by
  suffices hfold : ∀ s : State, s.Ok → (ops.foldl State.step s).Ok from hfold _ .init
  induction ops with
  | nil => exact fun s h => h
  | cons op ops ih => exact fun s h => ih _ (h.step op)

/-! ## Compiled copies -/

theorem State.mem_invalidate {s : State} {windows : List (Nat × Nat)} {a : Nat} {v : Primitive}
    (h : v ∈ (s.invalidate windows).code a) : v ∈ s.code a := by
  rw [State.invalidate] at h
  dsimp only at h
  split at h
  · exact nomatch h
  · exact h

/-- The only operation that makes a copy is compiling. -/
theorem State.mem_code_step {s : State} {op : Op} {a : Nat} {v : Primitive}
    (h : v ∈ (s.step op).code a) :
    v ∈ s.code a ∨ ∃ isReturn, op = .compile a isReturn ∧ v = s.primitive a isReturn := by
  cases op with
  | compile address isReturn =>
      rw [State.step, State.onIns] at h
      split at h
      · dsimp only at h
        rcases eq_or_ne a address with rfl | hne
        · rw [Function.update_self] at h
          rcases List.mem_cons.mp h with rfl | h
          · exact .inr ⟨isReturn, rfl, rfl⟩
          · exact .inl h
        · rw [Function.update_of_ne hne] at h
          exact .inl h
      · exact .inl h
  | hookSet address =>
      rw [State.step, State.set] at h
      split at h
      · exact .inl h
      · exact .inl (State.mem_invalidate h)
  | hookSetBatch addresses => exact .inl (State.mem_invalidate h)
  | hookSetPlainBatch addresses => exact .inl (State.mem_invalidate h)
  | hookRemove address =>
      rw [State.step, State.remove] at h
      split at h
      · exact .inl (State.mem_invalidate h)
      · split at h
        · exact .inl (State.mem_invalidate h)
        · exact .inl h
  | hookClear => exact .inl (State.mem_invalidate h)
  | hookSignatureSet address prototype source confidence =>
      rw [State.step, State.hookSignatureSet] at h
      split at h
      · exact .inl h
      · split at h <;> exact .inl h
  | hookSignatureRemove address => exact .inl h
  | hookRuleSet rule =>
      rw [State.step, State.setRule] at h
      split at h
      · exact .inl h
      · dsimp only at h
        split at h
        · exact .inl h
        · split at h
          · exact .inl h
          · exact .inl (State.mem_invalidate h)
  | hookRuleClear =>
      rw [State.step, State.clearRules] at h
      split at h
      · exact .inl h
      · exact .inl (State.mem_invalidate h)
  | publishHookInterests interests =>
      exact .inl (State.mem_invalidate (State.mem_invalidate h))
  | invalidate low high => exact .inl (State.mem_invalidate h)

/-- A copy is not compiled both as an entry and as a return. -/
theorem State.not_isReturn {ops : List Op} {a : Nat} {v : Primitive}
    (hv : v ∈ (State.after ops).code a) (hentry : v.flags.functionEntry = true) :
    v.flags.isReturn = false := by
  suffices hfold : ∀ s : State, (∀ v ∈ s.code a, v.flags.functionEntry = true →
      v.flags.isReturn = false) → ∀ v ∈ (ops.foldl State.step s).code a,
      v.flags.functionEntry = true → v.flags.isReturn = false from
    hfold State.init nofun v hv hentry
  clear hv hentry
  induction ops with
  | nil => exact fun s h => h
  | cons op ops ih =>
      refine fun s h => ih _ fun v hv hentry => ?_
      rcases State.mem_code_step hv with hv | ⟨isReturn, -, rfl⟩
      · exact h v hv hentry
      · cases isReturn with
        | false => simp only [State.primitive]; split <;> rfl
        | true =>
            simp only [State.primitive] at hentry
            split at hentry <;> simp [Primitive.flags] at hentry

/-! ## Records -/

/-- A record with the signature flag comes from a function entry that has a
declared prototype. -/
theorem State.Ok.declared_of_flag {s : State} (h : s.Ok) {v : Primitive} {address threadId : Nat}
    {e : Entry target} (hflag : (v.record s address threadId e).signatureFlag = true) :
    v.flags.functionEntry = true ∧ ∃ sig, s.declared address = some sig := by
  have hagrees := h.agrees address
  have hsignature : v.flags.functionEntry = true ∧
      ∃ layout, s.functionSignature address = some layout := by
    cases v with
    | monitor flags =>
        rw [Primitive.record, State.onHookMonitor] at hflag
        split at hflag
        · exact nomatch hflag
        · split at hflag
          next layout hlayout =>
            obtain ⟨hentry, hlayout⟩ := Option.ite_none_right_eq_some.mp hlayout
            exact ⟨hentry, layout, hlayout⟩
          next => exact nomatch hflag
    | context flags =>
        rw [Primitive.record, State.onHookContext] at hflag
        split at hflag
        · exact nomatch hflag
        · split at hflag
          next layout hlayout =>
            obtain ⟨hentry, hlayout⟩ := Option.ite_none_right_eq_some.mp hlayout
            exact ⟨hentry, layout, hlayout⟩
          next => exact nomatch hflag
  obtain ⟨hentry, layout, hlayout⟩ := hsignature
  rw [hlayout] at hagrees
  obtain ⟨sig, hsig, -⟩ := Option.map_eq_some_iff.mp hagrees.symm
  exact ⟨hentry, sig, hsig⟩

/-- A copy at a function entry with a declared prototype sets the flag, and its
record carries what its callback captures. -/
theorem State.Ok.record_eq {s : State} (h : s.Ok) {v : Primitive} {address : Nat}
    {sig : HookSignature} (hsig : s.declared address = some sig)
    (hentry : v.flags.functionEntry = true) (hreturn : v.flags.isReturn = false)
    (threadId : Nat) (e : Entry target) :
    v.record s address threadId e =
      signatureEntryRecord address threadId sig.parameters.length
        (e.captured (sig.layoutAt address) v.inContext) := by
  have hagrees := h.agrees address
  rw [hsig, Option.map_some] at hagrees
  cases v with
  | monitor flags =>
      have hentry : flags.functionEntry = true := hentry
      have hreturn : flags.isReturn = false := hreturn
      simp [Primitive.record, State.onHookMonitor, hentry, hreturn, hagrees, Primitive.inContext,
        Entry.captured, HookSignature.layoutAt, HookSignature.captureLayout]
  | context flags =>
      have hentry : flags.functionEntry = true := hentry
      have hreturn : flags.isReturn = false := hreturn
      simp [Primitive.record, State.onHookContext, hentry, hreturn, hagrees, Primitive.inContext,
        Entry.captured, HookSignature.layoutAt, HookSignature.captureLayout]

/-! ## The caller's arguments -/

/-- The flags of a function entry without callbacks. -/
def entryFlags : HookFlags := ⟨false, true, false⟩

/-- After any operations, the live copies of a function entry report the
caller's arguments in every entry exactly when the function is capturable by
the callback each of them was compiled with, and the two callbacks agree
exactly when it does not matter which of them captures. -/
theorem captured_arguments_iff (target : Target) (ops : List Op) (address : Nat)
    {sig : HookSignature} (hsig : (State.after ops).declared address = some sig)
    {f : CFunction} (htyped : sig.Typed target f) :
    ((∀ v ∈ (State.after ops).code address, ∀ (threadId : Nat) (e : Entry target)
        (values : List Nat), e.LaidOut f values →
        (v.record (State.after ops) address threadId e).signatureFlag = true →
        Carries (v.record (State.after ops) address threadId e).arguments
          (passings target f) values) ↔
      ∀ v ∈ (State.after ops).code address, v.flags.functionEntry = true →
        sig.Capturable target f v.inContext) ∧
    ((∀ (threadId : Nat) (e : Entry target) (values : List Nat), e.LaidOut f values →
        (Primitive.monitor entryFlags).record (State.after ops) address threadId e =
          (Primitive.context entryFlags).record (State.after ops) address threadId e) ↔
      sig.Alike target f) := by
  have hok := State.Ok.after ops
  have hadmissible := hok.admissible hsig
  constructor
  · constructor
    · intro hall v hv hentry
      have hrecord (threadId : Nat) (e : Entry target) :=
        hok.record_eq hsig hentry (State.not_isReturn hv hentry) threadId e
      refine (captured_iff_capturable hadmissible htyped address v.inContext).mp
        fun e values hlaid => ?_
      have := hall v hv 0 e values hlaid
      rw [hrecord] at this
      exact this rfl
    · intro hall v hv threadId e values hlaid hflag
      obtain ⟨hentry, -⟩ := hok.declared_of_flag hflag
      rw [hok.record_eq hsig hentry (State.not_isReturn hv hentry)]
      exact (captured_iff_capturable hadmissible htyped address v.inContext).mpr
        (hall v hv hentry) e values hlaid
  · rw [← alike_iff hadmissible htyped address]
    have hmonitor (threadId : Nat) (e : Entry target) :=
      hok.record_eq (v := .monitor entryFlags) hsig rfl rfl threadId e
    have hcontext (threadId : Nat) (e : Entry target) :=
      hok.record_eq (v := .context entryFlags) hsig rfl rfl threadId e
    constructor
    · intro hall e values hlaid
      have := hall 0 e values hlaid
      rw [hmonitor, hcontext] at this
      exact congrArg HookLogRecord.arguments this
    · intro hall threadId e values hlaid
      rw [hmonitor, hcontext]
      exact congrArg _ (hall e values hlaid)

/-- A function Hook is armed, the entry is compiled, and then it gets a
signature. -/
def lateSignature (prototype : String) : List Op :=
  [.hookSetBatch [4096], .compile 4096 false,
    .hookSignatureSet 4096 prototype.toList "header" 100]

/-- Setting a signature in an empty table leaves the copies alone. -/
theorem State.hookSignatureSet_of_empty {s : State} {address : Nat} {prototype : Text}
    {sig : HookSignature} (hparse : parse prototype "header" 100 = .ok sig)
    (hempty : s.signatures = [])
    (hset : (setFunctionSignature [] (sig.layoutAt address)).isSome = true) :
    (s.hookSignatureSet address prototype "header" 100).declared address = some sig ∧
      (s.hookSignatureSet address prototype "header" 100).code = s.code := by
  obtain ⟨signatures, hset⟩ := Option.isSome_iff_exists.mp hset
  rw [State.hookSignatureSet, hparse]
  simp only [hempty, hset]
  exact ⟨Function.update_self _ _ _, trivial⟩

theorem State.after_lateSignature {prototype : String} {sig : HookSignature}
    (hparse : parse prototype.toList "header" 100 = .ok sig)
    (hset : (setFunctionSignature [] (sig.layoutAt 4096)).isSome = true) :
    (State.after (lateSignature prototype)).declared 4096 = some sig ∧
      (State.after (lateSignature prototype)).code 4096 = [.monitor entryFlags] := by
  have hcode : ((State.init.setBatch [4096]).onIns 4096 false).code 4096 =
      [.monitor entryFlags] := by decide +kernel
  have hset := State.hookSignatureSet_of_empty
    (s := (State.init.setBatch [4096]).onIns 4096 false) hparse (by decide +kernel) hset
  simp only [State.after, lateSignature, List.foldl_cons, List.foldl_nil, State.step]
  refine ⟨hset.1, ?_⟩
  rw [hset.2, hcode]

/-- The type of `f` in the first entry below. -/
def integersFunction : CFunction where
  convention := .cdecl
  returned := some (.integer 4)
  parameters := [.integer 8, .integer 4]
  isVariadic := false
  resultInEcx := false

theorem captured_arguments_iff_integers :
    ∃ sig, (State.after (lateSignature "int f(char *s, int n)")).declared 4096 = some sig ∧
      (∀ v ∈ (State.after (lateSignature "int f(char *s, int n)")).code 4096,
        ∀ (threadId : Nat) (e : Entry .win64) (values : List Nat),
          e.LaidOut integersFunction values →
          (v.record (State.after (lateSignature "int f(char *s, int n)")) 4096 threadId
            e).signatureFlag = true →
          Carries (v.record (State.after (lateSignature "int f(char *s, int n)")) 4096 threadId
              e).arguments (passings .win64 integersFunction) values) ∧
      (State.after (lateSignature "int f(char *s, int n)")).code 4096 = [.monitor entryFlags] := by
  let sig : HookSignature := {
    prototype := "int f(char *s, int n);".toList, source := "header", confidence := 100
    function := ['f'], callingConvention := .cdecl
    returnType := ⟨"int".toList, .signed, some 4, false⟩
    parameters := [⟨['s'], "char *".toList, .utf8Pointer, none, true⟩,
      ⟨['n'], "int".toList, .signed, some 4, false⟩]
    isVariadic := false }
  have hparse : parse "int f(char *s, int n)".toList "header" 100 = .ok sig := by decide +kernel
  have hrun := State.after_lateSignature hparse (by decide)
  have htyped : sig.Typed .win64 integersFunction := {
    convention := rfl
    isVariadic := rfl
    returned := .value (.integer rfl rfl (by decide) (by decide))
    described := .cons (.integer rfl rfl (by decide) (by decide))
      (.cons (.integer rfl rfl (by decide) (by decide)) .nil)
    fits := by decide }
  refine ⟨sig, hrun.1, ?_, hrun.2⟩
  refine (captured_arguments_iff .win64 (lateSignature "int f(char *s, int n)") 4096
    hrun.1 htyped).1.mpr fun v _ _ => ⟨nofun, .inr fun i p ty _ _ hty hfloat => ?_⟩
  match i with
  | 0 => cases hty; exact nomatch hfloat
  | 1 => cases hty; exact nomatch hfloat
  | _ + 2 => exact nomatch hty

/-- The type of `double f(double x)`. -/
def doubleFunction : CFunction where
  convention := .cdecl
  returned := some (.floating 8)
  parameters := [.floating 8]
  isVariadic := false
  resultInEcx := false

/-- The type of `int f(double x, int n)`. -/
def mixedFunction : CFunction where
  convention := .cdecl
  returned := some (.integer 4)
  parameters := [.floating 8, .integer 4]
  isVariadic := false
  resultInEcx := false

/-- A `double` is lost when its signature comes after a passive copy.  On IA-32
what follows a `double` is read from the wrong slot. -/
theorem float_argument_lost :
    (∃ sig, (State.after (lateSignature "double f(double x)")).declared 4096 = some sig ∧
      sig.Typed .win64 doubleFunction ∧
      ∃ v ∈ (State.after (lateSignature "double f(double x)")).code 4096,
        (Entry.probe .win64 [.xmm 0]).LaidOut doubleFunction [1] ∧
        (v.record (State.after (lateSignature "double f(double x)")) 4096 0
          (Entry.probe .win64 [.xmm 0])).signatureFlag = true ∧
        (v.record (State.after (lateSignature "double f(double x)")) 4096 0
          (Entry.probe .win64 [.xmm 0])).arguments = List.replicate 16 0) ∧
    (∃ sig, (State.after (lateSignature "int f(double x, int n)")).declared 4096 = some sig ∧
      sig.Typed .ia32 mixedFunction ∧
      ∃ v ∈ (State.after (lateSignature "int f(double x, int n)")).code 4096,
        (Entry.probe .ia32 [.stack 12]).LaidOut mixedFunction [0, 1] ∧
        (v.record (State.after (lateSignature "int f(double x, int n)")) 4096 0
          (Entry.probe .ia32 [.stack 12])).signatureFlag = true ∧
        (v.record (State.after (lateSignature "int f(double x, int n)")) 4096 0
          (Entry.probe .ia32 [.stack 12])).arguments = List.replicate 16 0) := by
  have hholds {target : Target} {e : Entry target} {l : Location} {width slot value : Nat}
      (h : ∃ word, e.read slot l = some word ∧ word % 256 ^ width = value) :
      e.Holds ⟨l, none, width, slot⟩ value := by
    simpa [Entry.Holds, Passing.places] using h
  constructor
  · let sig : HookSignature := {
      prototype := "double f(double x);".toList, source := "header", confidence := 100
      function := ['f'], callingConvention := .cdecl
      returnType := ⟨"double".toList, .float64, some 8, false⟩
      parameters := [⟨['x'], "double".toList, .float64, some 8, false⟩]
      isVariadic := false }
    have hparse : parse "double f(double x)".toList "header" 100 = .ok sig := by decide +kernel
    obtain ⟨hsig, hcode⟩ := State.after_lateSignature hparse (by decide)
    have hrecord := (State.Ok.after _).record_eq (v := .monitor entryFlags) hsig rfl rfl 0
      (Entry.probe .win64 [.xmm 0])
    have htyped : sig.Typed .win64 doubleFunction := {
      convention := rfl
      isVariadic := rfl
      returned := .value (.float64 rfl)
      described := .cons (.float64 rfl) .nil
      fits := by decide }
    refine ⟨sig, hsig, htyped, .monitor entryFlags, by simp [hcode],
      .cons (hholds ⟨1, rfl, rfl⟩) .nil, ?_, ?_⟩ <;> rw [hrecord]
    · rfl
    · decide
  · let sig : HookSignature := {
      prototype := "int f(double x, int n);".toList, source := "header", confidence := 100
      function := ['f'], callingConvention := .cdecl
      returnType := ⟨"int".toList, .signed, some 4, false⟩
      parameters := [⟨['x'], "double".toList, .float64, some 8, false⟩,
        ⟨['n'], "int".toList, .signed, some 4, false⟩]
      isVariadic := false }
    have hparse : parse "int f(double x, int n)".toList "header" 100 = .ok sig := by
      decide +kernel
    obtain ⟨hsig, hcode⟩ := State.after_lateSignature hparse (by decide)
    have hrecord := (State.Ok.after _).record_eq (v := .monitor entryFlags) hsig rfl rfl 0
      (Entry.probe .ia32 [.stack 12])
    have htyped : sig.Typed .ia32 mixedFunction := {
      convention := rfl
      isVariadic := rfl
      returned := .value (.integer rfl rfl (by decide) (by decide))
      described := .cons (.float64 rfl) (.cons (.integer rfl rfl (by decide) (by decide)) .nil)
      fits := by decide }
    refine ⟨sig, hsig, htyped, .monitor entryFlags, by simp [hcode],
      .cons (hholds ⟨0, by decide, rfl⟩) (.cons (hholds ⟨1, by decide, rfl⟩) .nil), ?_, ?_⟩ <;>
        rw [hrecord]
    · rfl
    · decide

end PinBridge.Hooks
