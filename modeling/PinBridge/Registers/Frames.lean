import Mathlib.Data.Finset.Sort
import Mathlib.Logic.Function.Basic
import PinBridge.Lib.DeltaLog
import PinBridge.Trace.Record

/-!
# Frames

`Trace.frames` of `pbtrace.py` assembles one frame for every register snapshot and for every
other instruction.  The header of a snapshot opens a frame, the components are joined to it by
thread and frame id, and the other records of a thread go to its current frame.  The context
of a frame is applied to the register table of its thread whenever another record is attached
to the frame, and once more in a last pass over all frames.

Frames are objects with identity in the source.  Here a reference to a frame is its position
in the output, which never changes.  The dictionaries of register values are functions of the
register id: `REG_NAMES` only renames the ids, and different ids have different names
(`regName_injective`).  The machine code and its assembly text are left out.
-/

namespace PinBridge.Registers

/-! ## Register names -/

/-- `REG_NAMES.get(id, "pin_reg_%d" % id)`. -/
inductive RegName where
  /-- A general purpose register of `REG_NAMES`, by its position in the list below. -/
  | gp (i : Nat)
  | xmm (i : Nat)
  | ymm (i : Nat)
  | zmm (i : Nat)
  | pinReg (id : Nat)
deriving DecidableEq, Repr

/-- The ids and names of the general purpose registers. -/
def gpNames : List (Nat × String) :=
  [(7, "rbx"), (8, "rdx"), (9, "rcx"), (10, "rax"), (11, "r8"), (12, "r9"), (13, "r10"),
    (14, "r11"), (15, "r12"), (16, "r13"), (17, "r14"), (18, "r15"), (5, "rbp"), (6, "rsp"),
    (3, "rdi"), (4, "rsi"), (25, "rflags"), (26, "rip"), (56, "eax"), (53, "ebx"), (55, "ecx"),
    (54, "edx"), (47, "esi"), (45, "edi"), (49, "ebp"), (51, "esp"), (58, "eip"),
    (57, "eflags")]

/-- The name of a register id. -/
def regName (id : Nat) : RegName :=
  match gpNames.findIdx? fun entry => entry.1 = id with
  | some i => .gp i
  | none =>
      if 91 ≤ id ∧ id < 123 then .xmm (id - 91)
      else if 123 ≤ id ∧ id < 155 then .ymm (id - 123)
      else if 155 ≤ id ∧ id < 187 then .zmm (id - 155)
      else .pinReg id

theorem regName_injective : Function.Injective regName := by
  intro id id' h
  unfold regName at h
  cases hi : gpNames.findIdx? fun entry => entry.1 = id with
  | some i =>
      cases hj : gpNames.findIdx? fun entry => entry.1 = id' with
      | some j =>
          rw [hi, hj] at h
          obtain rfl : i = j := RegName.gp.inj h
          obtain ⟨_, hid, -⟩ := List.findIdx?_eq_some_iff_getElem.mp hi
          obtain ⟨_, hid', -⟩ := List.findIdx?_eq_some_iff_getElem.mp hj
          exact (of_decide_eq_true hid).symm.trans (of_decide_eq_true hid')
      | none =>
          rw [hi, hj] at h
          dsimp only at h
          split_ifs at h
  | none =>
      cases hj : gpNames.findIdx? fun entry => entry.1 = id' with
      | some j =>
          rw [hi, hj] at h
          dsimp only at h
          split_ifs at h
      | none =>
          rw [hi, hj] at h
          clear hi hj
          dsimp only at h
          split_ifs at h <;> simp only [RegName.xmm.injEq, RegName.ymm.injEq, RegName.zmm.injEq,
            RegName.pinReg.injEq] at h <;> omega

/-! ## Contexts -/

/-- One component of a snapshot. -/
structure ContextPart where
  reg : Nat
  part : Nat
  width : Nat
  payload : List UInt8
deriving DecidableEq, Repr

/-- `bin(mask).count("1")` of a 64-bit mask. -/
def popCount (mask : Nat) : Nat := (List.range 64).countP mask.testBit

/-- What a snapshot has sent: `frame_id`, `_context_mode`, `_context_masks`, and the
components in the order of their arrival.  In the dictionaries `_context_parts` and
`_context_widths` a later entry replaces an earlier one. -/
structure Context where
  frameId : Nat
  mode : Nat
  masks : Nat × Nat
  parts : List ContextPart
deriving DecidableEq, Repr

namespace Context

/-- The keys of `_context_parts`. -/
def regs (c : Context) : Finset Nat := (c.parts.map (·.reg)).toFinset

/-- The keys of `_context_parts[reg]`. -/
def partsOf (c : Context) (reg : Nat) : Finset Nat :=
  ((c.parts.filter (·.reg = reg)).map (·.part)).toFinset

/-- `_context_parts[reg][part]`. -/
def payload (c : Context) (reg part : Nat) : List UInt8 :=
  match c.parts.reverse.find? fun p => p.reg = reg ∧ p.part = part with
  | some p => p.payload
  | none => []

/-- `_context_widths.get(reg, 0)`. -/
def width (c : Context) (reg : Nat) : Nat :=
  match c.parts.reverse.find? fun p => p.reg = reg with
  | some p => p.width
  | none => 0

/-- `expected_parts`. -/
def expectedParts (width : Nat) : Nat := if 0 < width ∧ width ≤ 8 then 1 else width / 16

/-- `apply_context` does not find anything missing. -/
def Ok (c : Context) : Prop :=
  c.regs.card = popCount c.masks.1 + popCount c.masks.2 ∧
    ∀ reg ∈ c.regs, expectedParts (c.width reg) ≠ 0 ∧
      c.partsOf reg = Finset.range (expectedParts (c.width reg))

instance (c : Context) : Decidable c.Ok := inferInstanceAs (Decidable (_ ∧ _))

/-- `b"".join(parts[index] for index in sorted(parts))` of every register. -/
def changes (c : Context) (reg : Nat) : Option (List UInt8) :=
  if reg ∈ c.regs then some ((c.partsOf reg).sort.flatMap (c.payload reg)) else none

/-- The register table after the context has been applied. -/
def table (c : Context) (old : Nat → Option (List UInt8)) (reg : Nat) : Option (List UInt8) :=
  (c.changes reg).or (if c.mode = 1 then none else old reg)

end Context

/-! ## Frames -/

/-- `class TraceFrame`. -/
structure TraceFrame where
  sequence : Nat
  threadId : Nat
  address : Nat
  size : Nat
  registers : Nat → Option Nat
  registerChanges : Nat → Option Nat
  memory : List Record
  branches : List Record
  syscalls : List Record
  exceptions : List Record
  records : List Record
  context : Context
  contextComplete : Bool

/-- `TraceFrame(sequence, thread_id, address, …)`. -/
def TraceFrame.new (rec : Record) (context : Context) : TraceFrame :=
  ⟨rec.sequence, rec.threadId, rec.address, 0, fun _ => none, fun _ => none, [], [], [], [], [],
    context, true⟩

/-- `int.from_bytes(data, "little")`. -/
def fromBytes (data : List UInt8) : Nat := LittleEndian.decode data

/-- What `apply_context` does to the frame, over the table of its thread. -/
def TraceFrame.apply (f : TraceFrame) (old : Nat → Option (List UInt8)) : TraceFrame :=
  if f.context.Ok then
    { f with
      registerChanges := fun reg =>
        ((f.context.changes reg).map fromBytes).or (f.registerChanges reg)
      registers := fun reg => (f.context.table old reg).map fromBytes }
  else { f with contextComplete := false }

/-- What `apply_context` does to the table. -/
def Context.applyTable (c : Context) (old : Nat → Option (List UInt8)) :
    Nat → Option (List UInt8) :=
  if c.Ok then c.table old else old

/-! ## The loop -/

/-- The variables of `frames`. -/
structure Reader where
  output : List TraceFrame
  active : Nat → Option Nat
  contextFrames : Nat × Nat → Option Nat
  registerState : Nat → Nat → Option (List UInt8)
  pendingSyscall : Nat → Option Nat

def Reader.empty : Reader :=
  ⟨[], fun _ => none, fun _ => none, fun _ _ => none, fun _ => none⟩

/-- `if frame.frame_id: apply_context(frame)`. -/
def Reader.applyContext (r : Reader) (i : Nat) : Reader :=
  match r.output[i]? with
  | some f =>
      if f.context.frameId = 0 then r
      else
        { r with
          output := r.output.set i (f.apply (r.registerState f.threadId))
          registerState := Function.update r.registerState f.threadId
            (f.context.applyTable (r.registerState f.threadId)) }
  | none => r

/-- `new_frame`. -/
def Reader.newFrame (r : Reader) (rec : Record) (context : Context) : Reader :=
  { r with
    output := r.output ++ [.new rec context]
    active := Function.update r.active rec.threadId (some r.output.length) }

/-- The context that a header opens. -/
def Record.headerContext (rec : Record) : Context := ⟨rec.arg7, rec.arg3, (rec.arg1, rec.arg2), []⟩

/-- The part that a component brings. -/
def Record.contextPart (rec : Record) : ContextPart where
  reg := rec.arg0
  part := rec.arg4
  width := rec.arg3
  payload := if rec.arg3 ≤ 8 then (LittleEndian.encode 8 rec.arg1).take rec.arg3
    else LittleEndian.encode 8 rec.arg1 ++ LittleEndian.encode 8 rec.arg2

/-- A component joins its frame. -/
def TraceFrame.addPart (f : TraceFrame) (rec : Record) : TraceFrame :=
  { f with
    context := { f.context with parts := f.context.parts ++ [Record.contextPart rec] }
    records := f.records ++ [rec] }

/-- A record of kind 13. -/
def Reader.feedContext (r : Reader) (rec : Record) : Reader :=
  let key := (rec.threadId, rec.arg7)
  if rec.arg0 = 0 then
    { r.newFrame rec (Record.headerContext rec) with
      contextFrames := Function.update r.contextFrames key (some r.output.length) }
  else match r.contextFrames key with
    | some i => { r with output := r.output.modify i fun f => f.addPart rec }
    | none => r

/-- Another record is attached to a frame. -/
def TraceFrame.attach (f : TraceFrame) (rec : Record) : TraceFrame :=
  let f := { f with records := f.records ++ [rec] }
  if rec.kind = kindExec ∨ rec.kind = kindExecBytes then
    { f with sequence := rec.sequence, size := rec.arg0 }
  else if rec.kind = kindMemory ∨ rec.kind = kindMemValue then
    { f with memory := f.memory ++ [rec] }
  else if rec.kind = kindBranch then { f with branches := f.branches ++ [rec] }
  else if rec.kind = kindSyscall then { f with syscalls := f.syscalls ++ [rec] }
  else if rec.kind = kindContextChange then { f with exceptions := f.exceptions ++ [rec] }
  else f

/-- The record starts an instruction that the frame does not have yet. -/
def TraceFrame.Rejects (f : TraceFrame) (rec : Record) : Prop :=
  f.address ≠ rec.address ∧ ¬ (rec.kind = kindSyscall ∧ rec.arg1 = 1) ∨
    (rec.kind = kindExec ∨ rec.kind = kindExecBytes) ∧ ∃ item ∈ f.records, item.kind = rec.kind

instance (f : TraceFrame) (rec : Record) : Decidable (f.Rejects rec) :=
  inferInstanceAs (Decidable (_ ∨ _))

/-- The record is a syscall exit whose entry is known. -/
def Reader.exits (r : Reader) (rec : Record) : Bool :=
  rec.kind == kindSyscall && rec.arg1 == 1 && (r.pendingSyscall rec.threadId).isSome

/-- The frame that a record is offered to, and the reader without the pending system call
that it takes. -/
def Reader.target (r : Reader) (rec : Record) : Option Nat :=
  if r.exits rec then r.pendingSyscall rec.threadId else r.active rec.threadId

/-- The reader with a frame for the record, and the position of the frame. -/
def Reader.frameFor (r : Reader) (rec : Record) : Reader × Nat :=
  let r' := if r.exits rec then
      { r with pendingSyscall := Function.update r.pendingSyscall rec.threadId none }
    else r
  let fresh := (r'.newFrame rec ⟨0, 0, (0, 0), []⟩, r'.output.length)
  match r.target rec with
  | some i => match r'.output[i]? with
    | some f => if f.Rejects rec then fresh else (r', i)
    | none => fresh
  | none => fresh

/-- A record that is neither a marker nor of kind 13. -/
def Reader.feedOther (r : Reader) (rec : Record) : Reader :=
  let (r, i) := r.frameFor rec
  let r := r.applyContext i
  let r := { r with output := r.output.modify i fun f => f.attach rec }
  if rec.kind = kindSyscall ∧ rec.arg1 = 0 then
    { r with pendingSyscall := Function.update r.pendingSyscall rec.threadId (some i) }
  else r

/-- The body of the loop. -/
def Reader.feed (r : Reader) (rec : Record) : Reader :=
  if rec.kind = kindMarker then r
  else if rec.kind = kindRegSnapshot then r.feedContext rec
  else r.feedOther rec

/-- The loop over the records of a thread, or over all records. -/
def readRecords (threadId : Option Nat) (records : List Record) : Reader :=
  (records.filter fun rec => threadId.all (rec.threadId == ·)).foldl Reader.feed .empty

/-- `Trace.frames`. -/
def frames (threadId : Option Nat) (records : List Record) : List TraceFrame :=
  let r := readRecords threadId records
  ((List.range r.output.length).foldl Reader.applyContext r).output

end PinBridge.Registers
