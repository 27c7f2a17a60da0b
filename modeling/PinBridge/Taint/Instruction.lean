import Mathlib.Data.Finset.Image
import Mathlib.Data.Finset.Range
import PinBridge.Lib.Dataflow
import PinBridge.Lib.Sizes

/-!
# Instructions and their transfers

The register model of `taint.py`, the decoded instructions of a window with their memory
events, and `compute_transfer`, which turns an instruction into assignments of bytes.

Decoding is capstone's work, so a `DecodedInsn` is data here.  Mnemonics are the names
the source tells apart.  A name it knows by its prefix keeps the rest of the name, and
every other name is `other`.
-/

namespace PinBridge.Taint

open scoped Sizes

/-! ## Registers -/

/-- `Architecture.name`. -/
inductive Arch where
  | x86
  | x64
deriving DecidableEq, Repr

/-- A register bank.  `gp i` is numbered in the order `rax rcx rdx rbx rsp rbp rsi rdi r8
…` (`eax ecx …` on x86), and `ip` is `rip` or `eip`. -/
inductive Base where
  | gp (i : Fin 16)
  | ip
deriving DecidableEq, Repr

/-- A register name. -/
inductive Reg where
  /-- `rax`, …, `r15`. -/
  | q (i : Fin 16)
  /-- `eax`, …, `r15d`. -/
  | d (i : Fin 16)
  /-- `ax`, …, `r15w`. -/
  | w (i : Fin 16)
  /-- `al`, …, `dil`, `r8b`, …, `r15b`. -/
  | b (i : Fin 16)
  /-- `ah`, `ch`, `dh`, `bh`. -/
  | h (i : Fin 4)
  | rip
  | eip
  /-- A register outside the model. -/
  | other (name : String)
deriving DecidableEq, Repr

/-- `reg_info[name]`: the bank, the offset in it and the size. -/
def regInfo : Arch → Reg → Option (Base × Nat × Nat)
  | .x64, .q i => some (.gp i, 0, 8)
  | .x64, .d i => some (.gp i, 0, 4)
  | .x64, .w i => some (.gp i, 0, 2)
  | .x64, .b i => some (.gp i, 0, 1)
  | .x64, .rip => some (.ip, 0, 8)
  | .x86, .d i => if i < 8 then some (.gp i, 0, 4) else none
  | .x86, .w i => if i < 8 then some (.gp i, 0, 2) else none
  | .x86, .b i => if i < 4 then some (.gp i, 0, 1) else none
  | _, .h i => some (.gp (i.castLE (by decide)), 1, 1)
  | _, .eip => some (.ip, 0, 4)
  | _, _ => none

/-- `pointer_size`. -/
def Arch.pointerSize : Arch → Nat
  | .x86 => 4
  | .x64 => 8

/-- `zero_extends_32`. -/
def Arch.zeroExtends32 : Arch → Bool
  | .x86 => false
  | .x64 => true

/-- `ip`. -/
def Arch.ip : Arch → Reg
  | .x86 => .eip
  | .x64 => .rip

/-- The bank of `sp`. -/
def Arch.sp : Base := .gp 4

/-- The bank of `bp`. -/
def Arch.bp : Base := .gp 5

/-! ## Bytes -/

/-- A byte key: `("r", base, i)` or `("m", ea)`. -/
inductive Key where
  | reg (base : Base) (i : Nat)
  | mem (ea : Int)
deriving DecidableEq, Repr

/-- `{("r", base, off + i) for i in range(size)}`. -/
def regKeys (base : Base) (off size : Nat) : Finset Key :=
  (Finset.range size).image fun i => .reg base (off + i)

/-- `_mem_keys`. -/
def memKeys (ea : Int) (size : Nat) : Finset Key :=
  (Finset.range size).image fun i : Nat => .mem (ea + i)

/-- `RegState.reg_bytes`; empty for a register outside the model. -/
def regBytes (arch : Arch) (r : Reg) : Finset Key :=
  match regInfo arch r with
  | some (base, off, size) => regKeys base off size
  | none => ∅

/-- `RegState.reg_def_bytes`: the overwritten bytes and those that receive the value.  A
32-bit write on x64 also clears the upper half. -/
def regDefBytes (arch : Arch) (r : Reg) : Finset Key × Finset Key :=
  match regInfo arch r with
  | some (base, off, size) =>
      let val := regKeys base off size
      (if arch.zeroExtends32 && size == 4 && off == 0 then val ∪ regKeys base 4 4 else val, val)
  | none => (∅, ∅)

theorem mem_memKeys {ea : Int} {size : Nat} {k : Key} :
    k ∈ memKeys ea size ↔ ∃ i < size, k = .mem (ea + i) := by
  simp [memKeys, eq_comm]

theorem regDefBytes_snd (arch : Arch) (r : Reg) : (regDefBytes arch r).2 = regBytes arch r := by
  unfold regDefBytes regBytes
  cases regInfo arch r <;> rfl

/-- The bytes that receive the value are overwritten. -/
theorem regDefBytes_subset (arch : Arch) (r : Reg) :
    (regDefBytes arch r).2 ⊆ (regDefBytes arch r).1 := by
  unfold regDefBytes
  split
  · dsimp only
    split
    · exact Finset.subset_union_left
    · exact Finset.Subset.refl _
  · exact Finset.Subset.refl _

theorem mem_notMem_regDefBytes (arch : Arch) (r : Reg) (b : Int) :
    .mem b ∉ (regDefBytes arch r).1 := by
  unfold regDefBytes
  split
  · dsimp only
    split <;> simp [regKeys]
  · exact Finset.notMem_empty _

/-! ## Decoded instructions -/

/-- `Op.access`.  Neither bit is set where capstone leaves the access unknown. -/
structure Access where
  read : Bool
  write : Bool
deriving DecidableEq, Repr

/-- `Op.kind` with the operand proper. -/
inductive OpKind where
  | reg (r : Reg)
  | mem (base index : Option Reg) (scale disp : Int)
  | imm (value : Int)
deriving DecidableEq, Repr

/-- `class Op`. -/
structure Op where
  kind : OpKind
  access : Access
  size : Nat
  /-- The address bound from the memory events. -/
  ea : Option Int
deriving DecidableEq, Repr

/-- A mnemonic. -/
inductive Mnemonic where
  | add | sub | and | or | xor | adc | sbb | shl | shr | sar | sal | rol | ror
  | mov | movzx | movsx | movsxd
  | neg | not | inc | dec
  | cmp | test | bt | nop | prefetch
  | lea | imul | xchg | pop | call | jmp | leave
  /-- `cmov…`. -/
  | cmov (rest : String)
  /-- `push…`, the empty rest included. -/
  | push (rest : String)
  /-- `ret…`, the empty rest included. -/
  | ret (rest : String)
  /-- `j…` other than `jmp`. -/
  | j (rest : String)
  /-- `??`. -/
  | unknown
  | other (name : String)
deriving DecidableEq, Repr

namespace Mnemonic

/-- `ALU_BINARY`. -/
def aluBinary : Mnemonic → Bool
  | add | sub | and | or | xor | adc | sbb | shl | shr | sar | sal | rol | ror => true
  | _ => false

/-- `MOV_LIKE`. -/
def movLike : Mnemonic → Bool
  | mov | movzx | movsx | movsxd => true
  | _ => false

/-- `UNARY`. -/
def unary : Mnemonic → Bool
  | neg | not | inc | dec => true
  | _ => false

/-- `NO_TAINT`. -/
def noTaint : Mnemonic → Bool
  | cmp | test | bt | nop => true
  | _ => false

/-- `startswith("cmov")`. -/
def isCmov : Mnemonic → Bool
  | cmov _ => true
  | _ => false

end Mnemonic

/-- `class DecodedInsn`. -/
structure DecodedInsn where
  mnemonic : Mnemonic
  text : String
  operands : List Op
  ok : Bool
deriving DecidableEq, Repr

/-! ## Memory events -/

/-- The fields of a memory record that the analyses read: `arg0`, `arg1` and whether
`arg2` is `ACCESS_WRITE`. -/
structure MemEvent where
  sequence : Nat
  ea : Int
  size : Nat
  write : Bool
deriving DecidableEq, Repr

/-- `class InsnInstance` with its decoded instruction. -/
structure InsnInstance where
  seq : Nat
  ip : Nat
  decoded : DecodedInsn
  events : List MemEvent
  /-- The numbers of the events among the memory events of the window. -/
  memIndices : List Nat
deriving DecidableEq, Repr

/-- `class Window`: the instructions of a thread.  `build_window` numbers the memory events
of the thread in order, and pairs each with the instruction before it or with none. -/
structure Window where
  insns : List InsnInstance
  numbered : ∀ inst ∈ insns, inst.memIndices.length = inst.events.length
  ascending : (insns.flatMap (·.memIndices)).Pairwise (· < ·)

/-- What `resolve_events` returns; the key sets are derived from the lists. -/
structure Events where
  reads : List (Int × Nat)
  writes : List (Int × Nat)

/-- The bytes of a list of accesses. -/
def accessKeys (accesses : List (Int × Nat)) : Finset Key :=
  accesses.foldr (fun a keys => memKeys a.1 a.2 ∪ keys) ∅

/-- `read_keys`. -/
def Events.readKeys (e : Events) : Finset Key := accessKeys e.reads

/-- `write_keys`. -/
def Events.writeKeys (e : Events) : Finset Key := accessKeys e.writes

/-- `resolve_events`. -/
def resolveEvents (inst : InsnInstance) : Events where
  reads := (inst.events.filter fun e => !e.write).map fun e => (e.ea, max e.size 1)
  writes := (inst.events.filter fun e => e.write).map fun e => (e.ea, max e.size 1)

theorem mem_accessKeys {accesses : List (Int × Nat)} {k : Key} :
    k ∈ accessKeys accesses ↔ ∃ a ∈ accesses, k ∈ memKeys a.1 a.2 := by
  induction accesses with
  | nil => simp [accessKeys]
  | cons a accesses ih => simp [accessKeys] at ih ⊢; rw [ih]

/-! ## Operand access -/

/-- `_infer_access`. -/
def inferAccess (mn : Mnemonic) (i : Nat) : Access :=
  if mn.movLike || mn.isCmov then if i == 0 then ⟨false, true⟩ else ⟨true, false⟩
  else match mn with
    | .lea => if i == 0 then ⟨false, true⟩ else ⟨true, false⟩
    | .cmp | .test | .bt => ⟨true, false⟩
    | .push "" | .call | .jmp => ⟨true, false⟩
    | .pop => ⟨false, true⟩
    | _ =>
        if mn.aluBinary || mn == .imul then if i == 0 then ⟨true, true⟩ else ⟨true, false⟩
        else if mn.unary || mn == .xchg then ⟨true, true⟩
        else if i == 0 then ⟨true, true⟩ else ⟨true, false⟩

/-- The access of an operand, inferred where capstone leaves it unknown. -/
def accessOf (mn : Mnemonic) (op : Op) (i : Nat) : Access :=
  if op.access = ⟨false, false⟩ then inferAccess mn i else op.access

/-- `_bind_mem_eas` on one operand: the first access of the operand's size, or else the
first one. -/
def bindMemEa (mn : Mnemonic) (events : Events) (op : Op) (i : Nat) : Op :=
  match op.kind with
  | .mem .. =>
      if mn = .lea then { op with ea := none }
      else
        let acc := accessOf mn op i
        let pool := (if acc.read then events.reads else []) ++
          (if acc.write then events.writes else [])
        { op with ea := ((pool.find? fun a => a.2 = op.size).or pool.head?).map Prod.fst }
  | _ => { op with ea := none }

/-- `_bind_mem_eas`. -/
def bindMemEas (insn : DecodedInsn) (events : Events) : DecodedInsn :=
  { insn with operands := insn.operands.mapIdx fun i op => bindMemEa insn.mnemonic events op i }

/-! ## Transfers -/

/-- `class Step`. -/
abbrev Step : Type := Dataflow.Step Key

/-- `class Transfer`. -/
structure Transfer where
  steps : List Step
  /-- The bytes that feed a control-flow target. -/
  cfUses : Finset Key
  known : Bool
deriving DecidableEq

/-- `op_read_keys`. -/
def Op.readKeys (arch : Arch) (op : Op) : Finset Key :=
  match op.kind with
  | .reg r => regBytes arch r
  | .mem .. => match op.ea with
      | some ea => memKeys ea op.size
      | none => ∅
  | .imm _ => ∅

/-- `op_def_keys`. -/
def Op.defKeys (arch : Arch) (op : Op) : Finset Key × Finset Key :=
  match op.kind with
  | .reg r => regDefBytes arch r
  | .mem .. => (op.readKeys arch, op.readKeys arch)
  | .imm _ => (∅, ∅)

/-- The union of the bytes of operands. -/
def readKeysOf (arch : Arch) (ops : List Op) : Finset Key :=
  ops.foldr (fun op keys => op.readKeys arch ∪ keys) ∅

/-- `emit` of a destination and the bytes it is computed from. -/
def emit (arch : Arch) (op : Op) (uses : Finset Key) : Step :=
  ⟨(op.defKeys arch).1, (op.defKeys arch).2, uses⟩

/-- `emit` with `kill`. -/
def emitKill (arch : Arch) (op : Op) : Step := ⟨(op.defKeys arch).1, ∅, ∅⟩

/-- The bytes of an address register. -/
def addressKeys (arch : Arch) : Option Reg → Finset Key
  | some r => regBytes arch r
  | none => ∅

/-- The same register on both sides. -/
def sameReg (a b : Op) : Bool :=
  match a.kind, b.kind with
  | .reg r, .reg r' => r == r'
  | _, _ => false

/-- The conservative rule: every written operand is the union of all read operands. -/
def fallbackSteps (arch : Arch) (mn : Mnemonic) (ops : List Op) : List Step :=
  let accessed := ops.mapIdx fun i op => (op, accessOf mn op i)
  let uses := readKeysOf arch ((accessed.filter fun a => a.2.read).map Prod.fst)
  let defs := (accessed.filter fun a => a.2.write && !(a.1.kind matches .imm _)).map Prod.fst
  defs.map fun op => emit arch op uses

/-- A transfer by name. -/
def Transfer.of (steps : List Step) (cfUses : Finset Key) : Transfer := ⟨steps, cfUses, true⟩

/-- `compute_transfer`. -/
def computeTransfer (arch : Arch) (insn : DecodedInsn) (events : Events) : Transfer :=
  let mn := insn.mnemonic
  let ops := insn.operands
  let stackRead := events.readKeys
  let stackWrite := events.writeKeys
  if mn.noTaint || mn == .prefetch then .of [] ∅
  else if mn == .unknown || !insn.ok then ⟨[], ∅, false⟩
  else if mn.movLike then
    match ops with
    | dst :: src :: _ => .of [emit arch dst (src.readKeys arch)] ∅
    | _ => .of [] ∅
  else if mn.aluBinary then
    match ops with
    | dst :: src :: _ =>
        if (mn == .xor || mn == .sub) && sameReg dst src then .of [emitKill arch dst] ∅
        else .of [emit arch dst (dst.readKeys arch ∪ src.readKeys arch)] ∅
    | _ => .of [] ∅
  else if mn.unary then
    match ops with
    | dst :: _ => .of [emit arch dst (dst.readKeys arch)] ∅
    | _ => .of [] ∅
  else match mn with
    | .cmov _ =>
        match ops with
        | dst :: src :: _ => .of [emit arch dst (src.readKeys arch ∪ dst.readKeys arch)] ∅
        | _ => .of [] ∅
    | .lea =>
        match ops with
        | dst :: src :: _ =>
            match src.kind with
            | .mem base index _ _ =>
                .of [emit arch dst (addressKeys arch base ∪ addressKeys arch index)] ∅
            | _ => .of [] ∅
        | _ => .of [] ∅
    | .imul =>
        match ops with
        | dst :: _ => .of [emit arch dst (readKeysOf arch ops)] ∅
        | _ => .of [] ∅
    | .xchg =>
        match ops with
        | a :: b :: _ =>
            .of [emit arch a (b.readKeys arch), emit arch b (a.readKeys arch)] ∅
        | _ => .of [] ∅
    | .push _ =>
        match ops with
        | src :: _ => .of [⟨stackWrite, stackWrite, src.readKeys arch⟩] ∅
        | _ => .of [] ∅
    | .pop =>
        match ops with
        | dst :: _ => .of [emit arch dst stackRead] ∅
        | _ => .of [] ∅
    | .call =>
        -- the pushed return address is a clean constant
        match ops with
        | target :: _ => .of [⟨stackWrite, ∅, ∅⟩] (target.readKeys arch)
        | _ => .of [⟨stackWrite, ∅, ∅⟩] ∅
    | .ret _ => .of [] stackRead
    | .jmp =>
        match ops with
        | target :: _ => .of [] (target.readKeys arch)
        | _ => .of [] ∅
    | .j _ =>
        match ops with
        | target :: _ => .of [] (target.readKeys arch)
        | _ => .of [] ∅
    | .leave =>
        let bpKeys := regKeys Arch.bp 0 arch.pointerSize
        let spKeys := regKeys Arch.sp 0 arch.pointerSize
        .of [⟨spKeys, spKeys, bpKeys⟩, ⟨bpKeys, bpKeys, stackRead⟩] ∅
    | _ => ⟨fallbackSteps arch mn ops, ∅, false⟩

/-- The transfer of an instruction of a window. -/
def InsnInstance.transfer (arch : Arch) (inst : InsnInstance) : Transfer :=
  let events := resolveEvents inst
  computeTransfer arch (bindMemEas inst.decoded events) events

end PinBridge.Taint
