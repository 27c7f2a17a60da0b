import PinBridge.Trace.Event

/-!
# Records of the offline reader

The reader and writer of `pbtrace.py` work on `Record` objects whose fields are
Python integers.  A record is packed into the same 88 bytes as an agent event
(`RECORD = struct.Struct("<QIIQ8Q")`), and `Event.toRecord` is the record that
the reader unpacks from the wire image of an event
(`Record.unpack_encode`).  A record with larger fields does not fit the layout,
and `RECORD.pack` raises `struct.error` on it.
-/

namespace PinBridge

/-- `Record`: `args` always holds eight slots. -/
structure Record where
  sequence : Nat
  kind : Nat
  threadId : Nat
  address : Nat
  args : Vector Nat 8
deriving DecidableEq, Repr

namespace Record

def arg0 (r : Record) : Nat := r.args[0]
def arg1 (r : Record) : Nat := r.args[1]
def arg2 (r : Record) : Nat := r.args[2]
def arg3 (r : Record) : Nat := r.args[3]
def arg4 (r : Record) : Nat := r.args[4]
def arg7 (r : Record) : Nat := r.args[7]

end Record

/-! ## Kinds -/

def kindMemory : Nat := 2
def kindExec : Nat := 3
def kindBranch : Nat := 4
def kindSyscall : Nat := 5
def kindContextChange : Nat := 6
def kindExecBytes : Nat := 9
def kindMemValue : Nat := 10
def kindMarker : Nat := 11
def kindRepeat : Nat := 12
def kindRegSnapshot : Nat := 13
def markerScopeAdd : Nat := 3

/-- `KIND_NAMES`. -/
def kindNames : List (Nat × String) :=
  [(1, "hook_regs"), (2, "memory"), (3, "exec"), (4, "branch_edge"), (5, "syscall"),
    (6, "context_change"), (7, "module_load"), (8, "module_unload"), (9, "exec_bytes"),
    (10, "mem_value"), (11, "marker"), (12, "repeat"), (13, "reg_snapshot")]

/-- `kind in KIND_NAMES`. -/
def kindKnown (kind : Nat) : Bool := (kindNames.lookup kind).isSome

/-! ## Packing -/

/-- `RECORD_LEN`. -/
def recordLen : Nat := 88

/-- `RECORD.pack(sequence, kind, thread_id, address, *args)`. -/
def Record.pack (r : Record) : List UInt8 :=
  LittleEndian.pack recordLayout
    (r.sequence :: r.kind :: r.threadId :: r.address :: r.args.toList)

/-- `Record(*RECORD.unpack(chunk)[:4], RECORD.unpack(chunk)[4:])`.  The layout has
twelve fields, so the value list always has the shape matched here. -/
def Record.unpack (chunk : List UInt8) : Record :=
  match LittleEndian.unpack recordLayout chunk with
  | [s, k, t, a, a0, a1, a2, a3, a4, a5, a6, a7] => ⟨s, k, t, a, #v[a0, a1, a2, a3, a4, a5, a6, a7]⟩
  | _ => ⟨0, 0, 0, 0, #v[0, 0, 0, 0, 0, 0, 0, 0]⟩

/-- The record a reader sees for an agent event. -/
def Event.toRecord (e : Event) : Record :=
  ⟨e.sequence.toNat, e.kind.toNat, e.threadId.toNat, e.address.toNat,
    #v[e.arg0.toNat, e.arg1.toNat, e.arg2.toNat, e.arg3.toNat, e.arg4.toNat, e.arg5.toNat,
      e.arg6.toNat, e.arg7.toNat]⟩

@[simp] theorem Event.toRecord_sequence (e : Event) : e.toRecord.sequence = e.sequence.toNat := rfl
@[simp] theorem Event.toRecord_kind (e : Event) : e.toRecord.kind = e.kind.toNat := rfl
@[simp] theorem Event.toRecord_threadId (e : Event) : e.toRecord.threadId = e.threadId.toNat := rfl
@[simp] theorem Event.toRecord_address (e : Event) : e.toRecord.address = e.address.toNat := rfl

/-- The record of an event determines the event. -/
theorem Event.toRecord_injective : Function.Injective Event.toRecord := by
  intro e f h
  cases e
  cases f
  simp only [Event.toRecord, Record.mk.injEq, UInt64.toNat_inj, UInt32.toNat_inj,
    Vector.mk.injEq, Array.mk.injEq, List.cons.injEq, and_true] at h
  simp [h]

/-- A record whose fields fit the layout. -/
def Record.Fits (r : Record) : Prop :=
  List.Forall₂ (fun w v => v < 256 ^ w) recordLayout
    (r.sequence :: r.kind :: r.threadId :: r.address :: r.args.toList)

theorem Event.toRecord_fits (e : Event) : e.toRecord.Fits := by
  have h64 : ∀ x : UInt64, x.toNat < 256 ^ 8 := fun x => x.toNat_lt
  have h32 : ∀ x : UInt32, x.toNat < 256 ^ 4 := fun x => x.toNat_lt
  refine .cons (h64 _) (.cons (h32 _) (.cons (h32 _) (.cons (h64 _) ?_)))
  refine .cons (h64 _) (.cons (h64 _) (.cons (h64 _) (.cons (h64 _) ?_)))
  exact .cons (h64 _) (.cons (h64 _) (.cons (h64 _) (.cons (h64 _) .nil)))

/-- A record that fits the layout is read back. -/
theorem Record.unpack_pack {r : Record} (h : r.Fits) : Record.unpack r.pack = r := by
  obtain ⟨s, k, t, a, ⟨⟨args⟩, hargs⟩⟩ := r
  obtain ⟨a0, a1, a2, a3, a4, a5, a6, a7, rfl⟩ : ∃ a0 a1 a2 a3 a4 a5 a6 a7,
      args = [a0, a1, a2, a3, a4, a5, a6, a7] := by
    match args, hargs with
    | [a0, a1, a2, a3, a4, a5, a6, a7], _ => exact ⟨a0, a1, a2, a3, a4, a5, a6, a7, rfl⟩
  unfold Record.unpack Record.pack
  rw [LittleEndian.unpack_pack h]
  rfl

/-- Rust and Python write the same 88 bytes for an event. -/
theorem Event.pack_toRecord (e : Event) : e.toRecord.pack = e.encode := rfl

/-- The reader unpacks the wire image of an event to its record. -/
theorem Record.unpack_encode (e : Event) : Record.unpack e.encode = e.toRecord := by
  rw [← Event.pack_toRecord, Record.unpack_pack e.toRecord_fits]

end PinBridge
