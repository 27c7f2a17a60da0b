import PinBridge.Lib.LittleEndian

/-!
# Events and their wire image

The agent's event record (`event.rs`), its 88-byte little-endian wire image
(`EventRecord` of `pinbridge-proto`) and the event constructors of the
recording channel (`record.rs`).

`Event` is the in-memory struct and `EventRecord` the wire struct.  The source
keeps two structs with the same fields and copies one into the other
(`to_record`).  Here `Event.encode` is that copy followed by
`EventRecord::encode`.
-/

namespace PinBridge

/-! ## Machine words -/

/-- `u64::saturating_add`. -/
def saturatingAdd (a b : Nat) : Nat := min (a + b) (2 ^ 64 - 1)

theorem saturatingAdd_of_lt {a b : Nat} (h : a + b < 2 ^ 64) : saturatingAdd a b = a + b := by
  unfold saturatingAdd
  omega

/-! ## Events -/

/-- `struct Event` of `event.rs`. -/
structure Event where
  sequence : UInt64
  kind : UInt32
  threadId : UInt32
  address : UInt64
  arg0 : UInt64
  arg1 : UInt64
  arg2 : UInt64
  arg3 : UInt64
  arg4 : UInt64
  arg5 : UInt64
  arg6 : UInt64
  arg7 : UInt64
deriving DecidableEq, Repr

/-- `Event::EMPTY`. -/
def Event.empty : Event := ⟨0, 0, 0, 0, 0, 0, 0, 0, 0, 0, 0, 0⟩

/-! The kinds the recording channel names (`EVENT_*`). -/

def eventMemory : UInt32 := 2
def eventExec : UInt32 := 3
def eventBranchEdge : UInt32 := 4
def eventSyscall : UInt32 := 5
def eventContextChange : UInt32 := 6
def eventExecBytes : UInt32 := 9
def eventMemValue : UInt32 := 10
def eventMarker : UInt32 := 11
def eventRepeat : UInt32 := 12
def eventRegSnapshot : UInt32 := 13

/-- Marker tags (kind 11, `arg0`): `MARKER_START` and `MARKER_STOP`. -/
def markerStart : UInt64 := 1
def markerStop : UInt64 := 2

/-- `marker` of `record.rs`. -/
def marker (sequence tag value : UInt64) : Event :=
  { Event.empty with sequence := sequence, kind := eventMarker, arg0 := tag, arg1 := value }

/-- `same_payload`: every field but the sequence number. -/
def samePayload (left right : Event) : Bool :=
  left.kind == right.kind && left.threadId == right.threadId && left.address == right.address &&
    left.arg0 == right.arg0 && left.arg1 == right.arg1 && left.arg2 == right.arg2 &&
    left.arg3 == right.arg3 && left.arg4 == right.arg4 && left.arg5 == right.arg5 &&
    left.arg6 == right.arg6 && left.arg7 == right.arg7

/-- Two events with the same payload differ at most in their sequence number. -/
theorem samePayload_iff {left right : Event} :
    samePayload left right = true ↔ right = { left with sequence := right.sequence } := by
  cases left
  cases right
  simp only [samePayload, Bool.and_eq_true, beq_iff_eq, Event.mk.injEq, true_and]
  constructor
  · rintro ⟨⟨⟨⟨⟨⟨⟨⟨⟨⟨h, h⟩, h⟩, h⟩, h⟩, h⟩, h⟩, h⟩, h⟩, h⟩, h⟩
    simp [*]
  · rintro ⟨h, h, h, h, h, h, h, h, h, h, h⟩
    simp [*]

/-! ## The wire image -/

/-- The field widths of an 88-byte record, `"<QIIQ8Q"` in `struct` notation. -/
def recordLayout : List Nat := [8, 4, 4, 8, 8, 8, 8, 8, 8, 8, 8, 8]

/-- `EVENT_WIRE_LEN`. -/
def eventWireLen : Nat := 88

/-- `EventRecord::encode` after `to_record`. -/
def Event.encode (e : Event) : List UInt8 :=
  LittleEndian.pack recordLayout
    [e.sequence.toNat, e.kind.toNat, e.threadId.toNat, e.address.toNat, e.arg0.toNat,
      e.arg1.toNat, e.arg2.toNat, e.arg3.toNat, e.arg4.toNat, e.arg5.toNat, e.arg6.toNat,
      e.arg7.toNat]

@[simp] theorem Event.length_encode (e : Event) : e.encode.length = eventWireLen :=
  LittleEndian.length_pack rfl

end PinBridge
