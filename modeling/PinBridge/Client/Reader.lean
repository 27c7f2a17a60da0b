import PinBridge.Lib.Layouts
import PinBridge.Lib.Utf8
import PinBridge.Query.Server

/-!
# The reader of the client

The client decodes the bodies of replies with a `Reader`, which is a slice and a position in it.
`Decode` is what a decoder computes.  It returns a value, or an error, or it stops with a fault: an
index or a slice that is out of range, or a sum of two `usize` that overflows.  It also collects
the room that is reserved for vectors.  The agent runs its own client too, and there are agents of
32 bits, so the width of `usize` is a parameter.
-/

namespace PinBridge.Client

open Layouts (Request)
open LittleEndian (decode)
open Query (maxFrame)
open Utf8 (Text fromUtf8Lossy)

/-- Why a decoder does not return a value. -/
inductive Stop where
  | error (message : String)
  | fault
  deriving DecidableEq

/-- A `Reader`, and the room that has been reserved so far. -/
structure Machine where
  bytes : List UInt8
  pos : ℕ
  requests : List Request

/-- A computation with a `usize` of so many bits. -/
abbrev Decode := ReaderT ℕ (ExceptT Stop (StateM Machine))

variable {α β : Type}

/-! ## Operations -/

def fault : Decode α := throw .fault

def refuse (message : String) : Decode α := throw (.error message)

/-- A sum of two `usize`. -/
def add (a b : ℕ) : Decode ℕ := do
  if 2 ^ (← read) ≤ a + b then fault else return a + b

/-- `as usize`. -/
def asUsize (value : ℕ) : Decode ℕ := return value % 2 ^ (← read)

/-- `bytes.get(first..last)`. -/
def getSlice (bytes : List UInt8) (first last : ℕ) : Option (List UInt8) :=
  if first ≤ last ∧ last ≤ bytes.length then some ((bytes.take last).drop first) else none

/-- `&bytes[first..last]`. -/
def slice (bytes : List UInt8) (first last : ℕ) : Decode (List UInt8) :=
  match getSlice bytes first last with
  | some part => return part
  | none => fault

/-- `bytes[index]`. -/
def index (bytes : List UInt8) (index : ℕ) : Decode UInt8 :=
  match bytes[index]? with
  | some byte => return byte
  | none => fault

/-- `ok_or_else`. -/
def orErr (d : Decode (Option α)) (message : String) : Decode α := do
  match ← d with
  | some value => return value
  | none => refuse message

/-- `Vec::with_capacity` and `Vec::reserve`, for rows of at least so many bytes each. -/
def withCapacity (capacity least : ℕ) : Decode Unit := do
  let capacity ← asUsize capacity
  modify fun m => { m with
    requests := m.requests ++ [⟨capacity, least, m.bytes.length - m.pos⟩] }

/-- A loop that pushes what it reads. -/
def times (d : Decode α) : ℕ → Decode (List α)
  | 0 => return []
  | n + 1 => do
      let a ← d
      let as ← times d n
      return a :: as

/-- A vector with room for so many rows of at least so many bytes each, and the loop that fills
it. -/
def vec (least : ℕ) (d : Decode α) (count : ℕ) : Decode (List α) := do
  withCapacity count least
  times d count

/-- `Reader::new`. -/
def newReader (bytes : List UInt8) : Decode Unit := modify fun m => { m with bytes, pos := 0 }

/-- The next `n` bytes of a reader. -/
def readBytes (n : ℕ) : Decode (Option (List UInt8)) := do
  let m ← get
  let last ← add m.pos n
  match getSlice m.bytes m.pos last with
  | none => return none
  | some part =>
      set { m with pos := last }
      return some part

/-- `Reader::u16`, `Reader::u32` and `Reader::u64`, by the number of bytes. -/
def word (n : ℕ) : Decode (Option ℕ) := do
  let part ← readBytes n
  return part.map decode

/-- `Reader::u8`. -/
def u8 : Decode (Option UInt8) := do
  let m ← get
  match m.bytes[m.pos]? with
  | none => return none
  | some byte =>
      let pos ← add m.pos 1
      set { m with pos }
      return some byte

/-- `Reader::skip`. -/
def skip (count : ℕ) : Decode (Option Unit) := do
  let part ← readBytes count
  return part.map fun _ => ()

/-- `Reader::remaining`. -/
def remaining : Decode (List UInt8) := do
  let m ← get
  slice m.bytes m.pos m.bytes.length

def u8OrErr : Decode UInt8 := orErr u8 "short payload"

def u16OrErr : Decode UInt16 := UInt16.ofNat <$> orErr (word 2) "short payload"

def u32OrErr : Decode UInt32 := UInt32.ofNat <$> orErr (word 4) "short payload"

def u64OrErr : Decode UInt64 := UInt64.ofNat <$> orErr (word 8) "short payload"

/-- `read_short_str`. -/
def readShortStr : Decode Text := do
  let head ← remaining
  if head.length < 2 then refuse "short string"
  else
    let len := decode (← slice head 0 2)
    let rest ← slice head 2 head.length
    if rest.length < len then refuse "short string"
    else
      let text := fromUtf8Lossy (← slice rest 0 len)
      orErr (skip (← add 2 len)) "short string"
      return text

/-- `read_layout_string`. -/
def readLayoutString (label : String) : Decode Text := do
  let len := (← u32OrErr).toNat
  let bytes ← remaining
  if bytes.length < len then refuse ("short " ++ label)
  else
    let value := fromUtf8Lossy (← slice bytes 0 len)
    orErr (skip len) ("short " ++ label)
    return value

/-! ## What an operation does -/

section

variable {w : ℕ} {m m' : Machine} {a : α}

/-- The reader is in its body, and the body fits a frame. -/
structure Machine.Ok (m : Machine) : Prop where
  pos_le : m.pos ≤ m.bytes.length
  length_le : m.bytes.length ≤ maxFrame.toNat

/-- The bytes that are left. -/
def Machine.rest (m : Machine) : List UInt8 := m.bytes.drop m.pos

theorem bind_apply (d : Decode α) (f : α → Decode β) (w : ℕ) (m : Machine) :
    (d >>= f) w m = match d w m with
      | (.ok a, m') => f a w m'
      | (.error e, m') => (.error e, m') := by
  show (ExceptT.bind (d w) fun a => f a w) m = _
  cases h : d w m with
  | mk outcome m' =>
      cases outcome with
      | ok a =>
          show (match d w m with | (r, m') => ExceptT.bindCont (fun a => f a w) r m') = _
          rw [h]
          rfl
      | error e =>
          show (match d w m with | (r, m') => ExceptT.bindCont (fun a => f a w) r m') = _
          rw [h]
          rfl

theorem bind_ok {d : Decode α} {f : α → Decode β} (h : d w m = (.ok a, m')) :
    (d >>= f) w m = f a w m' := by
  rw [bind_apply, h]

theorem bind_error {d : Decode α} {f : α → Decode β} {e : Stop} (h : d w m = (.error e, m')) :
    (d >>= f) w m = (.error e, m') := by
  rw [bind_apply, h]

theorem map_apply (f : α → β) (d : Decode α) : f <$> d = d >>= fun a => pure (f a) := rfl

theorem add_apply {a b : ℕ} (h : a + b < 2 ^ w) : add a b w m = (.ok (a + b), m) := by
  show (if 2 ^ w ≤ a + b then fault else pure (a + b) : Decode ℕ) w m = _
  rw [if_neg (Nat.not_le.mpr h)]
  rfl

theorem add_fault {a b : ℕ} (h : 2 ^ w ≤ a + b) : add a b w m = (.error .fault, m) := by
  show (if 2 ^ w ≤ a + b then fault else pure (a + b) : Decode ℕ) w m = _
  rw [if_pos h]
  rfl

theorem slice_apply {bytes : List UInt8} {first last : ℕ} (h : first ≤ last)
    (hlast : last ≤ bytes.length) :
    slice bytes first last w m = (.ok ((bytes.take last).drop first), m) := by
  rw [slice, getSlice, if_pos ⟨h, hlast⟩]
  rfl

theorem orErr_some {d : Decode (Option α)} {message : String} (h : d w m = (.ok (some a), m')) :
    orErr d message w m = (.ok a, m') := by
  rw [orErr, bind_ok h]
  rfl

theorem orErr_none {d : Decode (Option α)} {message : String} (h : d w m = (.ok none, m')) :
    orErr d message w m = (.error (.error message), m') := by
  rw [orErr, bind_ok h]
  rfl

theorem Machine.Ok.remaining (h : m.Ok) : remaining w m = (.ok m.rest, m) := by
  have hslice : slice m.bytes m.pos m.bytes.length w m = (.ok m.rest, m) := by
    rw [slice_apply h.pos_le (Nat.le_refl _), List.take_length, Machine.rest]
  exact hslice

/-- Behind a body that fits a frame, a `usize` goes on. -/
theorem Machine.Ok.add_lt (h : m.Ok) (hw : 32 ≤ w) {n : ℕ} (hn : n ≤ m.rest.length + 8) :
    m.pos + n < 2 ^ w := by
  have hpos := h.pos_le
  have hlength := h.length_le
  have hmax : maxFrame.toNat = 1048576 := rfl
  have hpow : 2 ^ 32 ≤ 2 ^ w := Nat.pow_le_pow_right (by decide) hw
  rw [Machine.rest, List.length_drop] at hn
  omega

/-- The next bytes, when the position behind them is a `usize`. -/
theorem Machine.Ok.readBytes (h : m.Ok) {n : ℕ} (hn : m.pos + n < 2 ^ w) :
    readBytes n w m = if m.rest.length < n then (.ok none, m)
      else (.ok (some (m.rest.take n)), { m with pos := m.pos + n }) := by
  have hpos := h.pos_le
  have hlength : m.rest.length = m.bytes.length - m.pos := List.length_drop ..
  have hget : (get : Decode Machine) w m = (.ok m, m) := rfl
  have hpart : (m.bytes.take (m.pos + n)).drop m.pos = m.rest.take n := by
    rw [List.drop_take, Nat.add_sub_cancel_left, Machine.rest]
  rw [Client.readBytes, bind_ok hget, bind_ok (add_apply hn), getSlice, hpart]
  by_cases hshort : m.rest.length < n
  · rw [if_neg (by omega), if_pos hshort]
    rfl
  · rw [if_pos (by omega), if_neg hshort]
    rfl

/-- The reader after its next bytes. -/
theorem Machine.Ok.advance (h : m.Ok) {n : ℕ} (hn : ¬ m.rest.length < n) :
    Machine.Ok { m with pos := m.pos + n } ∧
      Machine.rest { m with pos := m.pos + n } = m.rest.drop n := by
  have hpos := h.pos_le
  have hlength : m.rest.length = m.bytes.length - m.pos := List.length_drop ..
  refine ⟨⟨?_, h.length_le⟩, ?_⟩
  · dsimp only
    omega
  · rw [Machine.rest, Machine.rest, List.drop_drop]

end

end PinBridge.Client
