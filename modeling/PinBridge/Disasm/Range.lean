import PinBridge.Hooks.Arming
import PinBridge.Hooks.Prototype
import PinBridge.Lib.LittleEndian
import PinBridge.Lib.SortedList
import PinBridge.Lib.Sweep
import PinBridge.Stepping.Request

/-!
# Scanning a range of code

`scan_range` collects the addresses of the instructions of some kinds between
two addresses.  It reads and decodes at most 128 instructions at a time
(`disassembleLocal`), and the next chunk begins behind the last instruction of
the one before.  What decodes the instructions is a parameter of the model
(`Sweep.Decoder`).

`scanRange_eq` says that this is one sweep over the memory.  The Agent computes
where an instruction ends with a saturating addition, so at the end of the
address space an instruction that ends at `2 ^ 64` counts as one that ends at
`2 ^ 64 - 1` (`satEnd`).
-/

namespace PinBridge.Disasm

open Hooks (maxHookPoints satAdd trim lower)
open Scripts (statusBadRequest statusInternal)
open Stepping (FlowInsn)
open Sweep (Decoder window)
open Utf8 (Text)

/-! ## The target -/

/-- An instruction, without its address. -/
structure Insn where
  size : Nat
  /-- 0 linear, 1 branch, 2 call, 3 return. -/
  kind : UInt32
  text : Text
  deriving DecidableEq, Repr

/-- The memory of the application and what decodes it. -/
structure Target where
  is64 : Bool
  /-- The bytes that can be read. -/
  memory : UInt64 → Option UInt8
  /-- XED. -/
  xed : Decoder UInt8 Insn
  /-- Instructions are at most 15 bytes long. -/
  maxSize : xed.maxSize = 15
  size_eq : xed.size = Insn.size
  /-- `pb_disassemble_flow`. -/
  disassembleFlow : List UInt8 → Nat → Option FlowInsn

namespace Target

variable (t : Target)

/-- A byte of the memory.  The address space ends at `2 ^ 64`. -/
def read (address : Nat) : Option UInt8 :=
  if address < 2 ^ 64 then t.memory (UInt64.ofNat address) else none

/-- The bytes `pb_pin_safe_copy` copies. -/
def safeCopy (address count : Nat) : List UInt8 := window t.read address count

/-- `arch::pointer_width`. -/
def pointerWidth : Nat := if t.is64 then 8 else 4

/-- `arch::instr_ptr_reg`: `PB_REG_RIP` or `PB_REG_EIP`. -/
def instrPtrReg : Int := if t.is64 then 26 else 58

/-- `pb_disassemble`: the instructions at an address, with their addresses.  It refuses
to decode nothing. -/
def pbDisassemble (bytes : List UInt8) (address capacity : Nat) : Option (List (Nat × Insn)) :=
  if bytes = [] ∨ capacity = 0 then none else some (t.xed.chunk capacity address bytes)

/-- `flow_target`. -/
def flowTarget (insn : Nat × Insn) (bytes : List UInt8) (base : Nat) : UInt64 :=
  if insn.2.kind ≠ 1 ∧ insn.2.kind ≠ 2 then 0
  else
    let offset := insn.1 - base
    let stop := offset + insn.2.size
    if bytes.length < stop then 0
    else
      match t.disassembleFlow ((bytes.take stop).drop offset) insn.1 with
      | none => 0
      | some flow =>
          if flow.hasTarget then flow.target
          else if flow.indMem ∧ flow.baseReg = t.instrPtrReg then
            let ea := UInt64.ofNat (insn.1 + insn.2.size) + flow.disp
            let copied := t.safeCopy ea.toNat t.pointerWidth
            if copied.length = t.pointerWidth then UInt64.ofNat (LittleEndian.decode copied) else 0
          else 0

end Target

/-! ## Chunks -/

/-- `MAX_INSNS`. -/
def maxInsns : Nat := 128

/-- `MAX_BYTES`. -/
def maxBytes : Nat := 4096

/-- A decoded instruction. -/
structure DisasmRow where
  address : Nat
  size : Nat
  kind : UInt32
  target : UInt64
  text : Text
  bytes : List UInt8
  deriving DecidableEq, Repr

/-- The row of an instruction that was decoded from the bytes at an address. -/
def Target.row (t : Target) (bytes : List UInt8) (address : Nat) (insn : Nat × Insn) : DisasmRow :=
  let offset := insn.1 - address
  let stop := offset + insn.2.size
  { address := insn.1
    size := insn.2.size
    kind := insn.2.kind
    target := t.flowTarget insn bytes address
    text := insn.2.text
    bytes :=
      if stop ≤ bytes.length then (bytes.take stop).drop offset
      else List.replicate insn.2.size 0 }

/-- Decode some instructions at an address. -/
def Target.disassembleLocal (t : Target) (address count : Nat) : Except UInt8 (List DisasmRow) :=
  if count = 0 ∨ maxInsns < count then .error statusBadRequest
  else
    let bytes := t.safeCopy address (min (count * 15) maxBytes)
    if bytes.length = 0 then .error statusBadRequest
    else
      match t.pbDisassemble bytes address count with
      | none => .error statusInternal
      | some insns => .ok (insns.map (t.row bytes address))

/-! ## The kinds -/

/-- `RANGE_KIND_ALL`. -/
def rangeKindAll : UInt32 := (1 : UInt32) <<< 0

/-- `RANGE_KIND_CALL`. -/
def rangeKindCall : UInt32 := (1 : UInt32) <<< 1

/-- `RANGE_KIND_SYSCALL`. -/
def rangeKindSyscall : UInt32 := (1 : UInt32) <<< 2

/-- `RANGE_KIND_BRANCH`. -/
def rangeKindBranch : UInt32 := (1 : UInt32) <<< 3

/-- `RANGE_KIND_RETURN`. -/
def rangeKindReturn : UInt32 := (1 : UInt32) <<< 4

/-- `RANGE_KIND_MASK`. -/
def rangeKindMask : UInt32 :=
  rangeKindAll ||| rangeKindCall ||| rangeKindSyscall ||| rangeKindBranch ||| rangeKindReturn

/-- `MAX_RANGE_BYTES`. -/
def maxRangeBytes : Nat := 4 * 1024 * 1024

/-- The instruction is of one of the kinds. -/
def rangeKindMatches (kind : UInt32) (text : Text) (kindMask : UInt32) : Bool :=
  if kindMask &&& rangeKindAll ≠ 0 then true
  else if kind = 2 ∧ kindMask &&& rangeKindCall ≠ 0 then true
  else if kind = 1 ∧ kindMask &&& rangeKindBranch ≠ 0 then true
  else if kind = 3 ∧ kindMask &&& rangeKindReturn ≠ 0 then true
  else if kindMask &&& rangeKindSyscall ≠ 0 then
    let text := lower (trim text)
    ["syscall", "sysenter", "int 0x2e", "int 2eh"].any fun name => name.toList.isPrefixOf text
  else false

/-! ## The scan -/

/-- What a scan has found. -/
structure RangeScan where
  decoded : Nat
  matched : Nat
  addresses : List Nat
  truncated : Bool
  complete : Bool
  deriving DecidableEq, Repr

/-- The locals of the loop. -/
structure Scan where
  decoded : Nat
  matched : Nat
  addresses : List Nat
  complete : Bool

/-- The locals at the start. -/
def Scan.start : Scan := ⟨0, 0, [], true⟩

/-- The loop over the rows of a chunk, which also moves `next`. -/
def Scan.rows (stop : Nat) (kindMask : UInt32) : List DisasmRow → Scan → Nat → Scan × Nat
  | [], s, next => (s, next)
  | row :: rows, s, next =>
      if stop ≤ row.address then (s, next)
      else
        let rowEnd := satAdd row.address row.size
        if rowEnd ≤ row.address then ({ s with complete := false }, next)
        else
          let found := rowEnd ≤ stop && rangeKindMatches row.kind row.text kindMask
          let s := { s with
            decoded := s.decoded + 1
            matched := if found then s.matched + 1 else s.matched
            addresses :=
              if found && s.addresses.length < maxHookPoints then s.addresses ++ [row.address]
              else s.addresses }
          Scan.rows stop kindMask rows s (max next rowEnd)

/-- The loop over the chunks. -/
def Target.scanLoop (t : Target) (stop : Nat) (kindMask : UInt32) (cursor : Nat) (s : Scan) :
    Scan × Nat :=
  if cursor < stop then
    match t.disassembleLocal cursor maxInsns with
    | .error _ | .ok [] => ({ s with complete := false }, cursor)
    | .ok rows =>
        let (s, next) := Scan.rows stop kindMask rows s cursor
        if next ≤ cursor then ({ s with complete := false }, cursor)
        else t.scanLoop stop kindMask (min next stop) s
  else (s, cursor)
  termination_by stop - cursor

/-- `scan_range`. -/
def Target.scanRange (t : Target) (start stop : UInt64) (kindMask : UInt32) :
    Except UInt8 RangeScan :=
  if start = 0 ∨ stop ≤ start ∨ maxRangeBytes < (stop - start).toNat ∨ kindMask = 0 ∨
      kindMask &&& ~~~rangeKindMask ≠ 0 then
    .error statusBadRequest
  else
    let (s, cursor) := t.scanLoop stop.toNat kindMask start.toNat .start
    let addresses := SortedList.sortDedup s.addresses
    .ok {
      decoded := s.decoded
      matched := s.matched
      truncated := addresses.length < s.matched
      addresses
      complete := s.complete && stop.toNat ≤ cursor }

/-! ## The sweep -/

/-- Where the Agent thinks an address behind the code is. -/
def satEnd (address : Nat) : Nat := min address (2 ^ 64 - 1)

/-- The instruction ends at or before the end, and is of one of the kinds. -/
def selects (stop : Nat) (kindMask : UInt32) (p : Nat × Insn) : Bool :=
  satEnd (p.1 + p.2.size) ≤ stop && rangeKindMatches p.2.kind p.2.text kindMask

/-- The selected instructions. -/
def selected (stop : Nat) (kindMask : UInt32) (ps : List (Nat × Insn)) : List (Nat × Insn) :=
  ps.filter (selects stop kindMask)

/-- The locals after some instructions. -/
def Scan.of (stop : Nat) (kindMask : UInt32) (ps : List (Nat × Insn)) : Scan where
  decoded := ps.length
  matched := (selected stop kindMask ps).length
  addresses := ((selected stop kindMask ps).map Prod.fst).take maxHookPoints
  complete := true

section

variable {stop next a c : Nat} {kindMask : UInt32} {done ps : List (Nat × Insn)}

theorem take_concat {α : Type*} (l : List α) (x : α) (n : Nat) :
    (l ++ [x]).take n = if (l.take n).length < n then l.take n ++ [x] else l.take n := by
  rcases lt_or_ge l.length n with hlt | hge
  · have hle : (l ++ [x]).length ≤ n := by
      rw [List.length_append]
      exact hlt
    rw [List.take_of_length_le hle, List.take_of_length_le hlt.le, if_pos hlt]
  · rw [List.length_take_of_le hge, if_neg (lt_irrefl n), List.take_append_of_le_length hge]

theorem selected_concat (p : Nat × Insn) :
    selected stop kindMask (done ++ [p]) =
      if selects stop kindMask p then selected stop kindMask done ++ [p]
      else selected stop kindMask done := by
  rw [selected, List.filter_append, List.filter_singleton]
  cases selects stop kindMask p with
  | true => rfl
  | false => exact List.append_nil _

/-- One more instruction. -/
theorem Scan.of_concat (p : Nat × Insn) :
    Scan.of stop kindMask (done ++ [p]) =
      { Scan.of stop kindMask done with
        decoded := (Scan.of stop kindMask done).decoded + 1
        matched :=
          if selects stop kindMask p then (Scan.of stop kindMask done).matched + 1
          else (Scan.of stop kindMask done).matched
        addresses :=
          if selects stop kindMask p &&
              (Scan.of stop kindMask done).addresses.length < maxHookPoints then
            (Scan.of stop kindMask done).addresses ++ [p.1]
          else (Scan.of stop kindMask done).addresses } := by
  rw [Scan.of, selected_concat, List.length_append, List.length_singleton]
  cases hp : selects stop kindMask p with
  | false => rfl
  | true =>
      have hroom : ((Scan.of stop kindMask done).addresses.length < maxHookPoints) =
          (decide ((Scan.of stop kindMask done).addresses.length < maxHookPoints) = true) :=
        (decide_eq_true_eq ..).symm
      simp only [if_true, Bool.true_and, ← hroom, List.length_append, List.length_singleton,
        List.map_append, List.map_singleton, take_concat]
      rfl

variable (t : Target)

/-- The row of an instruction that begins before the end. -/
theorem Scan.rows_cons (bytes : List UInt8) (base : Nat) (p : Nat × Insn) (rest : List DisasmRow)
    (hlt : p.1 < stop) (hle : ¬satEnd (p.1 + p.2.size) ≤ p.1) :
    Scan.rows stop kindMask (t.row bytes base p :: rest) (Scan.of stop kindMask done) next =
      Scan.rows stop kindMask rest (Scan.of stop kindMask (done ++ [p]))
        (max next (satEnd (p.1 + p.2.size))) := by
  rw [Scan.of_concat, Scan.rows]
  show (if stop ≤ p.1 then _ else if satEnd (p.1 + p.2.size) ≤ p.1 then _ else _) = _
  rw [if_neg (not_le.mpr hlt), if_neg hle]
  rfl

/-- The row of an instruction behind the end. -/
theorem Scan.rows_cons_of_le (bytes : List UInt8) (base : Nat) (p : Nat × Insn)
    (rest : List DisasmRow) (s : Scan) (hge : stop ≤ p.1) :
    Scan.rows stop kindMask (t.row bytes base p :: rest) s next = (s, next) := by
  rw [Scan.rows]
  exact if_pos hge

variable {t}

theorem follow_succ_of_some {i : Insn} (hi : t.xed.decodeAt t.read a = some i) :
    t.xed.follow t.read (c + 1) a = (a, i) :: t.xed.follow t.read c (a + i.size) := by
  rw [Decoder.follow, hi, ← t.size_eq]

theorem size_pos {i : Insn} (hi : t.xed.decodeAt t.read a = some i) : 0 < i.size := by
  have hpos := t.xed.size_pos hi
  rwa [t.size_eq] at hpos

theorem after_cons_of_lt {p : Nat × Insn} (hlt : p.1 < stop) :
    t.xed.after stop a (p :: ps) = t.xed.after stop (p.1 + p.2.size) ps := by
  rw [Decoder.after, if_pos hlt, t.size_eq]

/-- The loop over the rows of a chunk collects the instructions that begin before the
end. -/
theorem Scan.rows_eq (hstop : stop < 2 ^ 64) (bytes : List UInt8) (base : Nat) :
    Scan.rows stop kindMask ((t.xed.follow t.read c a).map (t.row bytes base))
        (Scan.of stop kindMask done) (satEnd a) =
      (Scan.of stop kindMask
          (done ++ (t.xed.follow t.read c a).takeWhile fun p => p.1 < stop),
        satEnd (t.xed.after stop a (t.xed.follow t.read c a))) := by
  induction c generalizing a done with
  | zero =>
      rw [Decoder.follow, List.takeWhile_nil, List.append_nil]
      rfl
  | succ c ih =>
      cases hi : t.xed.decodeAt t.read a with
      | none =>
          rw [Decoder.follow, hi, List.takeWhile_nil, List.append_nil]
          rfl
      | some i =>
          have hpos := size_pos hi
          rw [follow_succ_of_some hi, List.map_cons]
          rcases lt_or_ge a stop with hlt | hge
          · have hle : ¬satEnd (a + i.size) ≤ a := by
              rw [satEnd]
              omega
            have hmax : max (satEnd a) (satEnd (a + i.size)) = satEnd (a + i.size) := by
              rw [satEnd, satEnd]
              omega
            rw [Scan.rows_cons t bytes base (a, i) _ hlt hle, hmax, ih, after_cons_of_lt hlt,
              List.takeWhile_cons_of_pos (by simpa using hlt), List.append_assoc]
            rfl
          · rw [Scan.rows_cons_of_le t bytes base (a, i) _ _ hge,
              List.takeWhile_cons_of_neg (by simpa using hge), List.append_nil, Decoder.after,
              if_neg (not_lt.mpr hge)]

/-! ## The loop over the chunks -/

/-- Nothing is decoded where nothing can be read. -/
theorem decodeAt_of_safeCopy {n : Nat} (hn : 15 ≤ n) (h : (t.safeCopy a n).length = 0) :
    t.xed.decodeAt t.read a = none := by
  have hnil : window t.read a n = [] := List.length_eq_zero_iff.mp h
  rw [← Decoder.decode_window (t.maxSize.trans_le hn), hnil]
  cases hi : t.xed.decode a [] with
  | none => rfl
  | some i => exact absurd (t.xed.fits hi) (not_le.mpr (t.xed.size_pos hi))

/-- What one chunk gives: the next 128 instructions. -/
theorem disassembleLocal_eq (t : Target) (a : Nat) :
    t.disassembleLocal a maxInsns =
      if (t.safeCopy a 1920).length = 0 then .error statusBadRequest
      else .ok ((t.xed.follow t.read maxInsns a).map (t.row (t.safeCopy a 1920) a)) := by
  have hchunk : t.xed.chunk maxInsns a (t.safeCopy a 1920) = t.xed.follow t.read maxInsns a := by
    refine Decoder.chunk_window ?_
    rw [t.maxSize]
    decide
  rw [Target.disassembleLocal, if_neg (by decide)]
  show (if (t.safeCopy a 1920).length = 0 then _ else _) = _
  split
  next => rfl
  next hne =>
    have hnil : ¬(t.safeCopy a 1920 = [] ∨ maxInsns = 0) := by
      rintro (h | h)
      · exact hne (List.length_eq_zero_iff.mpr h)
      · exact absurd h (by decide)
    show (match t.pbDisassemble (t.safeCopy a 1920) a maxInsns with
      | none => _
      | some insns => _) = _
    rw [Target.pbDisassemble, if_neg hnil, hchunk]
    rfl

theorem follow_eq_nil_iff :
    t.xed.follow t.read maxInsns a = [] ↔ t.xed.decodeAt t.read a = none := by
  cases hi : t.xed.decodeAt t.read a with
  | none =>
      rw [maxInsns, Decoder.follow, hi]
      exact iff_of_true rfl rfl
  | some i =>
      rw [maxInsns, follow_succ_of_some hi]
      simp

/-- A step of the loop where nothing can be decoded. -/
theorem scanLoop_of_none (hlt : a < stop) (hi : t.xed.decodeAt t.read a = none) (s : Scan) :
    t.scanLoop stop kindMask a s = ({ s with complete := false }, a) := by
  rw [Target.scanLoop, if_pos hlt, disassembleLocal_eq, follow_eq_nil_iff.mpr hi]
  split
  next => rfl
  next => rfl
  next rows hrows hne =>
    split at hne
    next => cases hne
    next =>
      cases hne
      exact absurd rfl hrows

/-- A step of the loop where something can be decoded. -/
theorem scanLoop_of_some (hlt : a < stop) {i : Insn} (hi : t.xed.decodeAt t.read a = some i)
    (s : Scan) :
    t.scanLoop stop kindMask a s =
      match Scan.rows stop kindMask
        ((t.xed.follow t.read maxInsns a).map (t.row (t.safeCopy a 1920) a)) s a with
      | (s, next) =>
          if next ≤ a then ({ s with complete := false }, a)
          else t.scanLoop stop kindMask (min next stop) s := by
  have hne : ¬(t.safeCopy a 1920).length = 0 := fun h => by
    rw [decodeAt_of_safeCopy (by decide) h] at hi
    cases hi
  have hrows : (t.xed.follow t.read maxInsns a).map (t.row (t.safeCopy a 1920) a) ≠ [] := by
    rw [ne_eq, List.map_eq_nil_iff, follow_eq_nil_iff, hi]
    exact Option.some_ne_none i
  rw [Target.scanLoop, if_pos hlt, disassembleLocal_eq, if_neg hne]
  split
  next h => cases h
  next h =>
    rw [Except.ok.injEq] at h
    exact absurd h hrows
  next rows _ h =>
    cases h
    rfl

theorem le_after (n : Nat) : a ≤ t.xed.after stop a (t.xed.follow t.read n a) := by
  induction n generalizing a with
  | zero => exact le_rfl
  | succ n ih =>
      cases hi : t.xed.decodeAt t.read a with
      | none =>
          rw [Decoder.follow, hi]
          exact le_rfl
      | some i =>
          rw [follow_succ_of_some hi, Decoder.after]
          split
          next =>
            have := ih (a := a + i.size)
            rw [t.size_eq]
            exact (Nat.le_add_right _ _).trans this
          next => exact le_rfl

/-- A chunk in which something is decoded moves the cursor. -/
theorem lt_after {i : Insn} (hlt : a < stop) (hi : t.xed.decodeAt t.read a = some i) :
    a < t.xed.after stop a (t.xed.follow t.read maxInsns a) := by
  have hpos := size_pos hi
  rw [maxInsns, follow_succ_of_some hi, after_cons_of_lt hlt]
  have hle : a + i.size ≤ t.xed.after stop (a + i.size)
      (t.xed.follow t.read 127 (a + i.size)) := le_after 127
  show a < t.xed.after stop (a + i.size) _
  omega

/-- The cursor moves to where the chunk ends. -/
theorem scanLoop_step (hstop : stop < 2 ^ 64) (hlt : a < stop) {i : Insn}
    (hi : t.xed.decodeAt t.read a = some i) :
    t.scanLoop stop kindMask a (Scan.of stop kindMask done) =
      t.scanLoop stop kindMask
        (min (satEnd (t.xed.after stop a (t.xed.follow t.read maxInsns a))) stop)
        (Scan.of stop kindMask
          (done ++ (t.xed.follow t.read maxInsns a).takeWhile fun p => p.1 < stop)) := by
  have hafter := lt_after hlt hi
  have hsat : satEnd a = a := by
    rw [satEnd]
    omega
  have hnext : ¬satEnd (t.xed.after stop a (t.xed.follow t.read maxInsns a)) ≤ a := by
    rw [satEnd]
    omega
  have hrows : Scan.rows stop kindMask
      ((t.xed.follow t.read maxInsns a).map (t.row (t.safeCopy a 1920) a))
      (Scan.of stop kindMask done) a = _ := hsat ▸ Scan.rows_eq hstop (t.safeCopy a 1920) a
  rw [scanLoop_of_some hlt hi, hrows]
  exact if_neg hnext

/-- Behind the end there is nothing to sweep. -/
theorem sweep_min (hstop : stop < 2 ^ 64) (b : Nat) :
    t.xed.sweep t.read stop (min (satEnd b) stop) = t.xed.sweep t.read stop b := by
  rcases lt_or_ge b stop with hlt | hge
  · have hmin : min (satEnd b) stop = b := by
      rw [satEnd]
      omega
    rw [hmin]
  · have hmin : stop ≤ min (satEnd b) stop := by
      rw [satEnd]
      omega
    rw [Decoder.sweep_of_le hge, Decoder.sweep_of_le hmin]

/-- The loop collects the instructions of the sweep, and is complete when the sweep
reaches the end. -/
theorem scanLoop_eq (kindMask : UInt32) (hstop : stop < 2 ^ 64) (done : List (Nat × Insn)) (a : Nat) :
    (t.scanLoop stop kindMask a (Scan.of stop kindMask done)).1 =
        { Scan.of stop kindMask (done ++ (t.xed.sweep t.read stop a).1) with
          complete := (t.xed.sweep t.read stop a).2 } ∧
      ((t.xed.sweep t.read stop a).2 = true →
        stop ≤ (t.scanLoop stop kindMask a (Scan.of stop kindMask done)).2) := by
  induction hn : stop - a using Nat.strong_induction_on generalizing a done with
  | _ n ih =>
      rcases lt_or_ge a stop with hlt | hge
      · cases hi : t.xed.decodeAt t.read a with
        | none =>
            rw [scanLoop_of_none hlt hi, Decoder.sweep_of_none hlt hi, List.append_nil]
            exact ⟨rfl, fun h => nomatch h⟩
        | some i =>
            have hafter := lt_after hlt hi
            have hmoved : stop - min (satEnd
                (t.xed.after stop a (t.xed.follow t.read maxInsns a))) stop < n := by
              rw [satEnd]
              omega
            have hrest := ih _ hmoved
              (done ++ (t.xed.follow t.read maxInsns a).takeWhile fun p => p.1 < stop) _ rfl
            rw [sweep_min hstop] at hrest
            rw [scanLoop_step hstop hlt hi, Decoder.sweep_eq maxInsns, ← List.append_assoc]
            exact hrest
      · rw [Target.scanLoop, if_neg (not_lt.mpr hge), Decoder.sweep_of_le hge, List.append_nil]
        exact ⟨rfl, fun _ => hge⟩

end

/-! ## The result -/

/-- The result of the sweep from `start` to `stop`. -/
def Target.sweepResult (t : Target) (start stop : UInt64) (kindMask : UInt32) : RangeScan :=
  let (insns, complete) := t.xed.sweep t.read stop.toNat start.toNat
  let found := selected stop.toNat kindMask insns
  { decoded := insns.length
    matched := found.length
    addresses := (found.map Prod.fst).take 32768
    truncated := 32768 < found.length
    complete }

/-- A request that is refused. -/
def Refused (start stop : UInt64) (kindMask : UInt32) : Prop :=
  start = 0 ∨ stop ≤ start ∨ maxRangeBytes < (stop - start).toNat ∨ kindMask = 0 ∨
    kindMask &&& ~~~rangeKindMask ≠ 0

instance (start stop : UInt64) (kindMask : UInt32) : Decidable (Refused start stop kindMask) :=
  inferInstanceAs (Decidable (_ ∨ _))

/-- The addresses of a scan are sorted. -/
theorem sortDedup_addresses (t : Target) (stop start : Nat) (kindMask : UInt32) :
    SortedList.sortDedup (Scan.of stop kindMask (t.xed.sweep t.read stop start).1).addresses =
      (Scan.of stop kindMask (t.xed.sweep t.read stop start).1).addresses := by
  have hsorted : (Scan.of stop kindMask (t.xed.sweep t.read stop start).1).addresses.SortedLT := by
    have hpairs : (selected stop kindMask (t.xed.sweep t.read stop start).1).Pairwise
        fun p q => p.1 < q.1 := Decoder.pairwise_sweep.sublist List.filter_sublist
    exact ((List.pairwise_map.mpr hpairs).sublist (List.take_sublist ..)).sortedLT
  exact (SortedList.sortedLT_sortDedup _).eq_of_mem_iff hsorted fun _ => SortedList.mem_sortDedup

theorem scanRange_of_not_refused (t : Target) {start stop : UInt64} {kindMask : UInt32}
    (h : ¬Refused start stop kindMask) :
    t.scanRange start stop kindMask = .ok (t.sweepResult start stop kindMask) := by
  obtain ⟨hscan, hcursor⟩ := scanLoop_eq (t := t) kindMask stop.toNat_lt [] start.toNat
  rw [List.nil_append] at hscan
  have hstart : Scan.of stop.toNat kindMask [] = .start := rfl
  rw [hstart] at hscan hcursor
  have hcomplete : ((t.scanLoop stop.toNat kindMask start.toNat .start).1.complete &&
      decide (stop.toNat ≤ (t.scanLoop stop.toNat kindMask start.toNat .start).2)) =
      (t.xed.sweep t.read stop.toNat start.toNat).2 := by
    rw [hscan]
    cases hw : (t.xed.sweep t.read stop.toNat start.toNat).2 with
    | false => rfl
    | true => exact decide_eq_true (hcursor hw)
  have haddresses : SortedList.sortDedup
      (t.scanLoop stop.toNat kindMask start.toNat .start).1.addresses =
      (t.sweepResult start stop kindMask).addresses := by
    rw [hscan]
    exact sortDedup_addresses t stop.toNat start.toNat kindMask
  have hmatched : (t.scanLoop stop.toNat kindMask start.toNat .start).1.matched =
      (t.sweepResult start stop kindMask).matched := by
    rw [hscan]
    rfl
  have htruncated : decide ((t.sweepResult start stop kindMask).addresses.length <
      (t.sweepResult start stop kindMask).matched) =
      (t.sweepResult start stop kindMask).truncated := by
    refine decide_eq_decide.mpr ?_
    show ((List.map _ _).take 32768).length < _ ↔ _
    rw [List.length_take, List.length_map]
    exact min_lt_iff.trans (or_iff_left (lt_irrefl _))
  have hdecoded : (t.scanLoop stop.toNat kindMask start.toNat .start).1.decoded =
      (t.sweepResult start stop kindMask).decoded := by
    rw [hscan]
    rfl
  have hvalid : ¬(start = 0 ∨ stop ≤ start ∨ maxRangeBytes < (stop - start).toNat ∨
      kindMask = 0 ∨ kindMask &&& ~~~rangeKindMask ≠ 0) := h
  rw [Target.scanRange, if_neg hvalid]
  simp only [haddresses, hmatched, htruncated, hdecoded, hcomplete]
  rfl

/-- A scan is one sweep over the memory, however it is cut into chunks: it decodes the
instructions of the sweep, its addresses are those of the selected ones, up to 32768, and
it is complete when the sweep reaches the end. -/
theorem scanRange_eq_sweep (t : Target) (start stop : UInt64) (kindMask : UInt32) :
    t.scanRange start stop kindMask =
      if Refused start stop kindMask then .error statusBadRequest
      else .ok (t.sweepResult start stop kindMask) := by
  rcases em (Refused start stop kindMask) with h | h
  · rw [if_pos h]
    exact if_pos h
  · rw [if_neg h]
    exact scanRange_of_not_refused t h

/-! ## At the end of the address space -/

/-- The short jump at the front of some bytes. -/
def decodeShortJump : List UInt8 → Option Insn
  | 0xEB :: _ :: _ => some ⟨2, 1, "jmp".toList⟩
  | _ => none

theorem decodeShortJump_eq_some_iff {bytes : List UInt8} {insn : Insn} :
    decodeShortJump bytes = some insn ↔
      (∃ d rest, bytes = 0xEB :: d :: rest) ∧ insn = ⟨2, 1, "jmp".toList⟩ := by
  constructor
  · intro h
    rw [decodeShortJump.eq_def] at h
    split at h
    next d rest => exact ⟨⟨d, rest, rfl⟩, (Option.some.inj h).symm⟩
    next => cases h
  · rintro ⟨⟨d, rest, rfl⟩, rfl⟩
    rfl

/-- A decoder that knows the short jump. -/
def shortJumps : Decoder UInt8 Insn where
  decode _ := decodeShortJump
  size := Insn.size
  maxSize := 15
  size_pos h := by
    obtain ⟨-, rfl⟩ := decodeShortJump_eq_some_iff.mp h
    decide
  size_le h := by
    obtain ⟨-, rfl⟩ := decodeShortJump_eq_some_iff.mp h
    decide
  fits h := by
    obtain ⟨⟨d, rest, rfl⟩, rfl⟩ := decodeShortJump_eq_some_iff.mp h
    exact Nat.le_add_left 2 rest.length
  congr := by
    intro a bs cs i h htake
    obtain ⟨⟨d, rest, rfl⟩, rfl⟩ := decodeShortJump_eq_some_iff.mp h
    have htwo : cs.take 2 = [0xEB, d] := htake
    have hcs : cs = 0xEB :: d :: cs.drop 2 :=
      (List.take_append_drop 2 cs).symm.trans (congrArg (· ++ cs.drop 2) htwo)
    exact decodeShortJump_eq_some_iff.mpr ⟨⟨d, cs.drop 2, hcs⟩, rfl⟩

/-- A short jump in the last two bytes of the address space. -/
def jumpAtEnd : Target where
  is64 := true
  memory address :=
    if address = 0xFFFFFFFFFFFFFFFE then some 0xEB
    else if address = 0xFFFFFFFFFFFFFFFF then some 0xFE
    else none
  xed := shortJumps
  maxSize := rfl
  size_eq := rfl
  disassembleFlow _ _ := none

/-- An instruction that ends at the end of the address space is selected, although it
does not end at or before the last address. -/
theorem scanRange_selects_past_end :
    ∃ scan, jumpAtEnd.scanRange 0xFFFFFFFFFFFFFFFE 0xFFFFFFFFFFFFFFFF rangeKindAll = .ok scan ∧
      scan.addresses ≠
        ((jumpAtEnd.xed.sweep jumpAtEnd.read 0xFFFFFFFFFFFFFFFF 0xFFFFFFFFFFFFFFFE).1.filter
          fun p => p.1 + p.2.size ≤ 0xFFFFFFFFFFFFFFFF).map Prod.fst := by
  have hdecode : jumpAtEnd.xed.decodeAt jumpAtEnd.read 0xFFFFFFFFFFFFFFFE =
      some ⟨2, 1, "jmp".toList⟩ := by
    decide +kernel
  have hsweep : jumpAtEnd.xed.sweep jumpAtEnd.read 0xFFFFFFFFFFFFFFFF 0xFFFFFFFFFFFFFFFE =
      ([(0xFFFFFFFFFFFFFFFE, ⟨2, 1, "jmp".toList⟩)], true) := by
    rw [Decoder.sweep_of_some (by decide) hdecode, Decoder.sweep_of_le (by decide)]
  refine ⟨_, scanRange_of_not_refused jumpAtEnd (by decide), ?_⟩
  have hstop : (0xFFFFFFFFFFFFFFFF : UInt64).toNat = 0xFFFFFFFFFFFFFFFF := rfl
  have hstart : (0xFFFFFFFFFFFFFFFE : UInt64).toNat = 0xFFFFFFFFFFFFFFFE := rfl
  rw [Target.sweepResult, hstop, hstart, hsweep]
  decide +kernel

end PinBridge.Disasm
