import PinBridge.Hooks.Prototype
import Mathlib.Algebra.BigOperators.Group.List.Basic
import Mathlib.Data.List.Forall2
import Mathlib.Algebra.Ring.Nat

/-!
# Calling conventions

What a caller does before it jumps to a function, independently of the Agent.
The type of the function gives each argument a `Passing`: a location and a
number of bytes (`passings`).  A Win64 argument has one slot, a register or
eight bytes of stack, whatever its size, and an aggregate that is no machine
word is passed by address.  An IA-32 argument takes as many four-byte words of
stack as its size needs, and `fastcall` passes the first two dword arguments in
`ecx` and `edx` wherever they stand in the list.

Two things that are not in the list move the arguments.  A function that
returns an aggregate in memory gets its address first.  A variadic function is
never a `fastcall` function on IA-32, and gets its floating register arguments
twice on Win64.

An `Entry` is the register file and the memory at the first instruction of the
function.  It is laid out for some values when every argument is found where
the convention passes it (`Entry.LaidOut`).

`Entry.probe` is an entry that is zero but for a few bytes.  It tells two
locations apart, and a word from a wider value (`Placed.location_mem`).
-/

namespace PinBridge.Hooks

/-! ## Targets and types -/

/-- The two targets of the Agent. -/
inductive Target where
  | win64
  | ia32
  deriving DecidableEq, Repr

/-- The width of a pointer. -/
def Target.pointerWidth : Target → Nat
  | .win64 => 8
  | .ia32 => 4

/-- What a calling convention sees of the type of an argument.  Booleans,
enumerations and pointers are integers here. -/
inductive CType where
  | integer (size : Nat)
  | floating (size : Nat)
  | aggregate (size : Nat)
  deriving DecidableEq, Repr

/-- The size of a value of the type. -/
def CType.size : CType → Nat
  | .integer n | .floating n | .aggregate n => n

/-- Whether a value of the type goes to a floating register when there is one
to go to. -/
def CType.isFloating : CType → Bool
  | .floating _ => true
  | _ => false

/-- Whether `fastcall` may pass a value of the type in a register. -/
def CType.isDword : CType → Bool
  | .integer n => n ≤ 4
  | _ => false

/-- The kinds whose values are integers to a calling convention. -/
def ValueKind.integral : ValueKind → Bool
  | .signed | .unsigned | .bool | .pointer | .utf8Pointer | .utf16Pointer => true
  | _ => false

/-- The types that a classified type can stand for.  An unknown spelling can
stand for anything, `void` for nothing. -/
inductive TypeInfo.Describes (target : Target) (ty : TypeInfo) : CType → Prop where
  | integer {n : Nat} (kind : ty.kind.integral = true)
      (size : ty.sizeFor target.pointerWidth = some n) (pos : 0 < n) (le : n ≤ 8) :
      Describes target ty (.integer n)
  | float32 (kind : ty.kind = .float32) : Describes target ty (.floating 4)
  | float64 (kind : ty.kind = .float64) : Describes target ty (.floating 8)
  | aggregate {n : Nat} (kind : ty.kind = .aggregate) (size : ty.size = some n) (pos : 0 < n) :
      Describes target ty (.aggregate n)
  | unknownInteger {n : Nat} (kind : ty.kind = .unknown) (pos : 0 < n) (le : n ≤ 8) :
      Describes target ty (.integer n)
  | unknownFloating {n : Nat} (kind : ty.kind = .unknown) (size : n = 4 ∨ n = 8) :
      Describes target ty (.floating n)
  | unknownAggregate {n : Nat} (kind : ty.kind = .unknown) (pos : 0 < n) :
      Describes target ty (.aggregate n)

/-- The returned types that a classified type can stand for. -/
inductive TypeInfo.Returns (target : Target) (ty : TypeInfo) : Option CType → Prop where
  | void (kind : ty.kind = .void ∨ ty.kind = .unknown) : Returns target ty none
  | value {returned : CType} (describes : ty.Describes target returned) :
      Returns target ty (some returned)

/-- The type of a function. -/
structure CFunction where
  /-- The declared convention. -/
  convention : CallingConvention
  /-- The type of the returned value. -/
  returned : Option CType
  /-- The types of the fixed parameters. -/
  parameters : List CType
  /-- Whether there can be more. -/
  isVariadic : Bool
  /-- Whether the compiler lets `fastcall` pass the address of a result in `ecx`.  Others put it
  on the stack. -/
  resultInEcx : Bool
  deriving DecidableEq, Repr

/-- A size in whole words of the IA-32 stack. -/
def roundUp (n : Nat) : Nat := (n + 3) / 4 * 4

/-- The actual type of the function that a signature declares.  Its arguments take less than half
of the smaller address space. -/
structure HookSignature.Typed (target : Target) (sig : HookSignature) (f : CFunction) : Prop where
  /-- The convention is the declared one. -/
  convention : f.convention = sig.callingConvention
  /-- The ellipsis is declared. -/
  isVariadic : f.isVariadic = sig.isVariadic
  /-- The returned type is one its spelling can stand for. -/
  returned : sig.returnType.Returns target f.returned
  /-- Each parameter's type is one its spelling can stand for. -/
  described : List.Forall₂ (fun (p : Parameter) ty => p.ty.Describes target ty) sig.parameters
    f.parameters
  /-- A caller has room for the arguments. -/
  fits : (f.parameters.map fun ty => roundUp ty.size).sum < 2 ^ 31

/-- A type of C: not empty, and a register's worth unless it is an aggregate. -/
structure CType.Proper (ty : CType) : Prop where
  /-- There are no empty types. -/
  pos : 0 < ty.size
  /-- Numbers have at most eight bytes. -/
  le (h : ∀ n, ty ≠ .aggregate n) : ty.size ≤ 8
  /-- There are two floating types. -/
  floating {n : Nat} (h : ty = .floating n) : n = 4 ∨ n = 8

theorem TypeInfo.Describes.proper {target : Target} {info : TypeInfo} {ty : CType}
    (h : info.Describes target ty) : ty.Proper := by
  cases h with
  | integer _ _ pos le => exact ⟨pos, fun _ => le, nofun⟩
  | float32 => exact ⟨by simp [CType.size], fun _ => by simp [CType.size], by simp⟩
  | float64 => exact ⟨by simp [CType.size], fun _ => by simp [CType.size], by simp⟩
  | aggregate _ _ pos => exact ⟨pos, fun h => absurd rfl (h _), nofun⟩
  | unknownInteger _ pos le => exact ⟨pos, fun _ => le, nofun⟩
  | unknownFloating _ size =>
      refine ⟨?_, fun _ => ?_, fun h => ?_⟩
      · simp only [CType.size]
        omega
      · simp only [CType.size]
        omega
      · cases h
        exact size
  | unknownAggregate _ pos => exact ⟨pos, fun h => absurd rfl (h _), nofun⟩

theorem HookSignature.Typed.proper {target : Target} {sig : HookSignature} {f : CFunction}
    (h : sig.Typed target f) {ty : CType} (hty : ty ∈ f.parameters) : ty.Proper := by
  obtain ⟨hlength, hdescribed⟩ := List.forall₂_iff_get.mp h.described
  obtain ⟨i, hi, rfl⟩ := List.mem_iff_getElem.mp hty
  exact (hdescribed i (hlength ▸ hi) hi).proper

/-! ## Passing an argument -/

/-- A place at function entry: one of the four integer registers the Agent
captures, a vector register, or an offset from the stack pointer. -/
inductive Location where
  | register (index : Nat)
  | xmm (index : Nat)
  | stack (offset : Nat)
  deriving DecidableEq, Repr

/-- Where an argument is.  Of the `slot` bytes it takes there the low `width`
bytes are the value, the others are not specified. -/
structure Passing where
  /-- The place. -/
  location : Location
  /-- The place of a second copy. -/
  copy : Option Location
  /-- The bytes of the value. -/
  width : Nat
  /-- The bytes of the place. -/
  slot : Nat
  deriving DecidableEq, Repr

/-- The bytes of a Win64 argument.  An aggregate that is not the size of an
integer is passed by address. -/
def win64Width : CType → Nat
  | .aggregate n => if n = 1 ∨ n = 2 ∨ n = 4 ∨ n = 8 then n else 8
  | ty => ty.size

/-- The places of an argument. -/
def Passing.places (p : Passing) : List Location := p.location :: p.copy.toList

/-- How Win64 passes the argument at an index. -/
def win64Passing (isVariadic : Bool) (index : Nat) (ty : CType) : Passing where
  location :=
    if index < 4 then if ty.isFloating then .xmm index else .register index
    else .stack (0x28 + 8 * (index - 4))
  copy := if isVariadic ∧ index < 4 ∧ ty.isFloating then some (.register index) else none
  width := win64Width ty
  slot := 8

/-- How IA-32 passes a list of arguments, when the registers `free` are left and
the next stack argument is at `offset`. -/
def ia32Passings : (free : List Nat) → (offset : Nat) → List CType → List Passing
  | _, _, [] => []
  | [], offset, ty :: rest =>
      ⟨.stack offset, none, ty.size, roundUp ty.size⟩ ::
        ia32Passings [] (offset + roundUp ty.size) rest
  | r :: free, offset, ty :: rest =>
      if ty.isDword then ⟨.register r, none, ty.size, 4⟩ :: ia32Passings free offset rest
      else
        ⟨.stack offset, none, ty.size, roundUp ty.size⟩ ::
          ia32Passings (r :: free) (offset + roundUp ty.size) rest

/-- Whether a value of the type is returned in memory. -/
def CType.inMemory : CType → Bool
  | .aggregate n => !(n = 1 ∨ n = 2 ∨ n = 4 ∨ n = 8)
  | _ => false

/-- Whether the caller passes the address of the result. -/
def CFunction.returnsInMemory (f : CFunction) : Bool := f.returned.any CType.inMemory

/-- Whether an IA-32 function gets arguments in registers. -/
def CFunction.takesRegisters (f : CFunction) : Bool := f.convention = .fastcall ∧ !f.isVariadic

/-- Whether the address of the result is in `ecx`. -/
def CFunction.addressInEcx (f : CFunction) : Bool :=
  f.takesRegisters && f.returnsInMemory && f.resultInEcx

/-- How a target passes the arguments of a function. -/
def passings (target : Target) (f : CFunction) : List Passing :=
  match target with
  | .win64 =>
      f.parameters.mapIdx fun i => win64Passing f.isVariadic (i + if f.returnsInMemory then 1 else 0)
  | .ia32 =>
      ia32Passings (if f.takesRegisters then if f.addressInEcx then [1] else [0, 1] else [])
        (if f.returnsInMemory && !f.addressInEcx then 8 else 4) f.parameters

/-! ## Entries -/

/-- The registers and the memory at the first instruction of a function. -/
structure Entry (target : Target) where
  /-- `rcx rdx r8 r9`, or `ecx edx eax ebx`. -/
  registers : Nat → Nat
  /-- The vector registers. -/
  xmm : Nat → Nat
  /-- The stack pointer. -/
  stackPointer : Nat
  /-- The register of a returned value, `rax` or `eax`. -/
  returnValue : Nat
  /-- The mapped bytes. -/
  memory : Nat → Option UInt8
  /-- Registers hold words. -/
  registers_lt (r : Nat) : registers r < 256 ^ target.pointerWidth
  /-- Vector registers hold sixteen bytes. -/
  xmm_lt (r : Nat) : xmm r < 256 ^ 16
  /-- The stack pointer is a word. -/
  stackPointer_lt : stackPointer < 256 ^ target.pointerWidth
  /-- The returned value is a word. -/
  returnValue_lt : returnValue < 256 ^ target.pointerWidth
  /-- Nothing is mapped beyond the address space. -/
  memory_lt {a : Nat} (h : 256 ^ target.pointerWidth ≤ a) : memory a = none

variable {target : Target}

/-- `PIN_SafeCopy` of a number of `width` bytes, lowest first. -/
def Entry.safeCopy (e : Entry target) : (source width : Nat) → Option Nat
  | _, 0 => some 0
  | source, width + 1 => do
      let low ← e.memory source
      let high ← e.safeCopy (source + 1) width
      some (low.toNat + 256 * high)

/-- The `width` low bytes at a location. -/
def Entry.read (e : Entry target) (width : Nat) : Location → Option Nat
  | .register r => some (e.registers r % 256 ^ width)
  | .xmm r => some (e.xmm r % 256 ^ width)
  | .stack offset => e.safeCopy (e.stackPointer + offset) width

/-- The value of an argument that is passed as `p`. -/
def Entry.Holds (e : Entry target) (p : Passing) (value : Nat) : Prop :=
  ∀ l ∈ p.places, ∃ word, e.read p.slot l = some word ∧ word % 256 ^ p.width = value

/-- Every argument is where the convention passes it. -/
def Entry.LaidOut (e : Entry target) (f : CFunction) (values : List Nat) : Prop :=
  List.Forall₂ e.Holds (passings target f) values

theorem Entry.safeCopy_succ {e : Entry target} {source width word : Nat} :
    e.safeCopy source (width + 1) = some word ↔ ∃ low high, e.memory source = some low ∧
      e.safeCopy (source + 1) width = some high ∧ low.toNat + 256 * high = word := by
  simp [Entry.safeCopy, Option.bind_eq_some_iff]

/-- The first bytes of a copy are a copy. -/
theorem Entry.safeCopy_of_le {e : Entry target} {source m n word : Nat} (hmn : m ≤ n)
    (h : e.safeCopy source n = some word) : e.safeCopy source m = some (word % 256 ^ m) := by
  induction m generalizing source n word with
  | zero => simp [Entry.safeCopy, Nat.mod_one]
  | succ m ih =>
      obtain ⟨n, rfl⟩ : ∃ k, n = k + 1 := ⟨n - 1, by omega⟩
      obtain ⟨low, high, hlow, hhigh, rfl⟩ := Entry.safeCopy_succ.mp h
      refine Entry.safeCopy_succ.mpr ⟨low, _, hlow, ih (by omega) hhigh, ?_⟩
      have hb : low.toNat < 256 := low.toNat_lt
      rw [Nat.pow_succ', Nat.mod_mul]
      congr 1
      · omega
      · congr 2
        omega

/-- The low bytes of what is at a location are there. -/
theorem Entry.read_of_le {e : Entry target} {l : Location} {m n word : Nat} (hmn : m ≤ n)
    (h : e.read n l = some word) : e.read m l = some (word % 256 ^ m) := by
  have hdvd : 256 ^ m ∣ 256 ^ n := Nat.pow_dvd_pow 256 hmn
  cases l with
  | register r =>
      simp only [Entry.read, Option.some.injEq] at h ⊢
      rw [← h, Nat.mod_mod_of_dvd _ hdvd]
  | xmm r =>
      simp only [Entry.read, Option.some.injEq] at h ⊢
      rw [← h, Nat.mod_mod_of_dvd _ hdvd]
  | stack offset => exact Entry.safeCopy_of_le hmn h

/-- Mapped bytes can be copied. -/
theorem Entry.safeCopy_isSome {e : Entry target} {source width : Nat}
    (h : ∀ a, source ≤ a → a < source + width → (e.memory a).isSome) :
    (e.safeCopy source width).isSome := by
  induction width generalizing source with
  | zero => rfl
  | succ width ih =>
      obtain ⟨low, hlow⟩ := Option.isSome_iff_exists.mp (h source (by omega) (by omega))
      have hrest : (e.safeCopy (source + 1) width).isSome :=
        ih fun a ha hlt => h a (by omega) (by omega)
      obtain ⟨high, hhigh⟩ := Option.isSome_iff_exists.mp hrest
      rw [Entry.safeCopy_succ.mpr ⟨low, high, hlow, hhigh, rfl⟩]
      rfl

/-! ## Probes -/

/-- The byte of the probe of some locations at an address. -/
def probeByte (ls : List Location) (a : Nat) : UInt8 := if .stack a ∈ ls then 1 else 0

/-- The entry that has a one at each of the locations and zeros elsewhere, its
stack pointer included. -/
def Entry.probe (target : Target) (ls : List Location) : Entry target where
  registers r := if .register r ∈ ls then 1 else 0
  xmm r := if .xmm r ∈ ls then 1 else 0
  stackPointer := 0
  returnValue := 0
  memory a := if a < 256 ^ target.pointerWidth then some (probeByte ls a) else none
  registers_lt r := by
    have : 1 < 256 ^ target.pointerWidth := by cases target <;> decide
    split <;> omega
  xmm_lt r := by split <;> decide
  stackPointer_lt := by cases target <;> decide
  returnValue_lt := by cases target <;> decide
  memory_lt h := if_neg (Nat.not_lt.mpr h)

theorem Entry.safeCopy_probe_stack {o source width : Nat}
    (h : source + width ≤ 256 ^ target.pointerWidth) :
    (Entry.probe target [.stack o]).safeCopy source width =
      some (if source ≤ o ∧ o < source + width then 256 ^ (o - source) else 0) := by
  induction width generalizing source with
  | zero =>
      rw [if_neg (by omega)]
      rfl
  | succ width ih =>
      refine Entry.safeCopy_succ.mpr ⟨probeByte [.stack o] source, _, if_pos (by omega),
        ih (by omega), ?_⟩
      by_cases hat : o = source
      · subst hat
        rw [if_neg (by omega), if_pos (by omega)]
        simp [probeByte]
      · have hbyte : probeByte [.stack o] source = 0 := by simp [probeByte, Ne.symm hat]
        rw [hbyte]
        by_cases hin : source + 1 ≤ o ∧ o < source + 1 + width
        · rw [if_pos hin, if_pos (by omega), show o - source = (o - (source + 1)) + 1 by omega,
            Nat.pow_succ']
          simp
        · rw [if_neg hin, if_neg (by omega)]
          rfl

/-- Away from its locations a probe has only numbers with a zero low byte. -/
theorem Entry.dvd_of_read_probe {ls : List Location} {l : Location} {width word : Nat}
    (hl : l ∉ ls) (h : (Entry.probe target ls).read width l = some word) : 256 ∣ word := by
  cases l with
  | register r =>
      have hzero : (Entry.probe target ls).registers r = 0 := if_neg hl
      simp only [Entry.read, hzero, Nat.zero_mod, Option.some.injEq] at h
      exact h ▸ Nat.dvd_zero 256
  | xmm r =>
      have hzero : (Entry.probe target ls).xmm r = 0 := if_neg hl
      simp only [Entry.read, hzero, Nat.zero_mod, Option.some.injEq] at h
      exact h ▸ Nat.dvd_zero 256
  | stack o =>
      simp only [Entry.read, show (Entry.probe target ls).stackPointer = 0 from rfl,
        Nat.zero_add] at h
      cases width with
      | zero =>
          simp only [Entry.safeCopy, Option.some.injEq] at h
          exact h ▸ Nat.dvd_zero 256
      | succ width =>
          obtain ⟨low, high, hlow, -, rfl⟩ := Entry.safeCopy_succ.mp h
          simp only [Entry.probe, probeByte, if_neg hl, Option.ite_none_right_eq_some,
            Option.some.injEq] at hlow
          rw [← hlow.2]
          simp

/-! ## Well-placed passings -/

/-- What every passing of a convention satisfies: its value is a part of its
slot, the slot has room for a word, and only the stack holds wider values. -/
structure Passing.Placed (target : Target) (p : Passing) : Prop where
  /-- The value is not empty. -/
  width_pos : 0 < p.width
  /-- The value is a part of the slot. -/
  width_le : p.width ≤ p.slot
  /-- The slot holds a word. -/
  word_le : target.pointerWidth ≤ p.slot
  /-- A register holds one word. -/
  register_le : (∀ o, p.location ≠ .stack o) → p.width ≤ target.pointerWidth
  /-- The stack slot is in the address space. -/
  inSpace {o : Nat} (h : p.location = .stack o) : o + p.slot ≤ 256 ^ target.pointerWidth
  /-- A second copy of a vector register is in a register. -/
  copy {l : Location} (h : l ∈ p.copy) : ∃ r, p.location = .xmm r ∧ l = .register r

theorem Passing.Placed.places_eq {p : Passing} (hp : p.Placed target) {o : Nat}
    (h : p.location = .stack o) : p.places = [.stack o] := by
  cases hcopy : p.copy with
  | none => rw [Passing.places, hcopy, h, Option.toList_none]
  | some l =>
      obtain ⟨r, hxmm, -⟩ := hp.copy hcopy
      rw [h] at hxmm
      cases hxmm

/-- A stack place is the location. -/
theorem Passing.Placed.stack_mem {p : Passing} (hp : p.Placed target) {o : Nat}
    (h : .stack o ∈ p.places) : p.location = .stack o := by
  rcases List.mem_cons.mp h with h | h
  · exact h.symm
  · obtain ⟨r, -, hr⟩ := hp.copy (Option.mem_toList.mp h)
    cases hr

/-- An entry with all its memory has something at every well-placed slot. -/
theorem Passing.Placed.read_isSome {p : Passing} (hp : p.Placed target) {e : Entry target}
    (hzero : e.stackPointer = 0) (hmapped : ∀ a < 256 ^ target.pointerWidth, (e.memory a).isSome)
    {l : Location} (hl : l ∈ p.places) : ∃ word, e.read p.slot l = some word := by
  cases l with
  | register r => exact ⟨_, rfl⟩
  | xmm r => exact ⟨_, rfl⟩
  | stack o =>
      have hspace := hp.inSpace (hp.stack_mem hl)
      refine Option.isSome_iff_exists.mp ?_
      rw [Entry.read, hzero, Nat.zero_add]
      exact Entry.safeCopy_isSome fun a _ ha => hmapped a (by omega)

theorem Entry.probe_mapped (ls : List Location) :
    ∀ a < 256 ^ target.pointerWidth, ((Entry.probe target ls).memory a).isSome := by
  intro a ha
  simp only [Entry.probe, if_pos ha, Option.isSome_some]

/-- The probe of the places of a passing has a one there. -/
theorem Entry.read_probe_self {p : Passing} (hp : p.Placed target) {l : Location}
    (hl : l ∈ p.places) : (Entry.probe target p.places).read p.slot l = some 1 := by
  have hone : 1 % 256 ^ p.slot = 1 :=
    Nat.mod_eq_of_lt (Nat.one_lt_pow (by have := hp.width_pos; have := hp.width_le; omega) (by omega))
  cases l with
  | register r => simp [Entry.read, Entry.probe, hone, hl]
  | xmm r => simp [Entry.read, Entry.probe, hone, hl]
  | stack o =>
      have hpos := hp.width_pos
      have hle := hp.width_le
      have hloc := hp.stack_mem hl
      simp only [Entry.read, hp.places_eq hloc,
        show (Entry.probe target [.stack o]).stackPointer = 0 from rfl, Nat.zero_add]
      rw [Entry.safeCopy_probe_stack (hp.inSpace hloc), if_pos (by omega)]
      simp

/-- The word the Agent reads at a location, zero when it cannot. -/
def Entry.word (e : Entry target) (l : Location) : Nat := (e.read target.pointerWidth l).getD 0

/-- A word read at one of its places is an argument that is no wider. -/
theorem Passing.Placed.word_mod {p : Passing} (hp : p.Placed target)
    (hwidth : p.width ≤ target.pointerWidth) {e : Entry target} {value : Nat}
    (h : e.Holds p value) {l : Location} (hl : l ∈ p.places) :
    e.word l % 256 ^ p.width = value := by
  obtain ⟨word, hread, rfl⟩ := h l hl
  rw [Entry.word, Entry.read_of_le hp.word_le hread, Option.getD_some,
    Nat.mod_mod_of_dvd _ (Nat.pow_dvd_pow 256 hwidth)]

theorem Entry.dvd_word_probe {ls : List Location} {l : Location} (hl : l ∉ ls) :
    256 ∣ (Entry.probe target ls).word l := by
  rw [Entry.word]
  cases hread : (Entry.probe target ls).read target.pointerWidth l with
  | none => exact Nat.dvd_zero 256
  | some word => exact Entry.dvd_of_read_probe hl hread

/-- Where the word at `l` is the argument passed as `p` in the probes of the
argument and of the stack, `l` is a place of the argument and a word is wide
enough. -/
theorem Passing.Placed.location_mem {p : Passing} (hp : p.Placed target) {l : Location}
    (h : ∀ ls value, ls = p.places ∨ (∃ o, ls = [.stack o]) → (Entry.probe target ls).Holds p value →
      (Entry.probe target ls).word l % 256 ^ p.width = value) :
    l ∈ p.places ∧ p.width ≤ target.pointerWidth := by
  have hpos := hp.width_pos
  have hone : 1 < 256 ^ p.width := Nat.one_lt_pow (by omega) (by omega)
  have hmem : l ∈ p.places := by
    by_contra hne
    have hself := h p.places 1 (.inl rfl) fun l' hl' =>
      ⟨1, Entry.read_probe_self hp hl', Nat.mod_eq_of_lt hone⟩
    have hword : 256 ∣ (Entry.probe target p.places).word l := Entry.dvd_word_probe hne
    have hpow : 256 ∣ 256 ^ p.width := dvd_pow_self 256 (by omega)
    have : 256 ∣ 1 := hself ▸ (Nat.dvd_mod_iff hpow).mpr hword
    omega
  refine ⟨hmem, Nat.not_lt.mp fun hwide => ?_⟩
  cases hstack : p.location with
  | register r => exact absurd (hp.register_le (by simp [hstack])) (by omega)
  | xmm r => exact absurd (hp.register_le (by simp [hstack])) (by omega)
  | stack o =>
      -- a one in the first byte that a word at the slot does not reach
      have hspace := hp.inSpace hstack
      have hslot := hp.width_le
      have hplaces := hp.places_eq hstack
      obtain rfl : l = .stack o := by simpa [hplaces] using hmem
      have hread : (Entry.probe target [.stack (o + target.pointerWidth)]).read p.slot (.stack o) =
          some (256 ^ target.pointerWidth) := by
        rw [Entry.read, show ∀ ls, (Entry.probe target ls).stackPointer = 0 from
          fun _ => rfl, Nat.zero_add, Entry.safeCopy_probe_stack hspace, if_pos (by omega)]
        simp
      have hword : (Entry.probe target [.stack (o + target.pointerWidth)]).word (.stack o) = 0 := by
        rw [Entry.word, Entry.read, show ∀ ls, (Entry.probe target ls).stackPointer = 0
          from fun _ => rfl, Nat.zero_add, Entry.safeCopy_probe_stack (by omega), if_neg (by omega)]
        rfl
      have hlt : 256 ^ target.pointerWidth < 256 ^ p.width := Nat.pow_lt_pow_right (by omega) hwide
      have hzero := h _ (256 ^ target.pointerWidth) (.inr ⟨_, rfl⟩) fun l' hl' => by
        rw [hplaces, List.mem_singleton] at hl'
        exact ⟨_, hl' ▸ hread, Nat.mod_eq_of_lt hlt⟩
      rw [hword, Nat.zero_mod] at hzero
      exact absurd hzero.symm (Nat.pow_pos (by omega)).ne'

/-! ## The conventions place their arguments well -/

theorem win64Width_pos {ty : CType} (h : ty.Proper) : 0 < win64Width ty := by
  have hpos := h.pos
  cases ty with
  | aggregate n => simp only [win64Width]; split <;> omega
  | integer n => exact hpos
  | floating n => exact hpos

theorem win64Width_le {ty : CType} (h : ty.Proper) : win64Width ty ≤ 8 := by
  cases ty with
  | aggregate n => simp only [win64Width]; split <;> omega
  | integer n => exact h.le nofun
  | floating n => exact h.le nofun

theorem win64Passing_copy {isVariadic : Bool} {index : Nat} {ty : CType} {l : Location}
    (h : l ∈ (win64Passing isVariadic index ty).copy) :
    (win64Passing isVariadic index ty).location = .xmm index ∧ l = .register index := by
  simp only [win64Passing, Option.mem_def, Option.ite_none_right_eq_some, Option.some.injEq] at h ⊢
  obtain ⟨⟨-, hindex, hfloating⟩, rfl⟩ := h
  rw [if_pos hindex, if_pos hfloating]
  exact ⟨rfl, rfl⟩

theorem win64Passing_places {isVariadic : Bool} {index : Nat} {ty : CType} {l : Location}
    (h : l ∈ (win64Passing isVariadic index ty).places) :
    l = .xmm index ∨ l = .register index ∨ ∃ o, l = .stack o := by
  rcases List.mem_cons.mp h with rfl | h
  · simp only [win64Passing]
    split
    · split
      · exact .inl rfl
      · exact .inr (.inl rfl)
    · exact .inr (.inr ⟨_, rfl⟩)
  · exact .inr (.inl (win64Passing_copy (Option.mem_toList.mp h)).2)

theorem win64Passing_placed {isVariadic : Bool} {index : Nat} {ty : CType} (h : ty.Proper)
    (hindex : index < 2 ^ 32) : (win64Passing isVariadic index ty).Placed .win64 where
  width_pos := win64Width_pos h
  width_le := win64Width_le h
  word_le := Nat.le_refl 8
  register_le _ := win64Width_le h
  inSpace {o} ho := by
    have ho : o ≤ 0x28 + 8 * (index - 4) := by
      simp only [win64Passing] at ho
      split at ho
      · split at ho <;> simp at ho
      · exact (Location.stack.inj ho).symm.le
    have hspace : 256 ^ Target.win64.pointerWidth = 2 ^ 64 := by decide
    rw [hspace]
    show o + 8 ≤ _
    omega
  copy hl := ⟨index, win64Passing_copy hl⟩

theorem le_roundUp (n : Nat) : n ≤ roundUp n := by
  unfold roundUp
  omega

theorem four_le_roundUp {n : Nat} (h : 0 < n) : 4 ≤ roundUp n := by
  unfold roundUp
  omega

/-- A stack argument of IA-32. -/
theorem stackPassing_placed {offset : Nat} {ty : CType} (h : ty.Proper)
    (hspace : offset + roundUp ty.size ≤ 2 ^ 32) :
    Passing.Placed .ia32 ⟨.stack offset, none, ty.size, roundUp ty.size⟩ where
  width_pos := h.pos
  width_le := le_roundUp _
  word_le := four_le_roundUp h.pos
  register_le ho := absurd rfl (ho offset)
  inSpace ho := by
    cases ho
    exact hspace
  copy := nofun

theorem ia32Passings_placed {free : List Nat} {offset : Nat} {types : List CType}
    (h : ∀ ty ∈ types, ty.Proper)
    (hspace : offset + (types.map fun ty => roundUp ty.size).sum ≤ 2 ^ 32) :
    ∀ p ∈ ia32Passings free offset types, p.Placed .ia32 := by
  induction types generalizing free offset with
  | nil =>
      intro p hp
      cases free <;> simp [ia32Passings] at hp
  | cons ty rest ih =>
      rw [List.map_cons, List.sum_cons] at hspace
      have hty := h ty (by simp)
      have hrest : ∀ ty ∈ rest, ty.Proper := fun t ht => h t (by simp [ht])
      have hstack : Passing.Placed .ia32 ⟨.stack offset, none, ty.size, roundUp ty.size⟩ :=
        stackPassing_placed hty (by omega)
      cases free with
      | nil =>
          intro p hp
          rcases List.mem_cons.mp hp with rfl | hp
          · exact hstack
          · exact ih hrest (by omega) p hp
      | cons r free =>
          intro p hp
          rw [ia32Passings] at hp
          split at hp
          next hdword =>
            rcases List.mem_cons.mp hp with rfl | hp
            · have hle : ty.size ≤ 4 := by
                cases ty with
                | integer n => simpa [CType.isDword, CType.size] using hdword
                | floating n => simp [CType.isDword] at hdword
                | aggregate n => simp [CType.isDword] at hdword
              exact ⟨hty.pos, hle, Nat.le_refl 4, fun _ => hle, nofun, nofun⟩
            · exact ih hrest (by omega) p hp
          next =>
            rcases List.mem_cons.mp hp with rfl | hp
            · exact hstack
            · exact ih hrest (by omega) p hp

/-- Every argument of a typed signature is well placed. -/
theorem HookSignature.Typed.placed {sig : HookSignature} {f : CFunction} (h : sig.Typed target f)
    {p : Passing} (hp : p ∈ passings target f) : p.Placed target := by
  have hfits := h.fits
  cases target with
  | ia32 =>
      refine ia32Passings_placed (fun ty hty => h.proper hty) ?_ p hp
      split <;> omega
  | win64 =>
      obtain ⟨i, hi, rfl⟩ := List.mem_mapIdx.mp hp
      have hlength := List.length_le_sum_of_one_le (f.parameters.map fun ty => roundUp ty.size) (by
        intro n hn
        obtain ⟨ty, hty, rfl⟩ := List.mem_map.mp hn
        have := four_le_roundUp (h.proper hty).pos
        omega)
      rw [List.length_map] at hlength
      exact win64Passing_placed (h.proper (List.getElem_mem hi)) (by split <;> omega)

theorem ia32Passings_copy {free : List Nat} {offset : Nat} {types : List CType} :
    ∀ p ∈ ia32Passings free offset types, p.copy = none := by
  induction types generalizing free offset with
  | nil =>
      intro p hp
      cases free <;> simp [ia32Passings] at hp
  | cons ty rest ih =>
      intro p hp
      cases free with
      | nil =>
          rcases List.mem_cons.mp hp with rfl | hp
          · rfl
          · exact ih p hp
      | cons r free =>
          rw [ia32Passings] at hp
          split at hp <;> rcases List.mem_cons.mp hp with rfl | hp
          · rfl
          · exact ih p hp
          · rfl
          · exact ih p hp

/-- Two arguments share no place. -/
theorem passings_apart {f : CFunction} {p q : Passing} (hp : p ∈ passings target f)
    (hq : q ∈ passings target f) {l : Location} (hl : l ∈ q.copy) :
    q.location ∈ p.places ↔ l ∈ p.places := by
  cases target with
  | ia32 =>
      rw [ia32Passings_copy q hq] at hl
      cases hl
  | win64 =>
      obtain ⟨i, hi, rfl⟩ := List.mem_mapIdx.mp hp
      obtain ⟨j, hj, rfl⟩ := List.mem_mapIdx.mp hq
      by_cases hij : i = j
      · subst hij
        refine iff_of_true List.mem_cons_self (List.mem_cons_of_mem _ ?_)
        exact Option.mem_toList.mpr hl
      · obtain ⟨hlocation, rfl⟩ := win64Passing_copy hl
        rw [hlocation]
        refine iff_of_false (fun hmem => ?_) fun hmem => ?_
        · rcases win64Passing_places hmem with heq | heq | ⟨o, heq⟩
          · exact hij (by simpa using heq.symm)
          · cases heq
          · cases heq
        · rcases win64Passing_places hmem with heq | heq | ⟨o, heq⟩
          · cases heq
          · exact hij (by simpa using heq.symm)
          · cases heq

end PinBridge.Hooks
