import PinBridge.Hooks.Convention

/-!
# Capturing typed arguments

A function Hook with a signature stores the arguments of each entry in its
record.  The passive callback gets the integer registers and the stack pointer
and nothing else (`captureMonitorSignatureArguments`).  The context callback
can also read vector registers (`captureSignatureArguments`).  Both find the
stack arguments by index, one word each.

`captureLocation` is where either callback looks for a parameter
(`Entry.captured_eq`).  So its arguments are the
caller's, in every entry, exactly when each location is that of the calling
convention and no argument is wider than a word (`captured_iff`).  `Capturable`
says which functions these are (`captured_iff_capturable`), and `Alike` those
for which the two callbacks agree (`alike_iff`).
-/

namespace PinBridge.Hooks

/-! ## Layouts and records -/

/-- What the Agent keeps of a signature. -/
structure FunctionSignatureLayout where
  /-- The function's entry. -/
  address : Nat
  /-- 1 for the IA-32 `fastcall` convention. -/
  callingConvention : Nat
  /-- The kind of the returned value. -/
  returnKind : Nat
  /-- The number of parameters. -/
  parameterCount : Nat
  /-- Bit `i` is set when parameter `i` is floating. -/
  floatParameterMask : Nat
  deriving DecidableEq, Repr

/-- `CALL_CONV_X86_FASTCALL`. -/
def callConvX86Fastcall : Nat := 1

/-- The kinds of Hook records. -/
inductive HookKind where
  | hookRegs
  | hookReturn
  deriving DecidableEq, Repr

/-- A record of the Hook lane, without its sequence number and time. -/
structure HookLogRecord where
  /-- Entry or return. -/
  kind : HookKind
  /-- The thread. -/
  threadId : Nat
  /-- The instruction. -/
  address : Nat
  /-- How many arguments are meant. -/
  argumentCount : Nat
  /-- `HOOK_LOG_FLAG_SIGNATURE`. -/
  signatureFlag : Bool
  /-- `HOOK_LOG_FLAG_FUNCTION`. -/
  functionFlag : Bool
  /-- Sixteen slots. -/
  arguments : List Nat
  deriving DecidableEq, Repr

/-- The sixteen argument slots that begin with the given values. -/
def argumentSlots (values : List Nat) : List Nat := (values ++ List.replicate 16 0).take 16

/-! ## Reading an entry -/

variable {target : Target}

/-- The offset of a stack argument. -/
def stackArgOffset (target : Target) (index : Nat) : Nat :=
  match target with
  | .win64 => 0x28 + index * 8
  | .ia32 => 4 + index * 4

/-- A stack argument by its index, read without a context. -/
def Entry.monitorStackArgument (e : Entry target) (index : Nat) : Nat :=
  let source := min (e.stackPointer + stackArgOffset target index) (2 ^ 64 - 1)
  (e.safeCopy source target.pointerWidth).getD 0

/-- `pb_pin_get_context_stack_arg`. -/
def Entry.contextStackArg (e : Entry target) (index : Nat) : Option Nat :=
  let offset := stackArgOffset target index
  if 256 ^ target.pointerWidth - 1 - e.stackPointer < offset then none
  else e.safeCopy (e.stackPointer + offset) target.pointerWidth

/-- The low half of a vector register. -/
def Entry.contextXmmLow (e : Entry target) (index : Nat) : Nat := e.xmm index % 256 ^ 8

/-- The index on the stack of the parameter at an index. -/
def stackIndex (target : Target) (signature : FunctionSignatureLayout) (index : Nat) : Nat :=
  if target = .win64 then index - 4
  else if signature.callingConvention = callConvX86Fastcall then index - 2
  else index

/-- The arguments that the passive callback stores. -/
def Entry.captureMonitorSignatureArguments (e : Entry target)
    (signature : FunctionSignatureLayout) : List Nat :=
  (List.range 16).map fun index =>
    if min signature.parameterCount 16 ≤ index then 0
    else if target = .win64 ∧ index < 4 then e.registers index
    else if target = .ia32 ∧ signature.callingConvention = callConvX86Fastcall ∧ index < 2 then
      e.registers index
    else e.monitorStackArgument (stackIndex target signature index)

/-- The arguments that the context callback stores. -/
def Entry.captureSignatureArguments (e : Entry target) (signature : FunctionSignatureLayout) :
    List Nat :=
  (List.range 16).map fun index =>
    let floating := signature.floatParameterMask.testBit index
    if min signature.parameterCount 16 ≤ index then 0
    else if target = .win64 ∧ index < 4 then
      if floating then e.contextXmmLow index else e.registers index
    else if target = .ia32 ∧ signature.callingConvention = callConvX86Fastcall ∧ index < 2 ∧
        ¬ floating then
      e.registers index
    else (e.contextStackArg (stackIndex target signature index)).getD 0

/-! ## Where the callbacks look -/

/-- Where a callback looks for the parameter at an index. -/
def captureLocation (target : Target) (signature : FunctionSignatureLayout) (inContext : Bool)
    (index : Nat) : Location :=
  let floating := inContext && signature.floatParameterMask.testBit index
  match target with
  | .win64 =>
      if index < 4 then if floating then .xmm index else .register index
      else .stack (stackArgOffset .win64 (index - 4))
  | .ia32 =>
      if signature.callingConvention = callConvX86Fastcall ∧ index < 2 ∧ ¬ floating then
        .register index
      else .stack (stackArgOffset .ia32 (stackIndex .ia32 signature index))

/-- A copy ends inside the address space. -/
theorem Entry.lt_of_safeCopy {e : Entry target} {source width word : Nat}
    (h : e.safeCopy source (width + 1) = some word) :
    source + width < 256 ^ target.pointerWidth := by
  induction width generalizing source word with
  | zero =>
      obtain ⟨low, -, hlow, -, -⟩ := Entry.safeCopy_succ.mp h
      by_contra hle
      rw [e.memory_lt (by omega)] at hlow
      exact nomatch hlow
  | succ width ih =>
      obtain ⟨-, high, -, hhigh, -⟩ := Entry.safeCopy_succ.mp h
      have := ih hhigh
      omega

theorem Target.pointerWidth_pos (target : Target) : 0 < target.pointerWidth := by
  cases target <;> decide

/-- No word is read at the end of the address space or beyond. -/
theorem Entry.safeCopy_word_eq_none {e : Entry target} {source : Nat}
    (h : 256 ^ target.pointerWidth < source + target.pointerWidth) :
    e.safeCopy source target.pointerWidth = none := by
  obtain ⟨width, hwidth⟩ := Nat.exists_eq_add_of_lt target.pointerWidth_pos
  rw [Nat.zero_add] at hwidth
  cases hread : e.safeCopy source target.pointerWidth with
  | none => rfl
  | some word =>
      rw [hwidth] at hread
      have := Entry.lt_of_safeCopy hread
      omega

theorem Entry.monitorStackArgument_eq (e : Entry target) (index : Nat) :
    e.monitorStackArgument index = e.word (.stack (stackArgOffset target index)) := by
  have hspace : 256 ^ target.pointerWidth ≤ 2 ^ 64 := by cases target <;> decide
  have hwidth : 2 ≤ target.pointerWidth := by cases target <;> decide
  rw [Entry.monitorStackArgument, Entry.word, Entry.read]
  rcases Nat.lt_or_ge (e.stackPointer + stackArgOffset target index) (2 ^ 64) with hlt | hge
  · rw [Nat.min_eq_left (by omega)]
  · rw [Nat.min_eq_right (by omega), Entry.safeCopy_word_eq_none (by omega),
      Entry.safeCopy_word_eq_none (by omega)]

theorem Entry.contextStackArg_eq (e : Entry target) (index : Nat) :
    (e.contextStackArg index).getD 0 = e.word (.stack (stackArgOffset target index)) := by
  have hpos := target.pointerWidth_pos
  have hsp := e.stackPointer_lt
  rw [Entry.contextStackArg, Entry.word, Entry.read]
  split
  next h => rw [Entry.safeCopy_word_eq_none (by omega)]
  next => rfl

theorem Entry.word_register (e : Entry target) (index : Nat) :
    e.word (.register index) = e.registers index := by
  rw [Entry.word, Entry.read, Option.getD_some, Nat.mod_eq_of_lt (e.registers_lt index)]

/-- The slots filled by a callback that reads a word at each location. -/
def Entry.slots (e : Entry target) (signature : FunctionSignatureLayout) (inContext : Bool) :
    List Nat :=
  (List.range 16).map fun index =>
    if min signature.parameterCount 16 ≤ index then 0
    else e.word (captureLocation target signature inContext index)

/-- The passive callback reads one word where it looks. -/
theorem Entry.captureMonitor_eq (e : Entry target) (signature : FunctionSignatureLayout) :
    e.captureMonitorSignatureArguments signature = e.slots signature false := by
  refine List.map_congr_left fun index _ => ?_
  split
  · rfl
  cases target with
  | win64 =>
      rcases Nat.lt_or_ge index 4 with hreg | hstack
      · simp [captureLocation, hreg, Entry.word_register]
      · simp [captureLocation, Nat.not_lt.mpr hstack, Entry.monitorStackArgument_eq, stackIndex]
  | ia32 =>
      rcases Decidable.em (signature.callingConvention = callConvX86Fastcall ∧ index < 2)
        with hreg | hstack
      · simp [captureLocation, hreg, Entry.word_register]
      · rw [if_neg (by simp), if_neg fun h => hstack h.2, Entry.monitorStackArgument_eq]
        exact congrArg e.word (if_neg fun h => hstack ⟨h.1, h.2.1⟩).symm

/-- The context callback reads one word where it looks. -/
theorem Entry.capture_eq (e : Entry target) (signature : FunctionSignatureLayout) :
    e.captureSignatureArguments signature = e.slots signature true := by
  refine List.map_congr_left fun index _ => ?_
  dsimp only
  split
  · rfl
  cases target with
  | win64 =>
      rcases Nat.lt_or_ge index 4 with hreg | hstack
      · cases hfloat : signature.floatParameterMask.testBit index with
        | true => simp [captureLocation, hreg, hfloat, Entry.contextXmmLow, Entry.word, Entry.read,
            Target.pointerWidth]
        | false => simp [captureLocation, hreg, hfloat, Entry.word_register]
      · simp [captureLocation, Nat.not_lt.mpr hstack, Entry.contextStackArg_eq, stackIndex]
  | ia32 =>
      rcases Decidable.em (signature.callingConvention = callConvX86Fastcall ∧ index < 2 ∧
        signature.floatParameterMask.testBit index = false) with hreg | hstack
      · simp [captureLocation, hreg, Entry.word_register]
      · have hfloat {b : Bool} (h : ¬ b = true) : b = false := eq_false_of_ne_true h
        rw [if_neg (by simp), if_neg fun h => hstack ⟨h.2.1, h.2.2.1, hfloat h.2.2.2⟩,
          Entry.contextStackArg_eq]
        exact congrArg e.word (if_neg fun h => hstack ⟨h.1, h.2.1, hfloat h.2.2⟩).symm

/-! ## Captured arguments -/

/-- The arguments that a callback stores. -/
def Entry.captured (e : Entry target) (signature : FunctionSignatureLayout) (inContext : Bool) :
    List Nat :=
  if inContext then e.captureSignatureArguments signature
  else e.captureMonitorSignatureArguments signature

theorem Entry.captured_eq (e : Entry target) (signature : FunctionSignatureLayout)
    (inContext : Bool) : e.captured signature inContext = e.slots signature inContext := by
  cases inContext with
  | false => exact e.captureMonitor_eq signature
  | true => exact e.capture_eq signature

theorem Entry.getElem?_slots (e : Entry target) {signature : FunctionSignatureLayout}
    {index : Nat} (inContext : Bool) (hindex : index < signature.parameterCount)
    (hmax : index < 16) :
    (e.slots signature inContext)[index]? =
      some (e.word (captureLocation target signature inContext index)) := by
  rw [Entry.slots, List.getElem?_map, List.getElem?_range hmax, Option.map_some,
    if_neg (by omega)]

/-- Argument by argument, the low bytes of the slots are the values. -/
def Carries (slots : List Nat) (ps : List Passing) (values : List Nat) : Prop :=
  ∀ (i : Nat) (p : Passing) (value : Nat), ps[i]? = some p → values[i]? = some value →
    ∃ word, slots[i]? = some word ∧ word % 256 ^ p.width = value

theorem exists_forall₂ {α β : Type*} {R : α → β → Prop} {as : List α}
    (h : ∀ a ∈ as, ∃ b, R a b) : ∃ bs, List.Forall₂ R as bs := by
  induction as with
  | nil => exact ⟨[], .nil⟩
  | cons a as ih =>
      obtain ⟨b, hb⟩ := h a (by simp)
      obtain ⟨bs, hbs⟩ := ih fun a ha => h a (by simp [ha])
      exact ⟨b :: bs, .cons hb hbs⟩

/-- The copies of an argument say the same. -/
theorem Passing.Placed.exists_holds {p : Passing} (hp : p.Placed target) {e : Entry target}
    (hzero : e.stackPointer = 0) (hmapped : ∀ a < 256 ^ target.pointerWidth, (e.memory a).isSome)
    (hcopy : ∀ l ∈ p.copy, ∀ word, e.read p.slot p.location = some word →
      ∃ word', e.read p.slot l = some word' ∧ word' % 256 ^ p.width = word % 256 ^ p.width) :
    ∃ value, e.Holds p value := by
  obtain ⟨word, hword⟩ := hp.read_isSome hzero hmapped (l := p.location) List.mem_cons_self
  refine ⟨word % 256 ^ p.width, fun l hl => ?_⟩
  rcases List.mem_cons.mp hl with rfl | hl
  · exact ⟨word, hword, rfl⟩
  · exact hcopy l (Option.mem_toList.mp hl) word hword

/-- The probe of an argument, or of a byte of the stack, is an entry of the function. -/
theorem HookSignature.Typed.probe_laidOut {sig : HookSignature} {f : CFunction}
    (h : sig.Typed target f) {p : Passing} (hp : p ∈ passings target f) {ls : List Location}
    (hls : ls = p.places ∨ ∃ o, ls = [.stack o]) :
    ∃ values, (Entry.probe target ls).LaidOut f values := by
  refine exists_forall₂ fun q hq => ?_
  refine (h.placed hq).exists_holds rfl (Entry.probe_mapped ls) fun l hl word hword => ?_
  have hsame : q.location ∈ ls ↔ l ∈ ls := by
    obtain ⟨r, hxmm, rfl⟩ := (h.placed hq).copy hl
    rcases hls with rfl | ⟨o, rfl⟩
    · exact passings_apart hp hq hl
    · simp [hxmm]
  obtain ⟨r, hxmm, rfl⟩ := (h.placed hq).copy hl
  rw [hxmm] at hword hsame
  refine ⟨word, ?_, rfl⟩
  simpa only [Entry.read, Entry.probe, hsame] using hword

theorem length_ia32Passings (free : List Nat) (offset : Nat) (types : List CType) :
    (ia32Passings free offset types).length = types.length := by
  induction types generalizing free offset with
  | nil => cases free <;> rfl
  | cons ty rest ih =>
      cases free with
      | nil => rw [ia32Passings, List.length_cons, ih, List.length_cons]
      | cons r free =>
          rw [ia32Passings]
          split <;> rw [List.length_cons, ih, List.length_cons]

theorem length_passings (f : CFunction) : (passings target f).length = f.parameters.length := by
  cases target with
  | win64 => exact List.length_mapIdx
  | ia32 => exact length_ia32Passings _ _ f.parameters

/-- The captured arguments are the caller's in every entry if and only if the
callback looks where the convention passes them and every argument fits a
word. -/
theorem captured_iff {sig : HookSignature} {f : CFunction} (h : sig.Typed target f)
    {signature : FunctionSignatureLayout} (hcount : signature.parameterCount = f.parameters.length)
    (hmax : f.parameters.length ≤ 16) (inContext : Bool) :
    (∀ (e : Entry target) (values : List Nat), e.LaidOut f values →
      Carries (e.captured signature inContext) (passings target f) values) ↔
      ∀ i p, (passings target f)[i]? = some p →
        captureLocation target signature inContext i ∈ p.places ∧
          p.width ≤ target.pointerWidth := by
  have hslot (e : Entry target) {i : Nat} {p : Passing} (hp : (passings target f)[i]? = some p) :
      (e.captured signature inContext)[i]? =
        some (e.word (captureLocation target signature inContext i)) := by
    have hi := (List.getElem?_eq_some_iff.mp hp).1
    rw [length_passings] at hi
    rw [e.captured_eq, e.getElem?_slots inContext (by omega) (by omega)]
  constructor
  · intro hall i p hp
    have hplaced := h.placed (List.mem_of_getElem? hp)
    refine hplaced.location_mem fun ls value hls hvalue => ?_
    obtain ⟨values, hvalues⟩ := h.probe_laidOut (List.mem_of_getElem? hp) hls
    obtain ⟨hlength, hholds⟩ := List.forall₂_iff_get.mp hvalues
    obtain ⟨hi, hpi⟩ := List.getElem?_eq_some_iff.mp hp
    obtain ⟨word, hword, hmod⟩ := hall _ values hvalues i p _ hp
      (List.getElem?_eq_getElem (hlength ▸ hi))
    rw [hslot _ hp, Option.some.injEq] at hword
    obtain ⟨read, hread, rfl⟩ := hvalue p.location List.mem_cons_self
    have hheld := hholds i hi (hlength ▸ hi)
    simp only [List.get_eq_getElem, hpi] at hheld
    obtain ⟨read', hread', heq⟩ := hheld p.location List.mem_cons_self
    rw [hread, Option.some.injEq] at hread'
    rw [hword, hmod, ← heq, hread']
  · intro hloc e values hlaid i p value hp hvalue
    obtain ⟨hlength, hholds⟩ := List.forall₂_iff_get.mp hlaid
    obtain ⟨hi, rfl⟩ := List.getElem?_eq_some_iff.mp hp
    obtain ⟨hi', rfl⟩ := List.getElem?_eq_some_iff.mp hvalue
    obtain ⟨hl, hwidth⟩ := hloc i _ hp
    exact ⟨_, hslot e hp, (h.placed (List.getElem_mem hi)).word_mod hwidth (hholds i hi hi') hl⟩

/-! ## Which signatures are captured -/

/-- The layout that the Agent stores for a signature. -/
def HookSignature.layoutAt (sig : HookSignature) (address : Nat) : FunctionSignatureLayout where
  address
  callingConvention := sig.captureLayout.callingConvention
  returnKind := sig.captureLayout.returnKind
  parameterCount := sig.captureLayout.parameterCount
  floatParameterMask := sig.captureLayout.floatParameterMask

/-- The functions whose arguments a callback captures.  The address of a result
in memory moves every argument that comes after it.  On Win64 the floating
ones of the first four parameters need the context callback and a type that
says so, or a second copy.  On IA-32 no argument may be wider than a word, and
the first two arguments of a `fastcall` signature must be its register
arguments. -/
def HookSignature.Capturable (target : Target) (sig : HookSignature) (f : CFunction)
    (inContext : Bool) : Prop :=
  match target with
  | .win64 => (f.returnsInMemory = true → f.parameters = []) ∧
      (f.isVariadic = true ∨
        ∀ i p ty, i < 4 → sig.parameters[i]? = some p → f.parameters[i]? = some ty →
          ty.isFloating = true → inContext = true ∧ p.floating = true)
  | .ia32 => (∀ ty ∈ f.parameters, ty.size ≤ 4) ∧
      if f.convention = .fastcall then
        (f.isVariadic || f.addressInEcx → f.parameters = []) ∧
          (∀ ty ∈ f.parameters.take 2, ty.isDword = true) ∧
          (f.returnsInMemory = true → f.parameters.length ≤ 2)
      else f.returnsInMemory = true → f.parameters = []

theorem TypeInfo.Describes.isFloating {p : Parameter} {ty : CType}
    (h : p.ty.Describes target ty) (hp : p.floating = true) : ty.isFloating = true := by
  have hkind : p.ty.kind = .float32 ∨ p.ty.kind = .float64 := by
    simpa [Parameter.floating] using hp
  cases h with
  | integer kind => rcases hkind with hkind | hkind <;> simp [hkind, ValueKind.integral] at kind
  | float32 => rfl
  | float64 => rfl
  | aggregate kind => simp [kind] at hkind
  | unknownInteger kind => simp [kind] at hkind
  | unknownFloating => rfl
  | unknownAggregate kind => simp [kind] at hkind

theorem forall_getElem?_cons {α : Type*} {P : Nat → α → Prop} {a : α} {as : List α} :
    (∀ (i : Nat) (b : α), (a :: as)[i]? = some b → P i b) ↔
      P 0 a ∧ ∀ (i : Nat) (b : α), as[i]? = some b → P (i + 1) b := by
  refine ⟨fun h => ⟨h 0 a rfl, fun i b hb => h (i + 1) b hb⟩, fun ⟨h0, h⟩ i b hb => ?_⟩
  cases i with
  | zero =>
      cases hb
      exact h0
  | succ i => exact h i b hb

/-- Stack arguments of one word each stand four bytes apart. -/
theorem ia32Passings_nil_iff {types : List CType} (h : ∀ ty ∈ types, ty.Proper) (offset : Nat) :
    (∀ (i : Nat) (p : Passing), (ia32Passings [] offset types)[i]? = some p →
      Location.stack (offset + i * 4) ∈ p.places ∧ p.width ≤ 4) ↔
      ∀ ty ∈ types, ty.size ≤ 4 := by
  induction types generalizing offset with
  | nil => simp [ia32Passings]
  | cons ty rest ih =>
      have hpos := (h ty (by simp)).pos
      have hhead : (Location.stack (offset + 0 * 4) ∈
          (⟨.stack offset, none, ty.size, roundUp ty.size⟩ : Passing).places ∧ ty.size ≤ 4) ↔
          ty.size ≤ 4 := by simp [Passing.places]
      rw [ia32Passings, forall_getElem?_cons, List.forall_mem_cons, hhead]
      refine and_congr_right fun hsize => ?_
      have hround : roundUp ty.size = 4 := by
        unfold roundUp
        omega
      have hshift (i : Nat) : offset + (i + 1) * 4 = offset + 4 + i * 4 := by omega
      rw [hround, ← ih (fun t ht => h t (by simp [ht])) (offset + 4)]
      simp only [hshift]

/-- Without the address of a result every argument stands where its index says. -/
theorem win64Passings_iff_of_plain {sig : HookSignature} {f : CFunction}
    (h : sig.Typed .win64 f) (hplain : f.returnsInMemory = false) (address : Nat)
    (inContext : Bool) :
    (∀ (i : Nat) (p : Passing), (passings .win64 f)[i]? = some p →
      captureLocation .win64 (sig.layoutAt address) inContext i ∈ p.places ∧ p.width ≤ 8) ↔
      (f.isVariadic = true ∨
        ∀ i p ty, i < 4 → sig.parameters[i]? = some p → f.parameters[i]? = some ty →
          ty.isFloating = true → inContext = true ∧ p.floating = true) := by
  obtain ⟨hlength, hdescribed⟩ := List.forall₂_iff_get.mp h.described
  have hmask (i : Nat) : (sig.layoutAt address).floatParameterMask.testBit i = true ↔
      ∃ p, sig.parameters[i]? = some p ∧ p.floating = true := sig.testBit_mask i
  simp only [passings, hplain, Bool.false_eq_true, if_false, Nat.add_zero]
  constructor
  · intro hall
    cases hvariadic : f.isVariadic with
    | true => exact .inl rfl
    | false =>
        refine .inr fun i p ty hi hp hty hfloat => ?_
        have hloc := (hall i _ (by rw [List.getElem?_mapIdx, hty]; rfl)).1
        simp only [captureLocation, Passing.places, win64Passing, hi, hfloat, hvariadic, if_true,
          Bool.false_eq_true, false_and, if_false, Option.toList_none, List.mem_singleton] at hloc
        split at hloc
        next hcontext =>
          obtain ⟨hcontext, hbit⟩ := Bool.and_eq_true_iff.mp hcontext
          obtain ⟨q, hq, hqfloat⟩ := (hmask i).mp hbit
          rw [hp, Option.some.injEq] at hq
          exact ⟨hcontext, hq ▸ hqfloat⟩
        next => cases hloc
  · intro hcapturable i p hp
    obtain ⟨ty, hty, rfl⟩ := by
      rwa [List.getElem?_mapIdx, Option.map_eq_some_iff] at hp
    obtain ⟨hi, rfl⟩ := List.getElem?_eq_some_iff.mp hty
    refine ⟨?_, win64Width_le (h.proper (List.getElem_mem hi))⟩
    have hp := List.getElem?_eq_getElem (hlength ▸ hi : i < sig.parameters.length)
    have hdescribes := hdescribed i (hlength ▸ hi) hi
    simp only [captureLocation, Passing.places, win64Passing]
    split
    next hreg =>
      cases hfloat : f.parameters[i].isFloating with
      | true =>
          rcases hcapturable with hvariadic | hcapturable
          · simp only [hvariadic, hreg, and_self, if_true, Option.toList_some]
            split
            · exact List.mem_cons_self
            · exact List.mem_cons_of_mem _ List.mem_cons_self
          · obtain ⟨rfl, hfloating⟩ := hcapturable i _ _ hreg hp hty hfloat
            rw [Bool.true_and, (hmask i).mpr ⟨_, hp, hfloating⟩]
            exact List.mem_cons_self
      | false =>
          have hbit : (sig.layoutAt address).floatParameterMask.testBit i = false := by
            refine Bool.eq_false_iff.mpr fun hbit => ?_
            obtain ⟨q, hq, hqfloat⟩ := (hmask i).mp hbit
            rw [hp, Option.some.injEq] at hq
            subst hq
            have hty := hdescribes.isFloating hqfloat
            rw [List.get_eq_getElem, hfloat] at hty
            cases hty
          rw [hbit, Bool.and_false]
          exact List.mem_cons_self
    next hstack =>
      simp only [stackArgOffset, Nat.mul_comm]
      exact List.mem_cons_self

theorem win64Passings_iff {sig : HookSignature} {f : CFunction} (h : sig.Typed .win64 f)
    (address : Nat) (inContext : Bool) :
    (∀ (i : Nat) (p : Passing), (passings .win64 f)[i]? = some p →
      captureLocation .win64 (sig.layoutAt address) inContext i ∈ p.places ∧ p.width ≤ 8) ↔
      sig.Capturable .win64 f inContext := by
  cases hmemory : f.returnsInMemory with
  | false =>
      rw [win64Passings_iff_of_plain h hmemory]
      simp [HookSignature.Capturable, hmemory]
  | true =>
      -- the address of the result is where the first argument is looked for
      cases hparameters : f.parameters with
      | nil => simp [HookSignature.Capturable, passings, hparameters]
      | cons ty rest =>
          refine iff_of_false (fun hall => ?_) fun hcapturable => ?_
          · have hmem := (hall 0 (win64Passing f.isVariadic 1 ty) (by
              simp [passings, hparameters, hmemory])).1
            have hplaces := win64Passing_places hmem
            simp only [captureLocation, Nat.zero_lt_succ, if_true] at hplaces
            split at hplaces <;> simp at hplaces
          · have := hcapturable.1 hmemory
            rw [hparameters] at this
            cases this

theorem HookSignature.testBit_eq_false {sig : HookSignature} {n i : Nat}
    (h : ∀ p ∈ sig.parameters.take n, p.floating = false) (hi : i < n) (address : Nat) :
    (sig.layoutAt address).floatParameterMask.testBit i = false := by
  refine Bool.eq_false_iff.mpr fun hbit => ?_
  obtain ⟨p, hp, hfloating⟩ := (sig.testBit_mask i).mp hbit
  have hmem : p ∈ sig.parameters.take n :=
    List.mem_of_getElem? (by rw [List.getElem?_take_of_lt hi, hp])
  rw [h p hmem] at hfloating
  exact nomatch hfloating

/-- Where the callbacks look for the arguments of a `fastcall` function. -/
theorem captureLocation_fastcall {sig : HookSignature} (hsig : sig.Admissible)
    (hfast : sig.callingConvention = .fastcall) (address : Nat) (inContext : Bool) (i : Nat) :
    captureLocation .ia32 (sig.layoutAt address) inContext i =
      if i < 2 then .register i else .stack (4 + (i - 2) * 4) := by
  have hmask (hi : i < 2) : (sig.layoutAt address).floatParameterMask.testBit i = false :=
    HookSignature.testBit_eq_false (hsig.fastcall hfast) hi address
  have hcode : (sig.layoutAt address).callingConvention = callConvX86Fastcall := by
    simp [HookSignature.layoutAt, HookSignature.captureLayout, hfast, callConvX86Fastcall]
  rcases Nat.lt_or_ge i 2 with hi | hi
  · simp [captureLocation, hcode, hi, hmask hi]
  · simp [captureLocation, hcode, Nat.not_lt.mpr hi, stackIndex, stackArgOffset]

theorem CType.size_le_of_isDword (ty : CType) (h : ty.isDword = true) : ty.size ≤ 4 := by
  cases ty with
  | integer n => simpa [CType.isDword, CType.size] using h
  | floating n => simp [CType.isDword] at h
  | aggregate n => simp [CType.isDword] at h

/-- Without register parameters the callbacks find the arguments that take one
word each and stand behind the return address. -/
theorem ia32Passings_iff_of_ne {sig : HookSignature} {f : CFunction} (h : sig.Typed .ia32 f)
    (hne : f.convention ≠ .fastcall) (address : Nat) (inContext : Bool) :
    (∀ (i : Nat) (p : Passing), (passings .ia32 f)[i]? = some p →
      captureLocation .ia32 (sig.layoutAt address) inContext i ∈ p.places ∧ p.width ≤ 4) ↔
      (∀ ty ∈ f.parameters, ty.size ≤ 4) ∧ (f.returnsInMemory = true → f.parameters = []) := by
  have hlocation (i : Nat) : captureLocation .ia32 (sig.layoutAt address) inContext i =
      .stack (4 + i * 4) := by
    simp [captureLocation, HookSignature.layoutAt, HookSignature.captureLayout, ← h.convention, hne,
      callConvX86Fastcall, stackIndex, stackArgOffset]
  have hregisters : f.takesRegisters = false := by simp [CFunction.takesRegisters, hne]
  have hecx : f.addressInEcx = false := by simp [CFunction.addressInEcx, hregisters]
  simp only [hlocation, passings, hregisters, hecx, Bool.not_false, Bool.and_true,
    Bool.false_eq_true, if_false]
  cases f.returnsInMemory with
  | false =>
      simp only [Bool.false_eq_true, if_false, false_implies, and_true]
      exact ia32Passings_nil_iff (fun _ hty => h.proper hty) 4
  | true =>
      simp only [if_true, true_implies]
      cases f.parameters with
      | nil => simp [ia32Passings]
      | cons ty rest => simp [ia32Passings, forall_getElem?_cons, Passing.places]

/-- With two register parameters they find them there when they are the first
two of the list. -/
theorem ia32Passings_registers_iff {types : List CType} (h : ∀ ty ∈ types, ty.Proper)
    (inMemory : Bool) :
    (∀ (i : Nat) (p : Passing),
      (ia32Passings [0, 1] (if inMemory then 8 else 4) types)[i]? = some p →
      (if i < 2 then Location.register i else .stack (4 + (i - 2) * 4)) ∈ p.places ∧ p.width ≤ 4) ↔
      (∀ ty ∈ types, ty.size ≤ 4) ∧ (∀ ty ∈ types.take 2, ty.isDword = true) ∧
        (inMemory = true → types.length ≤ 2) := by
  match types, h with
  | [], _ => simp [ia32Passings]
  | [first], _ =>
      cases hfirst : first.isDword with
      | false => simp [ia32Passings, hfirst, forall_getElem?_cons, Passing.places]
      | true =>
          have := first.size_le_of_isDword hfirst
          simp [ia32Passings, hfirst, forall_getElem?_cons, this, Passing.places]
  | first :: second :: rest, h =>
      cases hfirst : first.isDword with
      | false => simp [ia32Passings, hfirst, forall_getElem?_cons, Passing.places]
      | true =>
          cases hsecond : second.isDword with
          | false => simp [ia32Passings, hfirst, hsecond, forall_getElem?_cons, Passing.places]
          | true =>
              have h1 := first.size_le_of_isDword hfirst
              have h2 := second.size_le_of_isDword hsecond
              have hstack (i : Nat) : ¬ i + 1 + 1 < 2 := by omega
              simp only [ia32Passings, hfirst, hsecond, if_true, forall_getElem?_cons,
                List.forall_mem_cons, h1, h2, true_and, List.take_succ_cons, List.take_zero]
              cases inMemory with
              | false =>
                  have hrest := ia32Passings_nil_iff
                    (fun ty hty => h ty (by simp [hty]) : ∀ ty ∈ rest, ty.Proper) 4
                  simpa [hstack, Passing.places] using hrest
              | true =>
                  cases rest with
                  | nil => simp [ia32Passings, Passing.places]
                  | cons third rest =>
                      simp [ia32Passings, forall_getElem?_cons, Passing.places]

theorem ia32Passings_iff_of_fastcall {sig : HookSignature} (hsig : sig.Admissible) {f : CFunction}
    (h : sig.Typed .ia32 f) (hfast : f.convention = .fastcall) (address : Nat)
    (inContext : Bool) :
    (∀ (i : Nat) (p : Passing), (passings .ia32 f)[i]? = some p →
      captureLocation .ia32 (sig.layoutAt address) inContext i ∈ p.places ∧ p.width ≤ 4) ↔
      (∀ ty ∈ f.parameters, ty.size ≤ 4) ∧
        (f.isVariadic || f.addressInEcx → f.parameters = []) ∧
        (∀ ty ∈ f.parameters.take 2, ty.isDword = true) ∧
        (f.returnsInMemory = true → f.parameters.length ≤ 2) := by
  have hproper : ∀ ty ∈ f.parameters, ty.Proper := fun ty hty => h.proper hty
  simp only [captureLocation_fastcall hsig (h.convention ▸ hfast), passings]
  cases hvariadic : f.isVariadic with
  | true =>
      have hregisters : f.takesRegisters = false := by simp [CFunction.takesRegisters, hvariadic]
      rw [hregisters, if_neg Bool.false_ne_true]
      cases f.parameters with
      | nil => simp [ia32Passings]
      | cons ty rest => simp [ia32Passings, forall_getElem?_cons, Passing.places]
  | false =>
      have hregisters : f.takesRegisters = true := by
        simp [CFunction.takesRegisters, hfast, hvariadic]
      rw [hregisters, if_pos rfl]
      cases hecx : f.addressInEcx with
      | true =>
          cases f.parameters with
          | nil => simp [ia32Passings]
          | cons ty rest =>
              cases hdword : ty.isDword <;>
                simp [ia32Passings, forall_getElem?_cons, Passing.places, hdword]
      | false =>
          simp only [Bool.not_false, Bool.and_true, Bool.false_eq_true, if_false, Bool.or_self,
            false_implies, true_and]
          exact ia32Passings_registers_iff hproper f.returnsInMemory

theorem ia32Passings_iff {sig : HookSignature} (hsig : sig.Admissible) {f : CFunction}
    (h : sig.Typed .ia32 f) (address : Nat) (inContext : Bool) :
    (∀ (i : Nat) (p : Passing), (passings .ia32 f)[i]? = some p →
      captureLocation .ia32 (sig.layoutAt address) inContext i ∈ p.places ∧ p.width ≤ 4) ↔
      sig.Capturable .ia32 f inContext := by
  rcases Decidable.em (f.convention = .fastcall) with hfast | hne
  · rw [ia32Passings_iff_of_fastcall hsig h hfast, HookSignature.Capturable, if_pos hfast]
  · rw [ia32Passings_iff_of_ne h hne, HookSignature.Capturable, if_neg hne]

theorem HookSignature.Typed.length_eq {sig : HookSignature} {f : CFunction}
    (h : sig.Typed target f) : f.parameters.length = sig.parameters.length :=
  h.described.length_eq.symm

/-- A callback captures the caller's arguments in every entry exactly for the
capturable functions. -/
theorem captured_iff_capturable {sig : HookSignature} (hsig : sig.Admissible) {f : CFunction}
    (h : sig.Typed target f) (address : Nat) (inContext : Bool) :
    (∀ (e : Entry target) (values : List Nat), e.LaidOut f values →
      Carries (e.captured (sig.layoutAt address) inContext) (passings target f) values) ↔
      sig.Capturable target f inContext := by
  have hmax : f.parameters.length ≤ 16 := h.length_eq ▸ hsig.length_le
  have hcount : (sig.layoutAt address).parameterCount = f.parameters.length := h.length_eq.symm
  rw [captured_iff h hcount hmax inContext]
  cases target with
  | win64 => exact win64Passings_iff h address inContext
  | ia32 => exact ia32Passings_iff hsig h address inContext

/-! ## Agreement of the two callbacks -/

/-- The functions for which it does not matter which callback captures: where
the context callback looks in a vector register, there is the copy of a
`double`. -/
def HookSignature.Alike (target : Target) (sig : HookSignature) (f : CFunction) : Prop :=
  match target with
  | .win64 => ∀ i p, i < 4 → sig.parameters[i]? = some p → p.floating = true →
      f.isVariadic = true ∧ ∃ j, (j + if f.returnsInMemory then 1 else 0) = i ∧
        f.parameters[j]? = some (.floating 8)
  | .ia32 => True

/-- The entry that has a one in the highest byte of a vector register's low half. -/
def Entry.highProbe (index : Nat) : Entry .win64 :=
  { Entry.probe .win64 [] with
    xmm r := if r = index then 256 ^ 7 else 0
    xmm_lt r := by split <;> decide }

/-- It is an entry of the function unless the copy of a `double` is there. -/
theorem HookSignature.Typed.highProbe_laidOut {sig : HookSignature} {f : CFunction}
    (h : sig.Typed .win64 f) {index : Nat}
    (hcopy : ¬ (f.isVariadic = true ∧ ∃ j, (j + if f.returnsInMemory then 1 else 0) = index ∧
      f.parameters[j]? = some (.floating 8))) :
    ∃ values, (Entry.highProbe index).LaidOut f values := by
  refine exists_forall₂ fun q hq => ?_
  have hplaced := h.placed hq
  refine hplaced.exists_holds rfl (Entry.probe_mapped []) fun l hl word hword => ?_
  obtain ⟨j, hj, rfl⟩ := List.mem_mapIdx.mp hq
  obtain ⟨hxmm, rfl⟩ := win64Passing_copy hl
  have hproper := h.proper (List.getElem_mem hj)
  obtain ⟨⟨hvariadic, -, hfloating⟩, -⟩ := by
    simpa only [win64Passing, Option.mem_def, Option.ite_none_right_eq_some] using hl
  rw [hxmm] at hword
  refine ⟨0, by simp [Entry.read, Entry.highProbe, Entry.probe], ?_⟩
  simp only [Entry.read, Entry.highProbe, Option.some.injEq] at hword
  subst hword
  by_cases hindex : (j + if f.returnsInMemory then 1 else 0) = index
  · -- a `float` does not reach the highest byte
    rw [if_pos hindex]
    cases hty : f.parameters[j] with
    | integer n => simp [hty, CType.isFloating] at hfloating
    | aggregate n => simp [hty, CType.isFloating] at hfloating
    | floating n =>
        rcases hproper.floating hty with rfl | rfl
        · show 0 % 256 ^ 4 = 256 ^ 7 % 256 ^ 8 % 256 ^ 4
          decide
        · refine absurd ⟨hvariadic, j, hindex, ?_⟩ hcopy
          rw [List.getElem?_eq_getElem hj, hty]
  · rw [if_neg hindex, Nat.zero_mod, Nat.zero_mod, Nat.zero_mod]

/-- The two callbacks store the same arguments in every entry exactly when it
does not matter which of them captures. -/
theorem alike_iff {sig : HookSignature} (hsig : sig.Admissible) {f : CFunction}
    (h : sig.Typed target f) (address : Nat) :
    (∀ (e : Entry target) (values : List Nat), e.LaidOut f values →
      e.captureMonitorSignatureArguments (sig.layoutAt address) =
        e.captureSignatureArguments (sig.layoutAt address)) ↔ sig.Alike target f := by
  have hmask (i : Nat) : (sig.layoutAt address).floatParameterMask.testBit i = true ↔
      ∃ p, sig.parameters[i]? = some p ∧ p.floating = true := sig.testBit_mask i
  simp only [Entry.captureMonitor_eq, Entry.capture_eq]
  constructor
  · intro hall
    cases target with
    | ia32 => trivial
    | win64 =>
        intro i p hreg hi hfloat
        by_contra hcopy
        have hcount : i < (sig.layoutAt address).parameterCount :=
          (List.getElem?_eq_some_iff.mp hi).1
        have hbit := (hmask i).mpr ⟨p, hi, hfloat⟩
        -- the entry that tells the vector register from the integer one
        obtain ⟨values, hvalues⟩ := h.highProbe_laidOut hcopy
        have hslot := congrArg (·[i]?) (hall _ values hvalues)
        simp only [Entry.getElem?_slots _ _ hcount (by omega), captureLocation, hreg, hbit,
          if_true, Option.some.injEq] at hslot
        simp [Entry.word, Entry.read, Entry.highProbe, Entry.probe, Target.pointerWidth] at hslot
  · intro halike e values hlaid
    refine List.map_congr_left fun i _ => ?_
    split
    · rfl
    cases target with
    | win64 =>
        rcases Nat.lt_or_ge i 4 with hi | hi
        · cases hbit : (sig.layoutAt address).floatParameterMask.testBit i with
          | false => simp [captureLocation, hbit]
          | true =>
              obtain ⟨p, hp, hfloat⟩ := (hmask i).mp hbit
              obtain ⟨hvariadic, j, hj, hty⟩ := halike i p hi hp hfloat
              obtain ⟨hlength, hholds⟩ := List.forall₂_iff_get.mp hlaid
              obtain ⟨hjlt, hjty⟩ := List.getElem?_eq_some_iff.mp hty
              have hpassing : j < (passings .win64 f).length := by rwa [length_passings]
              have hheld := hholds j hpassing (hlength ▸ hpassing)
              have hp : (passings .win64 f)[j] = win64Passing true i (.floating 8) := by
                simp [passings, hjty, hvariadic, hj]
              rw [List.get_eq_getElem, hp] at hheld
              have hplaced : (win64Passing true i (.floating 8)).Placed .win64 :=
                hp ▸ h.placed (List.getElem_mem hpassing)
              have hword {l : Location} (hl : l ∈ (win64Passing true i (.floating 8)).places) :=
                hplaced.word_mod (Nat.le_refl 8) hheld hl
              have hxmm := hword (l := .xmm i) (by
                simp [Passing.places, win64Passing, hi, CType.isFloating])
              have hregister := hword (l := .register i) (by
                simp [Passing.places, win64Passing, hi, CType.isFloating])
              have hxmmLt : e.word (.xmm i) < 256 ^ 8 := Nat.mod_lt _ (by decide)
              have hregisterLt : e.word (.register i) < 256 ^ 8 := by
                rw [e.word_register]
                exact e.registers_lt i
              have hwidth : (win64Passing true i (.floating 8)).width = 8 := rfl
              rw [hwidth, Nat.mod_eq_of_lt hxmmLt] at hxmm
              rw [hwidth, Nat.mod_eq_of_lt hregisterLt] at hregister
              simp [captureLocation, hi, hbit, hxmm, hregister]
        · simp [captureLocation, Nat.not_lt.mpr hi]
    | ia32 =>
        congr 1
        rcases Decidable.em (sig.callingConvention = .fastcall) with hfast | hne
        · simp only [captureLocation_fastcall hsig hfast]
        · simp [captureLocation, HookSignature.layoutAt, HookSignature.captureLayout, hne,
            callConvX86Fastcall]

end PinBridge.Hooks
