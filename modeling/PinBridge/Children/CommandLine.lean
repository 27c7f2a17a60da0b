import PinBridge.Children.Step
import PinBridge.HookQuery.Event
import PinBridge.Lib.PackedStrings

/-!
# The command line of a child session

A session of the agent removes its own two options from the arguments it is started with
(`sanitizeToolArguments`) and keeps the others up to the separator as the base of the command
lines of its children.  For a child it puts both options back before the separator, in a buffer of
fixed size that Pin reads (`PinCommandSlot`).  Pin appends the arguments of the application.

`Children.prepareChildPinCommand` speaks of lists of arguments.  The buffer refines it
(`prepareChildPinCommand_holds`), and the arguments are read back from it (`Holds.arguments_eq`).
A session that is started with them has the same base (`sanitize_child`), so all sessions of a
chain of children have (`child_inherits`).
-/

namespace PinBridge.Children

open PackedStrings (CString stringAt pack offsets overwrite)

/-! ## Reading the arguments -/

/-- `str::parse::<u16>`. -/
def parseU16 (text : List Char) : Option Nat :=
  (HookQuery.fromStrRadix 10 text).filter (· < 65536)

/-- `parse_port`. -/
def parsePort (value : Bytes) : Except String UInt16 :=
  match String.fromUTF8? value.toByteArray with
  | none => .error "agent port is not ASCII"
  | some text =>
      match parseU16 text.toList with
      | none => .error "agent port must be 1..65535"
      | some port =>
          if port = 0 then .error "agent port must be 1..65535" else .ok (UInt16.ofNat port)

/-- The result of `sanitize_tool_arguments`. -/
structure Sanitized where
  arguments : List Bytes
  controlPort : Option UInt16
  parentPort : Option UInt16
  deriving DecidableEq

/-- The arguments with one more. -/
def Sanitized.push (s : Sanitized) (argument : Bytes) : Sanitized :=
  { s with arguments := s.arguments ++ [argument] }

/-- The loop of `sanitize_tool_arguments`. -/
def sanitizeLoop (beforeApplication : Bool) : List Bytes → Sanitized → Except String Sanitized
  | [], s => .ok s
  | argument :: rest, s =>
      if beforeApplication = true ∧ argument = separator then
        sanitizeLoop false rest (s.push argument)
      else if beforeApplication = true ∧ argument = agentPortFlag then
        match rest with
        | [] => .error "agent port option needs a value"
        | value :: rest =>
            match parsePort value with
            | .error e => .error e
            | .ok port => sanitizeLoop beforeApplication rest { s with controlPort := some port }
      else if beforeApplication = true ∧ argument = parentPortFlag then
        match rest with
        | [] => .error "agent port option needs a value"
        | value :: rest =>
            match parsePort value with
            | .error e => .error e
            | .ok port => sanitizeLoop beforeApplication rest { s with parentPort := some port }
      else sanitizeLoop beforeApplication rest (s.push argument)

/-- `sanitize_tool_arguments`. -/
def sanitizeToolArguments (raw : List Bytes) : Except String Sanitized :=
  sanitizeLoop true raw ⟨[], none, none⟩

/-! ## The buffer -/

/-- `PinCommandSlot`. -/
structure PinCommandSlot where
  argc : Nat
  offsets : Vector UInt16 128
  bytes : Vector UInt8 (32 * 1024)

/-- `PinCommandSlot::new`. -/
def PinCommandSlot.new : PinCommandSlot := ⟨0, .replicate 128 0, .replicate (32 * 1024) 0⟩

/-- `push_pin_argument`, with the bytes that are used. -/
def PinCommandSlot.push (slot : PinCommandSlot) (used : Nat) (argument : Bytes) :
    Option (PinCommandSlot × Nat) :=
  if 128 ≤ slot.argc ∨ 65535 < argument.length + 1 ∨ 32 * 1024 < used + argument.length + 1 then
    none
  else
    some
      ({ argc := slot.argc + 1
         offsets := slot.offsets.setIfInBounds slot.argc (UInt16.ofNat used)
         bytes := overwrite slot.bytes used (argument ++ [0]) },
        used + argument.length + 1)

/-- Pushes until one does not fit. -/
def PinCommandSlot.pushAll (slot : PinCommandSlot) (used : Nat) :
    List Bytes → PinCommandSlot × Bool
  | [] => (slot, true)
  | argument :: rest =>
      match slot.push used argument with
      | some (slot, used) => slot.pushAll used rest
      | none => (slot, false)

/-- The loop of `prepare_child_pin_command`. -/
def PinCommandSlot.prepare (options : List Bytes) (slot : PinCommandSlot) (used : Nat) :
    List Bytes → PinCommandSlot × Bool
  | [] => (slot, false)
  | argument :: rest =>
      if argument = separator then slot.pushAll used options
      else
        match slot.push used argument with
        | some (slot, used) => slot.prepare options used rest
        | none => (slot, false)

/-- The arguments that `apply_child_pin_command` gives to Pin. -/
def PinCommandSlot.arguments (slot : PinCommandSlot) : List CString :=
  (slot.offsets.toList.take slot.argc).map fun offset => stringAt slot.bytes.toList offset.toNat

/-! ## Sessions -/

/-- What a session of the agent keeps. -/
structure Session where
  /-- `BASE_PIN_ARGUMENTS`. -/
  base : Option (List Bytes)
  /-- `CONTROL_PORT_OVERRIDE`. -/
  controlPortOverride : UInt32
  /-- `PARENT_CONTROL_PORT`. -/
  parentControlPort : UInt32
  /-- `CHILD_PIN_COMMAND`. -/
  command : PinCommandSlot

/-- A session before its arguments are read. -/
def Session.new : Session := ⟨none, 0, 0, .new⟩

/-- The bytes of C strings. -/
abbrev texts (command : List CString) : List Bytes := command.map (·.1)

/-- The arguments of a tool, which may be null. -/
def rawArguments (argc : Int) (argv : Nat → Option CString) : Option (List CString) :=
  (List.range argc.toNat).mapM argv

/-- `prepare_tool_arguments`: the arguments for Pin and the session after it. -/
def Session.prepareToolArguments (s : Session) (argc : Int) (argv : Option (Nat → Option CString)) :
    Except String (List Bytes × Session) :=
  match argv with
  | none => .error "Pin tool argv is empty"
  | some argv =>
      if argc ≤ 0 then .error "Pin tool argv is empty"
      else
        match rawArguments argc argv with
        | none => .error "Pin tool argv contains null"
        | some raw =>
            match sanitizeToolArguments (texts raw) with
            | .error e => .error e
            | .ok sanitized =>
                match sanitized.arguments.findIdx? (· = separator) with
                | none => .error "Pin tool argv has no -- separator"
                | some index =>
                    .ok (sanitized.arguments,
                      { s with
                        base := s.base <|> some (sanitized.arguments.take (index + 1))
                        controlPortOverride := (sanitized.controlPort.getD 0).toUInt32
                        parentControlPort := (sanitized.parentPort.getD 0).toUInt32 })

/-- `control_port_override` and `parent_control_port`. -/
def storedPort (value : UInt32) : Option UInt16 :=
  if value.toUInt16 ≠ 0 then some value.toUInt16 else none

/-- The text of a port. -/
def portText (port : UInt16) : Bytes := (toString port).toUTF8.toList

/-- The options of a child, and the separator. -/
def childOptions (controlPort parentPort : UInt16) : List Bytes :=
  [agentPortFlag, portText controlPort, parentPortFlag, portText parentPort, separator]

/-- `prepare_child_pin_command`. -/
def Session.prepareChildPinCommand (s : Session) (controlPort parentPort : UInt16) :
    Bool × Session :=
  match s.base with
  | none => (false, s)
  | some base =>
      let (command, inserted) :=
        { s.command with argc := 0 }.prepare (childOptions controlPort parentPort) 0 base
      (inserted, { s with command })

/-! ## The buffer refines the list -/

/-- The slot has the arguments of a command. -/
structure Holds (slot : PinCommandSlot) (used : Nat) (command : List CString) : Prop where
  argc_eq : slot.argc = command.length
  used_eq : used = (pack command).length
  offsets_eq : slot.offsets.toList.take slot.argc = (offsets 0 command).map UInt16.ofNat
  bytes_eq : slot.bytes.toList.take used = pack command
  used_le : used ≤ 32 * 1024

theorem commandBytes_texts (command : List CString) :
    commandBytes (texts command) = (pack command).length := by
  induction command with
  | nil => rfl
  | cons argument command ih =>
      rw [commandBytes] at ih
      rw [commandBytes, texts, List.map_cons, List.map_cons, List.sum_cons, ih, pack,
        List.length_append, List.length_cons]
      omega

variable {slot : PinCommandSlot} {used : Nat} {command : List CString}

theorem holds_empty (slot : PinCommandSlot) : Holds { slot with argc := 0 } 0 [] where
  argc_eq := rfl
  used_eq := rfl
  offsets_eq := rfl
  bytes_eq := rfl
  used_le := Nat.zero_le _

/-- The arguments are read back from the slot. -/
theorem Holds.arguments_eq (h : Holds slot used command) : slot.arguments = command := by
  have hoffset : ∀ offset ∈ offsets 0 command, (UInt16.ofNat offset).toNat = offset := by
    intro offset hoffset
    have hlt := PackedStrings.offsets_lt hoffset
    have hused := h.used_eq
    have hle := h.used_le
    rw [UInt16.toNat_ofNat']
    exact Nat.mod_eq_of_lt (by omega)
  have hread : (offsets 0 command).map
      ((fun offset : UInt16 => stringAt slot.bytes.toList offset.toNat) ∘ UInt16.ofNat) =
      (offsets 0 command).map (stringAt (pack command ++ slot.bytes.toList.drop used)) := by
    refine List.map_congr_left fun offset hmem => ?_
    rw [← h.bytes_eq, List.take_append_drop, Function.comp_apply, hoffset offset hmem]
  rw [PinCommandSlot.arguments, h.offsets_eq, List.map_map, hread]
  exact PackedStrings.stringAt_pack [] command _

/-- A push does to the slot what it does to the list. -/
theorem Holds.push (h : Holds slot used command) (argument : CString) :
    (slot.push used argument.1 = none ∧
      pushPinArgument (texts command) argument.1 = none) ∨
    ∃ slot' used', slot.push used argument.1 = some (slot', used') ∧
      pushPinArgument (texts command) argument.1 = some (texts (command ++ [argument])) ∧
      Holds slot' used' (command ++ [argument]) := by
  rw [PinCommandSlot.push, pushPinArgument, commandBytes_texts, ← h.used_eq, List.length_map,
    ← h.argc_eq]
  split
  next => exact .inl ⟨rfl, rfl⟩
  next hfits =>
    rw [not_or, not_or] at hfits
    obtain ⟨hargc, -, hbytes⟩ := hfits
    refine .inr ⟨_, _, rfl, by simp, ?_⟩
    have hlength : used + argument.1.length + 1 = used + (argument.1 ++ [0]).length := by
      rw [List.length_append, List.length_singleton, Nat.add_assoc]
    have hpack : pack (command ++ [argument]) = pack command ++ (argument.1 ++ [0]) := by
      rw [PackedStrings.pack_append]
      rfl
    constructor
    · show slot.argc + 1 = _
      rw [h.argc_eq, List.length_append, List.length_singleton]
    · rw [hpack, List.length_append, ← h.used_eq, hlength]
    · show (slot.offsets.setIfInBounds slot.argc (UInt16.ofNat used)).toList.take _ = _
      have hlt : slot.argc < slot.offsets.toList.length := by
        rw [Vector.length_toList]
        omega
      rw [Vector.toList_setIfInBounds, PackedStrings.take_set_succ hlt, h.offsets_eq,
        PackedStrings.offsets_append, List.map_append, Nat.zero_add, ← h.used_eq]
      rfl
    · show (overwrite slot.bytes used (argument.1 ++ [0])).toList.take _ = _
      rw [hlength, PackedStrings.take_overwrite _ (by omega), h.bytes_eq, hpack]
    · show used + argument.1.length + 1 ≤ 32 * 1024
      omega

theorem Holds.pushAll (h : Holds slot used command) (options : List CString) :
    ∃ used' command', Holds (slot.pushAll used (texts options)).1 used' command' ∧
      pushPinArguments (texts command) (texts options) =
        (texts command', (slot.pushAll used (texts options)).2) := by
  induction options generalizing slot used command with
  | nil => exact ⟨used, command, h, rfl⟩
  | cons argument options ih =>
      rw [texts, List.map_cons, PinCommandSlot.pushAll, pushPinArguments]
      obtain ⟨hnone, hlist⟩ | ⟨slot', used', hsome, hlist, hholds⟩ := h.push argument
      · rw [hnone, hlist]
        exact ⟨used, command, h, rfl⟩
      · rw [hsome, hlist]
        exact ih hholds

theorem Holds.prepare (h : Holds slot used command) (options base : List CString) :
    ∃ used' command', Holds (slot.prepare (texts options) used (texts base)).1 used' command' ∧
      prepareArguments (texts options) (texts command) (texts base) =
        (texts command', (slot.prepare (texts options) used (texts base)).2) := by
  induction base generalizing slot used command with
  | nil => exact ⟨used, command, h, rfl⟩
  | cons argument base ih =>
      rw [texts.eq_def (argument :: base), List.map_cons, PinCommandSlot.prepare, prepareArguments]
      split
      next => exact h.pushAll options
      next =>
        obtain ⟨hnone, hlist⟩ | ⟨slot', used', hsome, hlist, hholds⟩ := h.push argument
        · rw [hnone, hlist]
          exact ⟨used, command, h, rfl⟩
        · rw [hsome, hlist]
          exact ih hholds

/-! ## The text of a port -/

theorem toList_loop (b : ByteArray) (i : Nat) (r : List UInt8) :
    ByteArray.toList.loop b i r = r.reverse ++ b.data.toList.drop i := by
  induction hn : b.size - i generalizing i r with
  | zero =>
      rw [ByteArray.toList.loop, if_neg (by omega), List.drop_eq_nil_of_le, List.append_nil]
      show b.data.toList.length ≤ i
      rw [Array.length_toList]
      show b.size ≤ i
      omega
  | succ n ih =>
      have hlt : i < b.data.toList.length := by
        rw [Array.length_toList]
        show i < b.size
        omega
      rw [ByteArray.toList.loop, if_pos (by omega), ih _ _ (by omega), List.reverse_cons,
        List.append_assoc, List.drop_eq_getElem_cons hlt]
      have hget : b.get! i = b.data.toList[i] := getElem!_pos b.data i hlt
      rw [hget]
      rfl

theorem byteArray_toList (b : ByteArray) : b.toList = b.data.toList := by
  rw [ByteArray.toList, toList_loop]
  rfl

theorem toUTF8_toList (s : String) : s.toUTF8.toList = s.toList.flatMap String.utf8EncodeChar := by
  rw [byteArray_toList, String.toUTF8_eq_toByteArray, ← String.utf8Encode_toList, List.utf8Encode,
    List.toList_data_toByteArray]

theorem portText_eq (port : UInt16) :
    portText port = (Nat.toDigits 10 port.toNat).flatMap String.utf8EncodeChar := by
  rw [portText, toUTF8_toList]
  show (toString port.toNat).toList.flatMap _ = _
  rw [Nat.toString_eq_ofList_toDigits, String.toList_ofList]

theorem zero_notMem_utf8EncodeChar {c : Char} (h : c.isDigit = true) :
    (0 : UInt8) ∉ String.utf8EncodeChar c := by
  obtain ⟨hlow, hhigh⟩ := Char.isDigit_iff_toNat.mp h
  replace hlow : 48 ≤ c.val.toNat := hlow
  replace hhigh : c.val.toNat ≤ 57 := hhigh
  rw [String.utf8EncodeChar, if_pos (by omega), List.mem_singleton]
  intro hzero
  have hval := congrArg UInt8.toNat hzero
  rw [UInt8.toNat_ofNat', Nat.mod_eq_of_lt (by omega)] at hval
  exact absurd hval (by show 0 ≠ _; omega)

/-- The text of a port is a C string. -/
theorem zero_notMem_portText (port : UInt16) : (0 : UInt8) ∉ portText port := by
  rw [portText_eq, List.mem_flatMap]
  rintro ⟨c, hc, h⟩
  exact zero_notMem_utf8EncodeChar (Nat.isDigit_of_mem_toDigits (by decide) (by decide) hc) h

theorem fromUTF8_portText (port : UInt16) :
    String.fromUTF8? (portText port).toByteArray = some (toString port) := by
  have hbytes : (portText port).toByteArray = (toString port).toByteArray := by
    refine ByteArray.ext (Array.toList_inj.mp ?_)
    rw [List.toList_data_toByteArray, portText, byteArray_toList, String.toUTF8_eq_toByteArray]
  rw [hbytes, String.fromUTF8?, dif_pos (toString port).isValidUTF8]
  rfl

theorem parseU16_toDigits {n : Nat} (h : n < 65536) : parseU16 (Nat.toDigits 10 n) = some n := by
  have hdigits : ∀ c ∈ Nat.toDigits 10 n, c.isDigit := fun c hc =>
    Nat.isDigit_of_mem_toDigits (by decide) (by decide) hc
  rw [parseU16, HookQuery.fromStrRadix_digits Nat.toDigits_ne_nil hdigits,
    HookQuery.foldlM_toDigits (by omega), Option.filter_some, if_pos (decide_eq_true h)]

/-- The text of a port is parsed to the port. -/
theorem parsePort_portText {port : UInt16} (h : port ≠ 0) :
    parsePort (portText port) = .ok port := by
  have hlist : (toString port).toList = Nat.toDigits 10 port.toNat := by
    show (toString port.toNat).toList = _
    rw [Nat.toString_eq_ofList_toDigits, String.toList_ofList]
  have hne : port.toNat ≠ 0 := fun hzero => h (UInt16.toNat_inj.mp hzero)
  rw [parsePort, fromUTF8_portText]
  show (match parseU16 (toString port).toList with
    | none => Except.error "agent port must be 1..65535"
    | some port =>
        if port = 0 then .error "agent port must be 1..65535" else .ok (UInt16.ofNat port)) = _
  rw [hlist, parseU16_toDigits port.toNat_lt]
  show (if port.toNat = 0 then _ else Except.ok (UInt16.ofNat port.toNat)) = _
  rw [if_neg hne, UInt16.ofNat_toNat]

/-! ## The list of a child -/

/-- The limits of the slot. -/
def Fits (command : List Bytes) : Prop := command.length ≤ 128 ∧ commandBytes command ≤ 32 * 1024

theorem commandBytes_append (command rest : List Bytes) :
    commandBytes (command ++ rest) = commandBytes command + commandBytes rest := by
  rw [commandBytes, List.map_append, List.sum_append]
  rfl

theorem Fits.of_append {command rest : List Bytes} (h : Fits (command ++ rest)) : Fits command := by
  obtain ⟨hlength, hbytes⟩ := h
  rw [List.length_append] at hlength
  rw [commandBytes_append] at hbytes
  exact ⟨by omega, by omega⟩

/-- An argument is pushed if and only if the list still fits. -/
theorem pushPinArgument_eq (command : List Bytes) (argument : Bytes) :
    (Fits (command ++ [argument]) ∧
      pushPinArgument command argument = some (command ++ [argument])) ∨
    (¬Fits (command ++ [argument]) ∧ pushPinArgument command argument = none) := by
  have hfits : Fits (command ++ [argument]) ↔ ¬(128 ≤ command.length ∨
      65535 < argument.length + 1 ∨ 32 * 1024 < commandBytes command + argument.length + 1) := by
    have hone : commandBytes [argument] = argument.length + 1 := by simp [commandBytes]
    rw [Fits, commandBytes_append, List.length_append, List.length_singleton, hone]
    omega
  rw [pushPinArgument, hfits]
  split
  next hfull => exact .inr ⟨not_not_intro hfull, rfl⟩
  next hroom => exact .inl ⟨hroom, rfl⟩

theorem pushPinArguments_eq {command : List Bytes} (options : List Bytes) (h : Fits command) :
    (Fits (command ++ options) ∧
      pushPinArguments command options = (command ++ options, true)) ∨
    (¬Fits (command ++ options) ∧ (pushPinArguments command options).2 = false) := by
  induction options generalizing command with
  | nil =>
      rw [List.append_nil]
      exact .inl ⟨h, rfl⟩
  | cons argument options ih =>
      rw [pushPinArguments, List.append_cons]
      obtain ⟨hfits, hpush⟩ | ⟨hfull, hpush⟩ := pushPinArgument_eq command argument
      · rw [hpush]
        exact ih hfits
      · rw [hpush]
        exact .inr ⟨fun hall => hfull hall.of_append, rfl⟩

/-- An argument that a session keeps. -/
def Plain (argument : Bytes) : Prop :=
  argument ≠ separator ∧ argument ≠ agentPortFlag ∧ argument ≠ parentPortFlag

theorem prepareArguments_eq {plain : List Bytes} (h : ∀ argument ∈ plain, Plain argument)
    (options command : List Bytes) (hfits : Fits command) :
    (Fits (command ++ plain ++ options) ∧
      prepareArguments options command (plain ++ [separator]) =
        (command ++ plain ++ options, true)) ∨
    (¬Fits (command ++ plain ++ options) ∧
      (prepareArguments options command (plain ++ [separator])).2 = false) := by
  induction plain generalizing command with
  | nil =>
      rw [List.append_nil, List.nil_append, prepareArguments, if_pos rfl]
      exact pushPinArguments_eq options hfits
  | cons argument plain ih =>
      obtain ⟨hargument, hplain⟩ := List.forall_mem_cons.mp h
      rw [List.cons_append, prepareArguments, if_neg hargument.1, List.append_cons]
      obtain ⟨hfits, hpush⟩ | ⟨hfull, hpush⟩ := pushPinArgument_eq command argument
      · rw [hpush]
        exact ih hplain _ hfits
      · rw [hpush]
        exact .inr ⟨fun hall => hfull hall.of_append.of_append, rfl⟩

/-! ## Sanitizing -/

theorem separator_ne : separator ≠ agentPortFlag ∧ separator ≠ parentPortFlag := by
  decide +kernel

theorem parentPortFlag_ne : parentPortFlag ≠ agentPortFlag := by
  decide +kernel

/-- A round of the loop. -/
theorem sanitizeLoop_round (beforeApplication : Bool) (argument : Bytes) (rest : List Bytes)
    (s : Sanitized) :
    sanitizeLoop beforeApplication (argument :: rest) s =
      if beforeApplication = true ∧ argument = separator then
        sanitizeLoop false rest (s.push argument)
      else if beforeApplication = true ∧ argument = agentPortFlag then
        match rest with
        | [] => .error "agent port option needs a value"
        | value :: rest =>
            match parsePort value with
            | .error e => .error e
            | .ok port => sanitizeLoop beforeApplication rest { s with controlPort := some port }
      else if beforeApplication = true ∧ argument = parentPortFlag then
        match rest with
        | [] => .error "agent port option needs a value"
        | value :: rest =>
            match parsePort value with
            | .error e => .error e
            | .ok port => sanitizeLoop beforeApplication rest { s with parentPort := some port }
      else sanitizeLoop beforeApplication rest (s.push argument) := by
  rw [sanitizeLoop.eq_def]

variable (application : List Bytes) (s : Sanitized)

/-- Arguments of the application are kept. -/
theorem sanitizeLoop_application :
    sanitizeLoop false application s =
      .ok { s with arguments := s.arguments ++ application } := by
  induction application generalizing s with
  | nil => rw [List.append_nil]; rfl
  | cons argument application ih =>
      have hno : ∀ flag, ¬(false = true ∧ argument = flag) := fun _ h => Bool.false_ne_true h.1
      rw [sanitizeLoop_round, if_neg (hno _), if_neg (hno _), if_neg (hno _), ih, Sanitized.push]
      simp

theorem sanitizeLoop_separator :
    sanitizeLoop true (separator :: application) s =
      .ok { s with arguments := s.arguments ++ separator :: application } := by
  rw [sanitizeLoop_round, if_pos ⟨rfl, rfl⟩, sanitizeLoop_application, Sanitized.push]
  simp

theorem sanitizeLoop_cons {argument : Bytes} (h : Plain argument) (rest : List Bytes) :
    sanitizeLoop true (argument :: rest) s = sanitizeLoop true rest (s.push argument) := by
  rw [sanitizeLoop_round, if_neg fun h' => h.1 h'.2, if_neg fun h' => h.2.1 h'.2,
    if_neg fun h' => h.2.2 h'.2]

theorem sanitizeLoop_agentPortFlag (value : Bytes) (rest : List Bytes) :
    sanitizeLoop true (agentPortFlag :: value :: rest) s =
      match parsePort value with
      | .error e => .error e
      | .ok port => sanitizeLoop true rest { s with controlPort := some port } := by
  rw [sanitizeLoop_round]
  dsimp only
  rw [if_neg fun h => separator_ne.1 h.2.symm, if_pos ⟨rfl, rfl⟩]

theorem sanitizeLoop_parentPortFlag (value : Bytes) (rest : List Bytes) :
    sanitizeLoop true (parentPortFlag :: value :: rest) s =
      match parsePort value with
      | .error e => .error e
      | .ok port => sanitizeLoop true rest { s with parentPort := some port } := by
  rw [sanitizeLoop_round]
  dsimp only
  rw [if_neg fun h => separator_ne.2 h.2.symm, if_neg fun h => parentPortFlag_ne h.2,
    if_pos ⟨rfl, rfl⟩]

/-- Plain arguments are kept. -/
theorem sanitizeLoop_plain {plain : List Bytes} (h : ∀ argument ∈ plain, Plain argument)
    (rest : List Bytes) :
    sanitizeLoop true (plain ++ rest) s =
      sanitizeLoop true rest { s with arguments := s.arguments ++ plain } := by
  induction plain generalizing s with
  | nil => rw [List.append_nil]; rfl
  | cons argument plain ih =>
      obtain ⟨hargument, hplain⟩ := List.forall_mem_cons.mp h
      rw [List.cons_append, sanitizeLoop_cons s hargument, ih _ hplain, Sanitized.push]
      simp

/-- The arguments of a child are read as the base, the two ports and the application. -/
theorem sanitize_child {plain : List Bytes} (h : ∀ argument ∈ plain, Plain argument)
    {controlPort parentPort : UInt16} (hcontrol : controlPort ≠ 0) (hparent : parentPort ≠ 0) :
    sanitizeToolArguments (plain ++ childOptions controlPort parentPort ++ application) =
      .ok ⟨plain ++ separator :: application, some controlPort, some parentPort⟩ := by
  rw [sanitizeToolArguments, List.append_assoc, sanitizeLoop_plain _ h, childOptions,
    List.cons_append, List.cons_append, sanitizeLoop_agentPortFlag, parsePort_portText hcontrol]
  dsimp only
  rw [List.cons_append, List.cons_append, sanitizeLoop_parentPortFlag, parsePort_portText hparent]
  dsimp only
  rw [List.cons_append, List.nil_append, sanitizeLoop_separator, List.nil_append]

/-- What is accepted is plain arguments and the two options, up to a separator if there is one.
Behind it everything is kept. -/
def Accepted (raw : List Bytes) (s r : Sanitized) : Prop :=
  (∃ plain, (∀ argument ∈ plain, Plain argument) ∧ r.arguments = s.arguments ++ plain) ∨
  ∃ before plain application, raw = before ++ separator :: application ∧
    (∀ argument ∈ plain, Plain argument ∧ argument ∈ raw) ∧
    r.arguments = s.arguments ++ (plain ++ separator :: application) ∧
    ∀ application', sanitizeLoop true (before ++ separator :: application') s =
      .ok { r with arguments := s.arguments ++ (plain ++ separator :: application') }

variable {s}

/-- One round that keeps some arguments. -/
theorem Accepted.round (before kept : List Bytes) {rest : List Bytes} {s' r : Sanitized}
    (hround : ∀ rest, sanitizeLoop true (before ++ rest) s = sanitizeLoop true rest s')
    (harguments : s'.arguments = s.arguments ++ kept)
    (hkept : ∀ argument ∈ kept, Plain argument ∧ argument ∈ before) (h : Accepted rest s' r) :
    Accepted (before ++ rest) s r := by
  obtain ⟨plain, hplain, hr⟩ | ⟨before', plain, application, rfl, hplain, hr, hall⟩ := h
  · refine .inl ⟨kept ++ plain, fun argument hargument => ?_, ?_⟩
    · obtain hargument | hargument := List.mem_append.mp hargument
      · exact (hkept argument hargument).1
      · exact hplain argument hargument
    · rw [hr, harguments, List.append_assoc]
  · refine .inr ⟨before ++ before', kept ++ plain, application, ?_, fun argument hargument => ?_,
      ?_, fun application' => ?_⟩
    · rw [List.append_assoc]
    · obtain hargument | hargument := List.mem_append.mp hargument
      · exact ⟨(hkept argument hargument).1,
          List.mem_append_left _ (hkept argument hargument).2⟩
      · exact ⟨(hplain argument hargument).1,
          List.mem_append_right _ (hplain argument hargument).2⟩
    · rw [hr, harguments, List.append_assoc, List.append_assoc]
    · rw [List.append_assoc, hround, hall, harguments, List.append_assoc, List.append_assoc]

/-- An option has a value that is a port. -/
theorem sanitizeLoop_option {argument : Bytes} {rest : List Bytes} {r : Sanitized}
    (hplain : ¬Plain argument) (hseparator : argument ≠ separator)
    (h : sanitizeLoop true (argument :: rest) s = .ok r) :
    ∃ value rest' s', rest = value :: rest' ∧ s'.arguments = s.arguments ∧
      sanitizeLoop true rest' s' = .ok r ∧
      ∀ rest, sanitizeLoop true (argument :: value :: rest) s = sanitizeLoop true rest s' := by
  have hflag : argument = agentPortFlag ∨ argument = parentPortFlag := by
    by_contra hno
    exact hplain ⟨hseparator, not_or.mp hno⟩
  cases rest with
  | nil =>
      rw [sanitizeLoop_round] at h
      dsimp only at h
      rw [if_neg fun h' => hseparator h'.2] at h
      split at h
      next => exact nomatch h
      next hagent =>
        rw [if_pos ⟨rfl, hflag.resolve_left fun h' => hagent ⟨rfl, h'⟩⟩] at h
        exact nomatch h
  | cons value rest =>
      obtain rfl | rfl := hflag
      · rw [sanitizeLoop_agentPortFlag] at h
        cases hvalue : parsePort value with
        | error e =>
            rw [hvalue] at h
            exact nomatch h
        | ok port =>
            rw [hvalue] at h
            refine ⟨value, rest, { s with controlPort := some port }, rfl, rfl, h, fun rest => ?_⟩
            rw [sanitizeLoop_agentPortFlag, hvalue]
      · rw [sanitizeLoop_parentPortFlag] at h
        cases hvalue : parsePort value with
        | error e =>
            rw [hvalue] at h
            exact nomatch h
        | ok port =>
            rw [hvalue] at h
            refine ⟨value, rest, { s with parentPort := some port }, rfl, rfl, h, fun rest => ?_⟩
            rw [sanitizeLoop_parentPortFlag, hvalue]

theorem sanitizeLoop_accepted (raw : List Bytes) {r : Sanitized}
    (h : sanitizeLoop true raw s = .ok r) : Accepted raw s r := by
  induction hn : raw.length using Nat.strongRecOn generalizing raw s with
  | ind n ih =>
      cases raw with
      | nil =>
          cases h
          exact .inl ⟨[], fun _ h => absurd h List.not_mem_nil, (List.append_nil _).symm⟩
      | cons argument rest =>
          rw [List.length_cons] at hn
          by_cases hplain : Plain argument
          · rw [sanitizeLoop_cons s hplain] at h
            refine Accepted.round [argument] [argument]
              (fun rest => sanitizeLoop_cons s hplain rest) rfl ?_ (ih _ (by omega) rest h rfl)
            intro other hother
            obtain rfl := List.mem_singleton.mp hother
            exact ⟨hplain, List.mem_singleton_self _⟩
          · by_cases hseparator : argument = separator
            · subst hseparator
              rw [sanitizeLoop_separator] at h
              cases h
              refine .inr ⟨[], [], rest, rfl, fun _ h => absurd h List.not_mem_nil, rfl,
                fun application' => ?_⟩
              exact sanitizeLoop_separator application' s
            · obtain ⟨value, rest, s', rfl, harguments, h, hround⟩ :=
                sanitizeLoop_option hplain hseparator h
              rw [List.length_cons] at hn
              refine Accepted.round [argument, value] [] hround ?_ ?_ (ih _ (by omega) rest h rfl)
              · rw [harguments, List.append_nil]
              · exact fun _ h => absurd h List.not_mem_nil

/-! ## Sessions -/

/-- The C strings of a child's options. -/
def childStrings (controlPort parentPort : UInt16) : List CString :=
  [⟨agentPortFlag, by decide +kernel⟩, ⟨portText controlPort, zero_notMem_portText _⟩,
    ⟨parentPortFlag, by decide +kernel⟩, ⟨portText parentPort, zero_notMem_portText _⟩,
    ⟨separator, by decide +kernel⟩]

theorem texts_childStrings (controlPort parentPort : UInt16) :
    texts (childStrings controlPort parentPort) = childOptions controlPort parentPort := rfl

/-- The base of a session is some plain arguments and the separator. -/
structure Session.HasBase (s : Session) (plain : List CString) : Prop where
  base_eq : s.base = some (texts plain ++ [separator])
  plain : ∀ argument ∈ texts plain, Plain argument

/-- The buffer refines the list of `Children.prepareChildPinCommand`. -/
theorem prepareChildPinCommand_holds {s : Session} {base : List CString}
    (h : s.base = some (texts base)) (old : List Bytes) (controlPort parentPort : UInt16) :
    ∃ used command, Holds (s.prepareChildPinCommand controlPort parentPort).2.command used command ∧
      prepareChildPinCommand s.base old controlPort parentPort =
        (texts command, (s.prepareChildPinCommand controlPort parentPort).1) := by
  obtain ⟨used, command, hholds, hlist⟩ :=
    (holds_empty s.command).prepare (childStrings controlPort parentPort) base
  rw [texts_childStrings] at hholds hlist
  rw [Session.prepareChildPinCommand, h]
  exact ⟨used, command, hholds, hlist⟩

/-- The arguments of a child are laid out if and only if they fit. -/
theorem Session.HasBase.prepare {s : Session} {plain : List CString} (h : s.HasBase plain)
    (controlPort parentPort : UInt16) :
    (Fits (texts plain ++ childOptions controlPort parentPort) ∧
      (s.prepareChildPinCommand controlPort parentPort).1 = true ∧
      (s.prepareChildPinCommand controlPort parentPort).2.command.arguments =
        plain ++ childStrings controlPort parentPort) ∨
    (¬Fits (texts plain ++ childOptions controlPort parentPort) ∧
      (s.prepareChildPinCommand controlPort parentPort).1 = false) := by
  have hbase : s.base = some (texts (plain ++ [⟨separator, by decide +kernel⟩])) := by
    rw [h.base_eq, texts, texts, List.map_append]
    rfl
  obtain ⟨used, command, hholds, hlist⟩ :=
    prepareChildPinCommand_holds hbase [] controlPort parentPort
  have hprepare : prepareArguments (childOptions controlPort parentPort) []
      (texts plain ++ [separator]) =
      (texts command, (s.prepareChildPinCommand controlPort parentPort).1) := by
    rw [← hlist, h.base_eq]
    rfl
  obtain ⟨hfits, heq⟩ | ⟨hfull, heq⟩ := prepareArguments_eq h.plain
    (childOptions controlPort parentPort) [] ⟨Nat.zero_le _, Nat.zero_le _⟩
  · rw [hprepare, List.nil_append] at heq
    rw [List.nil_append] at hfits
    obtain ⟨htexts, hready⟩ := Prod.mk.inj heq
    refine .inl ⟨hfits, hready, ?_⟩
    rw [hholds.arguments_eq]
    refine List.map_injective_iff.mpr Subtype.val_injective ?_
    rw [List.map_append]
    exact htexts
  · rw [hprepare] at heq
    exact .inr ⟨hfull, heq⟩

theorem prepareChildPinCommand_base (s : Session) (controlPort parentPort : UInt16) :
    (s.prepareChildPinCommand controlPort parentPort).2.base = s.base := by
  rw [Session.prepareChildPinCommand]
  split
  next => rfl
  next => rfl

theorem rawArguments_list (arguments : List CString) :
    rawArguments arguments.length (arguments[·]?) = some arguments := by
  rw [rawArguments, Int.toNat_natCast]
  induction arguments with
  | nil => rfl
  | cons argument arguments ih =>
      rw [List.length_cons, List.range_succ_eq_map, List.mapM_cons, List.mapM_map]
      simp only [Function.comp_def, List.getElem?_cons_zero, List.getElem?_cons_succ, ih]
      rfl

theorem findIdx_separator {plain : List Bytes} (h : ∀ argument ∈ plain, Plain argument)
    (application : List Bytes) :
    (plain ++ separator :: application).findIdx? (· = separator) = some plain.length := by
  induction plain with
  | nil => rw [List.nil_append, List.findIdx?_cons, if_pos (decide_eq_true rfl)]; rfl
  | cons argument plain ih =>
      obtain ⟨hargument, hplain⟩ := List.forall_mem_cons.mp h
      have hne : ¬decide (argument = separator) = true := by simpa using hargument.1
      rw [List.cons_append, List.findIdx?_cons, if_neg hne, ih hplain]
      rfl

/-- A session is started with arguments up to a separator and those of the application. -/
theorem prepareToolArguments_ok {argc : Int} {argv : Option (Nat → Option CString)}
    {prepared : List Bytes} {s : Session}
    (h : Session.new.prepareToolArguments argc argv = .ok (prepared, s)) :
    ∃ (argv' : Nat → Option CString) (raw : List CString) (before : List Bytes)
      (plain : List CString) (application : List Bytes) (controlPort parentPort : Option UInt16),
      argv = some argv' ∧ rawArguments argc argv' = some raw ∧
      texts raw = before ++ separator :: application ∧
      prepared = texts plain ++ separator :: application ∧ s.HasBase plain ∧
      ∀ application', sanitizeToolArguments (before ++ separator :: application') =
        .ok ⟨texts plain ++ separator :: application', controlPort, parentPort⟩ := by
  rw [Session.prepareToolArguments.eq_def] at h
  split at h
  next => exact nomatch h
  next argv' =>
  split at h
  next => exact nomatch h
  next =>
  split at h
  next => exact nomatch h
  next raw hraw =>
  split at h
  next => exact nomatch h
  next sanitized hsanitized =>
  obtain ⟨plain, hplain, harguments⟩ |
      ⟨before, plain, application, htexts, hplain, harguments, hall⟩ :=
    sanitizeLoop_accepted (texts raw) hsanitized
  · have hnone : sanitized.arguments.findIdx? (· = separator) = none := by
      rw [harguments, List.nil_append, List.findIdx?_eq_none_iff]
      exact fun argument hargument => by simpa using (hplain argument hargument).1
    rw [hnone] at h
    exact nomatch h
  · have hstrings : ∀ argument ∈ plain, (0 : UInt8) ∉ argument := by
      intro argument hargument
      obtain ⟨string, -, rfl⟩ := List.mem_map.mp (hplain argument hargument).2
      exact string.2
    lift plain to List CString using hstrings
    have hkept : ∀ argument ∈ texts plain, Plain argument := fun argument hargument =>
      (hplain argument hargument).1
    rw [harguments, List.nil_append, findIdx_separator hkept] at h
    cases h
    refine ⟨argv', raw, before, plain, application, sanitized.controlPort, sanitized.parentPort,
      rfl, hraw, htexts, rfl, ⟨?_, hkept⟩, fun application' => ?_⟩
    · show some _ = some _
      rw [List.take_length_add_append]
      rfl
    · rw [sanitizeToolArguments, hall, List.nil_append]

/-- A session with a base and two ports. -/
def Session.started (plain : List CString) (controlPort parentPort : UInt16) : Session :=
  { Session.new with
    base := some (texts plain ++ [separator])
    controlPortOverride := controlPort.toUInt32
    parentControlPort := parentPort.toUInt32 }

/-- A session that is started with the arguments of a child. -/
theorem prepareToolArguments_child {plain : List CString}
    (h : ∀ argument ∈ texts plain, Plain argument) {controlPort parentPort : UInt16}
    (hcontrol : controlPort ≠ 0) (hparent : parentPort ≠ 0) (application : List CString) :
    let arguments := plain ++ childStrings controlPort parentPort ++ application
    Session.new.prepareToolArguments arguments.length (some (arguments[·]?)) =
      .ok (texts plain ++ separator :: texts application,
        .started plain controlPort parentPort) := by
  intro arguments
  have hlength : ¬(arguments.length : Int) ≤ 0 := by
    have : 0 < arguments.length := by
      rw [List.length_append, List.length_append, childStrings, List.length_cons]
      omega
    omega
  have hsanitize : sanitizeToolArguments (texts arguments) =
      .ok ⟨texts plain ++ separator :: texts application, some controlPort, some parentPort⟩ := by
    rw [texts, List.map_append, List.map_append]
    exact sanitize_child (texts application) h hcontrol hparent
  rw [Session.prepareToolArguments.eq_def]
  dsimp only
  rw [if_neg hlength, rawArguments_list]
  dsimp only
  rw [hsanitize]
  dsimp only
  rw [findIdx_separator h, Session.started]
  dsimp only
  rw [List.take_length_add_append]
  rfl

theorem storedPort_toUInt32 {port : UInt16} (h : port ≠ 0) :
    storedPort port.toUInt32 = some port := by
  rw [storedPort, UInt16.toUInt16_toUInt32, if_pos h]

/-! ## Chains of children -/

/-- The sessions of a chain of children, with the command lines that are prepared on the way. -/
inductive Descends (first : Session) : Session → Prop where
  | first : Descends first first
  | prepare {s : Session} (h : Descends first s) (controlPort parentPort : UInt16) :
      Descends first (s.prepareChildPinCommand controlPort parentPort).2
  | child {s : Session} (h : Descends first s) {controlPort parentPort : UInt16}
      (hcontrol : controlPort ≠ 0) (hparent : parentPort ≠ 0)
      (hready : (s.prepareChildPinCommand controlPort parentPort).1 = true)
      {arguments application : List CString} {prepared : List Bytes} {s' : Session}
      (harguments : arguments =
        (s.prepareChildPinCommand controlPort parentPort).2.command.arguments ++ application)
      (hstart : Session.new.prepareToolArguments arguments.length (some (arguments[·]?)) =
        .ok (prepared, s')) :
      Descends first s'

theorem Descends.hasBase {first s : Session} {plain : List CString} (h : Descends first s)
    (hfirst : first.HasBase plain) : s.HasBase plain := by
  induction h with
  | first => exact hfirst
  | prepare _ controlPort parentPort ih =>
      exact ⟨(prepareChildPinCommand_base _ controlPort parentPort).trans ih.base_eq, ih.plain⟩
  | child _ hcontrol hparent hready harguments hstart ih =>
      obtain ⟨-, -, heq⟩ | ⟨-, hnot⟩ := ih.prepare _ _
      · rw [harguments, heq, prepareToolArguments_child ih.plain hcontrol hparent] at hstart
        cases hstart
        exact ⟨rfl, ih.plain⟩
      · rw [hready] at hnot
        exact nomatch hnot

/-- Every session of a chain of children has the base of the first one.  The arguments of its
children are laid out if and only if they fit, and a child that is started with them has the ports,
the same base and the arguments of the application as they are. -/
theorem child_inherits {argc : Int} {argv : Option (Nat → Option CString)}
    {prepared : List Bytes} {first s : Session}
    (hfirst : Session.new.prepareToolArguments argc argv = .ok (prepared, first))
    (hs : Descends first s) :
    ∃ (argv' : Nat → Option CString) (raw : List CString) (before : List Bytes)
      (plain : List CString) (application : List Bytes) (control parent : Option UInt16),
      argv = some argv' ∧ rawArguments argc argv' = some raw ∧
      texts raw = before ++ separator :: application ∧
      prepared = texts plain ++ separator :: application ∧
      (∀ application', sanitizeToolArguments (before ++ separator :: application') =
        .ok ⟨texts plain ++ separator :: application', control, parent⟩) ∧
      first.base = some (texts plain ++ [separator]) ∧ s.base = first.base ∧
      ∀ controlPort parentPort : UInt16, controlPort ≠ 0 → parentPort ≠ 0 →
        ((s.prepareChildPinCommand controlPort parentPort).1 = false ↔
          ¬Fits (texts plain ++ childOptions controlPort parentPort)) ∧
        ((s.prepareChildPinCommand controlPort parentPort).1 = true →
          ∀ application : List CString,
            let arguments :=
              (s.prepareChildPinCommand controlPort parentPort).2.command.arguments ++ application
            sanitizeToolArguments (texts arguments) =
              .ok ⟨texts plain ++ separator :: texts application, some controlPort,
                some parentPort⟩ ∧
            ∃ child, Session.new.prepareToolArguments arguments.length (some (arguments[·]?)) =
                .ok (texts plain ++ separator :: texts application, child) ∧
              storedPort child.controlPortOverride = some controlPort ∧
              storedPort child.parentControlPort = some parentPort ∧
              child.base = first.base) := by
  obtain ⟨argv', raw, before, plain, application, control, parent, hargv, hraw, htexts, hprepared,
    hbase, hall⟩ := prepareToolArguments_ok hfirst
  have hdescends := hs.hasBase hbase
  refine ⟨argv', raw, before, plain, application, control, parent, hargv, hraw, htexts, hprepared,
    hall, hbase.base_eq, hdescends.base_eq.trans hbase.base_eq.symm,
    fun controlPort parentPort hcontrol hparent => ?_⟩
  obtain ⟨hfits, hready, heq⟩ | ⟨hfull, hready⟩ := hdescends.prepare controlPort parentPort
  · refine ⟨iff_of_false (by rw [hready]; decide) (not_not_intro hfits), fun _ application => ?_⟩
    intro arguments
    have harguments : arguments = plain ++ childStrings controlPort parentPort ++ application := by
      rw [← heq]
    have hsanitize : sanitizeToolArguments (texts arguments) =
        .ok ⟨texts plain ++ separator :: texts application, some controlPort, some parentPort⟩ := by
      rw [harguments, texts, List.map_append, List.map_append]
      exact sanitize_child (texts application) hbase.plain hcontrol hparent
    refine ⟨hsanitize, .started plain controlPort parentPort, ?_, storedPort_toUInt32 hcontrol,
      storedPort_toUInt32 hparent, hbase.base_eq.symm⟩
    rw [harguments]
    exact prepareToolArguments_child hbase.plain hcontrol hparent application
  · exact ⟨iff_of_true hready hfull, fun htrue => by rw [hready] at htrue; exact nomatch htrue⟩

/-- `pin`. -/
def pinArguments : List CString := [⟨[0x70, 0x69, 0x6E], by decide⟩]

theorem plain_pinArguments : ∀ argument ∈ texts pinArguments, Plain argument := by
  intro argument h
  obtain rfl := List.mem_singleton.mp h
  refine ⟨?_, ?_, ?_⟩
  · decide +kernel
  · decide +kernel
  · decide +kernel

/-- The command line of an application that reads like the options of the agent. -/
def lookalike : List CString :=
  [⟨agentPortFlag, by decide +kernel⟩, ⟨[0x30], by decide⟩, ⟨separator, by decide +kernel⟩,
    ⟨parentPortFlag, by decide +kernel⟩]

/-- A session of `pin`, whose parent has prepared it. -/
def pinSession : Session := .started pinArguments 43123 43122

/-- The child that it follows. -/
def followedSession : Session := .started pinArguments 43124 43123

theorem hasBase_pinSession : pinSession.HasBase pinArguments := ⟨rfl, plain_pinArguments⟩

theorem fits_pinArguments : Fits (texts pinArguments ++ childOptions 43124 43123) ∧
    Fits (texts pinArguments ++ childOptions 43125 43124) := by
  constructor
  · exact ⟨by decide +kernel, by decide +kernel⟩
  · exact ⟨by decide +kernel, by decide +kernel⟩

theorem descends_followedSession : Descends pinSession followedSession := by
  obtain ⟨-, hready, hcommand⟩ | ⟨hfull, -⟩ := hasBase_pinSession.prepare 43124 43123
  · have hstart := prepareToolArguments_child plain_pinArguments
      (by decide : (43124 : UInt16) ≠ 0) (by decide : (43123 : UInt16) ≠ 0) lookalike
    rw [← hcommand] at hstart
    exact .child .first (by decide) (by decide) hready rfl hstart
  · exact absurd fits_pinArguments.1 hfull

/-- The followed child lays out the arguments of a child of its own.  Those of the application stay
as they are, although they read like options. -/
theorem child_inherits_lookalike :
    (followedSession.prepareChildPinCommand 43125 43124).1 = true ∧
    sanitizeToolArguments (texts ((followedSession.prepareChildPinCommand 43125
        43124).2.command.arguments ++ lookalike)) =
      .ok ⟨texts pinArguments ++ separator :: texts lookalike, some 43125, some 43124⟩ := by
  obtain ⟨-, -, -, plain, -, -, -, -, -, -, -, -, hbase, -, hchild⟩ :=
    child_inherits (prepareToolArguments_child plain_pinArguments (by decide) (by decide) lookalike)
      descends_followedSession
  have hplain : texts pinArguments = texts plain := List.append_cancel_right (Option.some.inj hbase)
  obtain ⟨hfull, hsanitize⟩ := hchild 43125 43124 (by decide) (by decide)
  rw [← hplain] at hfull hsanitize
  have hready : (followedSession.prepareChildPinCommand 43125 43124).1 = true := by
    rw [← Bool.not_eq_false]
    exact fun hfalse => hfull.mp hfalse fits_pinArguments.2
  exact ⟨hready, (hsanitize hready lookalike).1⟩

end PinBridge.Children
