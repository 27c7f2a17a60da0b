import Mathlib.Data.List.Infix
import Mathlib.Data.List.DropRight
import PinBridge.Lib.Utf8

/-!
# Function prototypes

The Hub reads a C-like function prototype and keeps of it a calling convention,
a return type and at most sixteen parameters (`parse`).  A type is classified
by its spelling alone (`classifyType`).  A spelling that the table does not
know stays `unknown`, with no size.

What is sent to the Agent is the `CaptureLayout`: whether the convention is
`fastcall`, the kind of the returned value, the number of parameters and one
bit for each floating parameter.  The sizes of the parameters are not sent.
`parse_admissible` says which prototypes get that far.
-/

namespace PinBridge.Hooks

open Utf8 (Text)

/-! ## Text -/

/-- The characters that `char::is_whitespace` accepts. -/
def isWhitespace (c : Char) : Bool :=
  (0x9 ≤ c.toNat && c.toNat ≤ 0xD) || (0x2000 ≤ c.toNat && c.toNat ≤ 0x200A) ||
    [0x20, 0x85, 0xA0, 0x1680, 0x2028, 0x2029, 0x202F, 0x205F, 0x3000].contains c.toNat

/-- A text without the white space at its two ends. -/
def trim (t : Text) : Text := (t.dropWhile isWhitespace).rdropWhile isWhitespace

/-- A text in lower case, ASCII letters only. -/
def lower (t : Text) : Text := t.map Char.toLower

/-- Whether a pattern occurs in a text. -/
def contains (t : Text) (pattern : String) : Bool := decide (pattern.toList <:+: t)

/-- Whether a text is one of the given words. -/
def oneOf (t : Text) (words : List String) : Bool := words.any (·.toList == t)

/-- The text with every occurrence of a pattern replaced, from the left.  The
first argument counts the characters of an occurrence still to be skipped. -/
def replaceFrom (pattern sub : Text) : Nat → Text → Text
  | _, [] => []
  | k + 1, _ :: cs => replaceFrom pattern sub k cs
  | 0, c :: cs =>
      if pattern.isPrefixOf (c :: cs) then
        sub ++ replaceFrom pattern sub (pattern.length - 1) cs
      else c :: replaceFrom pattern sub 0 cs

/-- `str::replace`. -/
def replace (t : Text) (pattern sub : String) : Text :=
  replaceFrom pattern.toList sub.toList 0 t

/-- The text before and after the first occurrence of a pattern. -/
def splitOnce (pattern : Text) : Text → Option (Text × Text)
  | [] => none
  | c :: cs =>
      if pattern.isPrefixOf (c :: cs) then some ([], (c :: cs).drop pattern.length)
      else (splitOnce pattern cs).map fun (before, after) => (c :: before, after)

/-- The words of a text. -/
def splitWhitespace (t : Text) : List Text := (t.splitOnP isWhitespace).filter (· ≠ [])

/-- The index of the last occurrence of a character. -/
def rfind (c : Char) (t : Text) : Option Nat :=
  (t.reverse.findIdx? (· == c)).map fun k => t.length - 1 - k

/-- The characters of a C identifier. -/
def isIdent (c : Char) : Bool := c.isAlphanum || c == '_'

/-- The identifier that a text ends with, `[]` when there is none. -/
def lastIdent (t : Text) : Text := t.rtakeWhile isIdent

/-- `str::parse::<u32>`. -/
def parseU32 (t : Text) : Option Nat :=
  let digits := if t.head? = some '+' then t.tail else t
  if digits ≠ [] ∧ digits.all Char.isDigit then
    let n := digits.foldl (fun n c => 10 * n + (c.toNat - '0'.toNat)) 0
    if n < 2 ^ 32 then some n else none
  else none

/-! ## Types -/

/-- What a C type is to the Hub. -/
inductive ValueKind where
  | void
  | signed
  | unsigned
  | bool
  | float32
  | float64
  | pointer
  | utf8Pointer
  | utf16Pointer
  | aggregate
  | unknown
  deriving DecidableEq, Repr

/-- The code of a kind in a capture layout. -/
def ValueKind.captureCode : ValueKind → Nat
  | .float32 => 1
  | .float64 => 2
  | _ => 0

/-- A classified type.  `size` is a width that does not depend on the target. -/
structure TypeInfo where
  /-- The spelling, white space trimmed. -/
  spelling : Text
  /-- The kind. -/
  kind : ValueKind
  /-- The fixed width. -/
  size : Option Nat
  /-- Whether the width is that of a pointer. -/
  pointerSized : Bool
  deriving DecidableEq, Repr

/-- The width of a type on a target. -/
def TypeInfo.sizeFor (ty : TypeInfo) (pointerWidth : Nat) : Option Nat :=
  if ty.pointerSized then some pointerWidth else ty.size

/-- Type names that stand for a pointer. -/
def pointerAlias (compact : Text) : Bool :=
  oneOf compact ["handle", "hwnd", "hmodule", "hinstance", "hkey", "hfile", "hprocess", "hthread",
      "socket", "lpvoid", "lpcvoid", "pvoid", "farproc"] ||
    "lp".toList.isPrefixOf compact || "pc".toList.isPrefixOf compact ||
    "p_".toList.isPrefixOf compact

/-- Type names that stand for a pointer to bytes. -/
def isUtf8Pointer (compact : Text) : Bool :=
  contains compact "char*" || oneOf compact ["lpstr", "lpcstr", "pstr", "pcstr", "pchar"]

/-- Type names that stand for a pointer to wide characters. -/
def isUtf16Pointer (compact : Text) : Bool :=
  contains compact "wchar_t*" || contains compact "wchar*" ||
    oneOf compact ["lpwstr", "lpcwstr", "pwstr", "pcwstr", "pwchar"]

/-- The width of an opaque aggregate, `struct24` or `bytes24`. -/
def aggregateSize (compact : Text) : Option Nat :=
  let digits :=
    if "struct".toList.isPrefixOf compact then some (compact.drop 6)
    else if "bytes".toList.isPrefixOf compact then some (compact.drop 5)
    else none
  (digits.bind parseU32).filter fun size => 0 < size && size ≤ 4096

/-- The kind, the fixed width and the pointer-sized flag of a spelling that is
in lower case and free of qualifiers and blanks. -/
def classifyCompact (compact : Text) : ValueKind × Option Nat × Bool :=
  if oneOf compact ["void"] then (.void, some 0, false)
  else if compact.contains '*' || pointerAlias compact then
    (if isUtf16Pointer compact then .utf16Pointer
      else if isUtf8Pointer compact then .utf8Pointer else .pointer, none, true)
  else if oneOf compact ["float", "f32"] then (.float32, some 4, false)
  else if oneOf compact ["double", "f64"] then (.float64, some 8, false)
  else if oneOf compact ["bool", "boolean", "bool32", "winbool"] then (.bool, some 4, false)
  else if oneOf compact ["bool8", "_bool"] then (.bool, some 1, false)
  else if oneOf compact ["size_t", "uintptr_t", "ulong_ptr", "dword_ptr"] then
    (.unsigned, none, true)
  else if oneOf compact ["ssize_t", "intptr_t", "long_ptr"] then (.signed, none, true)
  else if oneOf compact ["char", "signedchar", "int8_t", "i8", "c_char", "__int8",
      "signed__int8"] then (.signed, some 1, false)
  else if oneOf compact ["unsignedchar", "uint8_t", "u8", "byte", "uchar", "unsigned__int8"] then
    (.unsigned, some 1, false)
  else if oneOf compact ["short", "shortint", "signedshort", "int16_t", "i16", "__int16",
      "signed__int16"] then (.signed, some 2, false)
  else if oneOf compact ["unsignedshort", "uint16_t", "u16", "word", "ushort", "wchar_t", "wchar",
      "unsigned__int16"] then (.unsigned, some 2, false)
  else if oneOf compact ["int", "signed", "signedint", "long", "signedlong", "int32_t", "i32",
      "long32", "hresult", "ntstatus", "__int32", "signed__int32"] ||
      "enum".toList.isPrefixOf compact then (.signed, some 4, false)
  else if oneOf compact ["unsigned", "unsignedint", "unsignedlong", "uint32_t", "u32", "dword",
      "ulong", "uint", "unsigned__int32"] then (.unsigned, some 4, false)
  else if oneOf compact ["longlong", "signedlonglong", "int64_t", "i64", "long64",
      "large_integer", "__int64", "signed__int64"] then (.signed, some 8, false)
  else if oneOf compact ["unsignedlonglong", "uint64_t", "u64", "ulonglong", "dword64",
      "ularge_integer", "unsigned__int64"] then (.unsigned, some 8, false)
  else if oneOf compact ["guid", "uuid"] then (.aggregate, some 16, false)
  else match aggregateSize compact with
    | some size => (.aggregate, some size, false)
    | none => (.unknown, none, false)

/-- Classify a type by its spelling. -/
def classifyType (t : Text) : TypeInfo :=
  let spelling := replace (trim t) "  " " "
  let compact := replace (replace (replace (lower spelling) "const" "") "volatile" "") " " ""
  let (kind, size, pointerSized) := classifyCompact compact
  { spelling, kind, size, pointerSized }

/-! ## Parameters -/

/-- A declared parameter. -/
structure Parameter where
  /-- The name, `argN` when it has none. -/
  name : Text
  /-- The type. -/
  ty : TypeInfo
  deriving DecidableEq, Repr

/-- Cut at the commas that stand outside all brackets.  `depth` is the nesting,
`current` the parameter read so far, in reverse. -/
def splitFrom : Text → Text → Nat → List Text → Except String (List Text)
  | [], current, depth, result =>
      if depth ≠ 0 then .error "unbalanced parameter type"
      else .ok (result ++ [trim current.reverse])
  | c :: cs, current, depth, result =>
      if c = '(' ∨ c = '[' ∨ c = '<' then splitFrom cs (c :: current) (depth + 1) result
      else if c = ')' ∨ c = ']' ∨ c = '>' then
        if depth = 0 then .error "unbalanced parameter type"
        else splitFrom cs (c :: current) (depth - 1) result
      else if c = ',' ∧ depth = 0 then splitFrom cs [] 0 (result ++ [trim current.reverse])
      else splitFrom cs (c :: current) depth result

/-- The parameter declarations of an argument list. -/
def splitParameters (arguments : Text) : Except String (List Text) := do
  let result ← splitFrom arguments [] 0 []
  if result.any (· == []) then .error "empty parameter declaration" else .ok result

/-- Words that end a type and are not a parameter's name. -/
def isTypeKeyword (t : Text) : Bool :=
  oneOf (lower t) ["void", "char", "short", "int", "long", "float", "double", "signed",
    "unsigned", "bool", "size_t", "ssize_t"]

/-- The name and the type spelling of an object declaration. -/
def objectParts (declaration : Text) (index : Nat) : Text × Text :=
  let unnamed := ("arg".toList ++ (toString index).toList, declaration)
  let beforeArray := trim (declaration.takeWhile (· ≠ '['))
  let candidate := lastIdent beforeArray
  let typePart := trim (beforeArray.take (beforeArray.length - candidate.length))
  if candidate = [] then unnamed
  else if typePart = [] ∨ isTypeKeyword candidate then unnamed
  else
    let arraySuffix := trim (declaration.dropWhile (· ≠ '['))
    (candidate, if arraySuffix = [] then typePart else typePart ++ ' ' :: arraySuffix)

/-- The name and the type spelling of a parameter declaration. -/
def parameterParts (t : Text) (index : Nat) : Text × Text :=
  let declaration := trim (t.takeWhile (· ≠ '='))
  match splitOnce "(*".toList declaration with
  | some (before, after) =>
      if after.contains ')' then
        (trim (after.takeWhile (· ≠ ')')), trim before ++ " *".toList)
      else objectParts declaration index
  | none => objectParts declaration index

/-- Read the declarations in order.  An ellipsis is no parameter but sets the
flag. -/
def readParameters : List Text → List Parameter × Bool → List Parameter × Bool
  | [], read => read
  | declaration :: rest, (parameters, isVariadic) =>
      if trim declaration = "...".toList then readParameters rest (parameters, true)
      else
        let (name, spelling) := parameterParts declaration parameters.length
        readParameters rest (parameters ++ [⟨name, classifyType spelling⟩], isVariadic)

/-! ## Prototypes -/

/-- The calling conventions a declaration can name. -/
inductive CallingConvention where
  | cdecl
  | stdcall
  | fastcall
  | vectorcall
  deriving DecidableEq, Repr

/-- The convention a declaration names, `cdecl` when it names none. -/
def callingConvention (declaration : Text) : CallingConvention :=
  let text := lower declaration
  let words := splitWhitespace text
  if contains text "__fastcall" || words.any (oneOf · ["fastcall"]) then .fastcall
  else if contains text "__stdcall" ||
      words.any (oneOf · ["winapi", "ntapi", "callback", "apientry", "stdcall"]) then .stdcall
  else if contains text "__vectorcall" then .vectorcall
  else .cdecl

/-- The declaration without the words that name a convention. -/
def removeCallingConvention (declaration : Text) : Text :=
  let words := (splitWhitespace declaration).filter fun word =>
    !oneOf (lower word) ["__cdecl", "cdecl", "__stdcall", "stdcall", "__fastcall", "fastcall",
      "__vectorcall", "vectorcall", "winapi", "ntapi", "callback", "apientry", "extern", "\"c\""]
  (words.intersperse [' ']).flatten

/-- A parsed prototype. -/
structure HookSignature where
  /-- The text, ended by one semicolon. -/
  prototype : Text
  /-- Where the prototype comes from. -/
  source : String
  /-- How much it is believed, in percent. -/
  confidence : Nat
  /-- The function's name. -/
  function : Text
  /-- The convention. -/
  callingConvention : CallingConvention
  /-- The returned type. -/
  returnType : TypeInfo
  /-- The fixed parameters. -/
  parameters : List Parameter
  /-- Whether the list ends with an ellipsis. -/
  isVariadic : Bool
  deriving DecidableEq, Repr

/-- The most parameters a signature may have. -/
def maxParameters : Nat := 16

/-- Whether a parameter is passed as a floating value, as far as the Hub
knows. -/
def Parameter.floating (p : Parameter) : Bool := p.ty.kind = .float32 || p.ty.kind = .float64

/-- The parameters between the outer parentheses. -/
def argumentList (arguments : Text) : Except String (List Parameter × Bool) :=
  if arguments ≠ [] ∧ arguments ≠ "void".toList then do
    return readParameters (← splitParameters arguments) ([], false)
  else .ok ([], false)

/-- Read the prototype whose outer parentheses stand at `opening` and
`closing`. -/
def parseAt (prototype : Text) (source : String) (confidence opening closing : Nat) :
    Except String HookSignature :=
  let stem := trim (prototype.take opening)
  let function := trim (lastIdent stem)
  let declaration := trim (stem.take (stem.length - (lastIdent stem).length))
  let convention := callingConvention declaration
  let returnSpelling := removeCallingConvention declaration
  if trim (prototype.drop (closing + 1)) ≠ [] then
    .error "unexpected text after function prototype"
  else if function = [] ∨ !function.all isIdent then
    .error "signature must contain a plain function name"
  else if convention = .vectorcall then
    .error "vectorcall signatures are not supported by Hook capture yet"
  else if returnSpelling = [] then .error "signature return type is missing"
  else match argumentList (trim ((prototype.take closing).drop (opening + 1))) with
    | .error e => .error e
    | .ok (parameters, isVariadic) =>
        if maxParameters < parameters.length then
          .error ("signature has " ++ toString parameters.length ++
            " fixed parameters; capture limit is " ++ toString maxParameters)
        else if convention = .fastcall ∧ (parameters.take 2).any Parameter.floating then
          .error "x86 fastcall floating parameters in the first two positions are unsupported"
        else .ok {
          prototype := prototype ++ [';'], source, confidence, function,
          callingConvention := convention, returnType := classifyType returnSpelling,
          parameters, isVariadic }

/-- Read a prototype. -/
def parse (text : Text) (source : String) (confidence : Nat) : Except String HookSignature :=
  let prototype := trim ((trim text).rdropWhile (· = ';'))
  if prototype = [] ∨ 2048 < Utf8.size prototype then
    .error "signature must contain 1..2048 bytes"
  else if source ∉ ["pdb", "header", "manual", "ai_inferred"] then
    .error "signature_source must be pdb, header, manual, or ai_inferred"
  else if 100 < confidence then .error "signature_confidence must be 0..100"
  else match prototype.findIdx? (· = '(') with
    | none => .error "signature must be a C-like function prototype"
    | some opening =>
        match (rfind ')' prototype).filter (opening < ·) with
        | none => .error "signature is missing the closing ')'"
        | some closing => parseAt prototype source confidence opening closing

/-! ## Capture layouts -/

/-- What the Agent is told about a signature. -/
structure CaptureLayout where
  /-- 1 for `fastcall`, 0 otherwise. -/
  callingConvention : Nat
  /-- The code of the returned kind. -/
  returnKind : Nat
  /-- The number of parameters. -/
  parameterCount : Nat
  /-- Bit `i` is set when parameter `i` is floating. -/
  floatParameterMask : Nat
  deriving DecidableEq, Repr

/-- The mask of the parameters from an index on. -/
def floatMaskFrom : Nat → List Parameter → Nat
  | _, [] => 0
  | index, p :: ps =>
      (if p.ty.kind.captureCode ≠ 0 then 1 <<< index else 0) ||| floatMaskFrom (index + 1) ps

/-- The capture layout of a signature. -/
def HookSignature.captureLayout (sig : HookSignature) : CaptureLayout where
  callingConvention := if sig.callingConvention = .fastcall then 1 else 0
  returnKind := sig.returnType.kind.captureCode
  parameterCount := sig.parameters.length
  floatParameterMask := floatMaskFrom 0 sig.parameters

/-! ## What is accepted -/

/-- The signatures that reach the Agent. -/
structure HookSignature.Admissible (sig : HookSignature) : Prop where
  /-- There is a slot for every parameter. -/
  length_le : sig.parameters.length ≤ maxParameters
  /-- Vector calls are refused. -/
  convention_ne : sig.callingConvention ≠ .vectorcall
  /-- The register parameters of `fastcall` are not floating. -/
  fastcall (h : sig.callingConvention = .fastcall) :
    ∀ p ∈ sig.parameters.take 2, p.floating = false

theorem parseAt_admissible {prototype : Text} {source : String} {confidence opening closing : Nat}
    {sig : HookSignature} (h : parseAt prototype source confidence opening closing = .ok sig) :
    sig.Admissible := by
  simp only [parseAt] at h
  split at h
  · exact nomatch h
  split at h
  · exact nomatch h
  split at h
  · exact nomatch h
  next hconvention =>
  split at h
  · exact nomatch h
  split at h
  · exact nomatch h
  split at h
  · exact nomatch h
  next hlength =>
  split at h
  · exact nomatch h
  next hfloating =>
    cases h
    refine ⟨?_, ?_, ?_⟩ <;> dsimp only
    · exact Nat.not_lt.mp hlength
    · exact hconvention
    · intro hfast p hp
      by_contra hp'
      rw [Bool.not_eq_false] at hp'
      exact hfloating ⟨hfast, List.any_eq_true.mpr ⟨p, hp, hp'⟩⟩

theorem parse_admissible {text : Text} {source : String} {confidence : Nat}
    {sig : HookSignature} (h : parse text source confidence = .ok sig) : sig.Admissible := by
  simp only [parse] at h
  split at h
  · exact nomatch h
  split at h
  · exact nomatch h
  split at h
  · exact nomatch h
  split at h
  · exact nomatch h
  split at h
  · exact nomatch h
  · exact parseAt_admissible h

/-! ## The mask -/

theorem Parameter.floating_iff (p : Parameter) :
    p.floating = true ↔ p.ty.kind.captureCode ≠ 0 := by
  cases hkind : p.ty.kind <;> simp [Parameter.floating, ValueKind.captureCode, hkind]

theorem testBit_floatMaskFrom (first : Nat) (ps : List Parameter) (i : Nat) :
    (floatMaskFrom first ps).testBit i = true ↔
      ∃ k p, i = first + k ∧ ps[k]? = some p ∧ p.floating = true := by
  induction ps generalizing first with
  | nil => simp [floatMaskFrom]
  | cons p ps ih =>
      have hhead : (if p.ty.kind.captureCode ≠ 0 then 1 <<< first else 0).testBit i = true ↔
          i = first ∧ p.floating = true := by
        rw [p.floating_iff]
        split
        next h => simp [h, Nat.shiftLeft_eq, Nat.testBit_two_pow, eq_comm]
        next h => simp [h]
      rw [floatMaskFrom, Nat.testBit_or, Bool.or_eq_true, ih, hhead]
      constructor
      · rintro (⟨rfl, hp⟩ | ⟨k, q, rfl, hk, hq⟩)
        · exact ⟨0, p, rfl, rfl, hp⟩
        · exact ⟨k + 1, q, by omega, hk, hq⟩
      · rintro ⟨k, q, rfl, hk, hq⟩
        cases k with
        | zero => exact .inl ⟨rfl, by cases hk; exact hq⟩
        | succ k => exact .inr ⟨k, q, by omega, hk, hq⟩

/-- Bit `i` of the mask is set when parameter `i` is floating. -/
theorem HookSignature.testBit_mask (sig : HookSignature) (i : Nat) :
    sig.captureLayout.floatParameterMask.testBit i = true ↔
      ∃ p, sig.parameters[i]? = some p ∧ p.floating = true := by
  rw [HookSignature.captureLayout, testBit_floatMaskFrom]
  simp

end PinBridge.Hooks
