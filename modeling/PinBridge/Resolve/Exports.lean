import PinBridge.Lib.Fallible
import PinBridge.Lib.LittleEndian
import PinBridge.Lib.Nearest
import PinBridge.Lib.PartialMemory
import PinBridge.Query.Server

/-!
# Export tables

`parse_exports` reads the named exports of an image from the memory of the target.  `read_mem` gives
the bytes of a range only if all of them are readable, and the whole parse fails with the first read
that does.

`Table` is what an export table says, and `Table.HeldBy` how an image holds it: the headers lead to
the export directory, which leads to the functions, the names and the ordinals.  A name is held with
its NUL.  `parseExports_eq` computes the parse of such an image.  It fails if the directory counts
too many entries or no name, and if fewer than 128 bytes are readable at some name
(`Table.Accepted`).  Otherwise it gives the exports of the table, sorted by address.

Sums of addresses wrap around, as in a release build.
-/

namespace PinBridge.Resolve

open LittleEndian
open PartialMemory (Holds)
open Query (ExportEntry)
open Utf8 (fromUtf8Lossy lossyFrom)

/-! ## Memory -/

/-- The readable bytes of a process. -/
structure Memory where
  cell : ℕ → Option UInt8
  bounded : ∀ address, 2 ^ 64 ≤ address → cell address = none

/-- `read_mem`.  `pb_pin_safe_copy` copies up to the first byte that is not readable. -/
def readMem (memory : Memory) (address : UInt64) (size : ℕ) : Option (List UInt8) :=
  let copied := PartialMemory.read memory.cell address.toNat size
  if copied.length ≠ size then none else some copied

/-- `read_u16`, `read_u32` and `read_u64`, by their number of bytes. -/
def readUint (memory : Memory) (address : UInt64) (width : ℕ) : Option ℕ :=
  (readMem memory address width).map decode

/-- `u32::from_le_bytes(bytes[start..start + 4])`, for any width. -/
def field (bytes : List UInt8) (start width : ℕ) : ℕ := decode ((bytes.drop start).take width)

/-! ## Parsing -/

/-- What `parse_exports` reads from `IMAGE_EXPORT_DIRECTORY`. -/
structure Directory where
  numFuncs : ℕ
  numNames : ℕ
  funcsRva : UInt64
  namesRva : UInt64
  ordsRva : UInt64

/-- The fields of the directory. -/
def Directory.ofBytes (dir : List UInt8) : Directory where
  numFuncs := field dir 20 4
  numNames := field dir 24 4
  funcsRva := .ofNat (field dir 28 4)
  namesRva := .ofNat (field dir 32 4)
  ordsRva := .ofNat (field dir 36 4)

/-- Where the data directory of an optional header starts. -/
def dataDirectoryOffset (magic : ℕ) : Option UInt64 :=
  if magic = 0x10b then some 96 else if magic = 0x20b then some 112 else none

/-- The part of `parse_exports` up to the address of the export directory. -/
def exportRva (memory : Memory) (base : UInt64) : Option UInt64 := do
  let header ← readMem memory base 0x40
  let peOff := UInt64.ofNat (field header 0x3c 4)
  let magic ← readUint memory (base + peOff + 24) 2
  let offset ← dataDirectoryOffset magic
  let rva ← readUint memory (base + peOff + 24 + offset) 4
  if rva = 0 then none else some (.ofNat rva)

/-- One round of the loop of `parse_exports`: what it pushes, or the failed read. -/
def exportRow (memory : Memory) (base : UInt64) (dir : Directory) (nameRvas ords : List UInt8)
    (i : ℕ) : Option (List ExportEntry) :=
  let nameRva := UInt64.ofNat (field nameRvas (4 * i) 4)
  let ord := field ords (2 * i) 2
  if ord ≥ dir.numFuncs then some []
  else do
    let funcRva ← readUint memory (base + dir.funcsRva + .ofNat (4 * ord)) 4
    if funcRva = 0 then some []
    else
      let raw ← readMem memory (base + nameRva) 128
      let name := fromUtf8Lossy (raw.takeWhile (· ≠ 0))
      if name.isEmpty then some [] else some [{ rva := .ofNat funcRva, name }]

/-- The loop of `parse_exports`. -/
def exportRows (memory : Memory) (base : UInt64) (dir : Directory) (nameRvas ords : List UInt8) :
    Option (List ExportEntry) :=
  (List.range dir.numNames).foldlM
    (fun out i => (exportRow memory base dir nameRvas ords i).map (out ++ ·)) []

/-- `sort_by_key`. -/
def sortByRva (entries : List ExportEntry) : List ExportEntry :=
  entries.insertionSort fun a b => a.rva.toNat ≤ b.rva.toNat

def parseExports (memory : Memory) (base : UInt64) : Option (List ExportEntry) := do
  let rva ← exportRva memory base
  let dir ← (readMem memory (base + rva) 40).map Directory.ofBytes
  if dir.numNames = 0 ∨ dir.numNames > 65536 ∨ dir.numFuncs > 65536 then none
  else
    let nameRvas ← readMem memory (base + dir.namesRva) (dir.numNames * 4)
    let ords ← readMem memory (base + dir.ordsRva) (dir.numNames * 2)
    let out ← exportRows memory base dir nameRvas ords
    return sortByRva out

/-! ## Tables -/

/-- A name of an export table. -/
structure Line where
  nameRva : UInt32
  ordinal : UInt16
  name : List UInt8

/-- An export table. -/
structure Table where
  functions : List UInt32
  lines : List Line

/-- The address of a line, unless its ordinal is out of range or its address is zero. -/
def Table.rva (t : Table) (line : Line) : Option UInt32 :=
  (t.functions[line.ordinal.toNat]?).filter (· ≠ 0)

/-- The named exports. -/
def Table.exports (t : Table) : List ExportEntry :=
  t.lines.filterMap fun line =>
    (t.rva line).map fun rva => { rva, name := fromUtf8Lossy line.name }

/-- The headers of an image lead to an export directory. -/
def Leads (memory : Memory) (base rva : UInt64) : Prop :=
  ∃ (dos : List UInt8) (peOff magic value : ℕ) (offset : UInt64),
    dos.length = 0x3c ∧ peOff < 2 ^ 32 ∧
      Holds memory.cell base.toNat (dos ++ encode 4 peOff) ∧
      (magic = 0x10b ∧ offset = 96 ∨ magic = 0x20b ∧ offset = 112) ∧
      Holds memory.cell (base + .ofNat peOff + 24).toNat (encode 2 magic) ∧
      value < 2 ^ 32 ∧ value ≠ 0 ∧ rva = .ofNat value ∧
      Holds memory.cell (base + .ofNat peOff + 24 + offset).toNat (encode 4 value)

/-- The export directory of a table, whose arrays are at these offsets. -/
def Table.directory (t : Table) (lead : List UInt8) (funcs names ords : UInt32) : List UInt8 :=
  lead ++ (encode 4 t.functions.length ++ (encode 4 t.lines.length ++
    (encode 4 funcs.toNat ++ (encode 4 names.toNat ++ encode 4 ords.toNat))))

/-- The memory holds an image with this export table. -/
structure Table.HeldBy (t : Table) (memory : Memory) (base : UInt64) : Prop where
  functions_lt : t.functions.length < 2 ^ 32
  lines_lt : t.lines.length < 2 ^ 32
  directory : ∃ (rva : UInt64) (lead : List UInt8) (funcs names ords : UInt32),
    Leads memory base rva ∧ lead.length = 20 ∧
      Holds memory.cell (base + rva).toNat (t.directory lead funcs names ords) ∧
      Holds memory.cell (base + funcs.toUInt64).toNat
        (t.functions.flatMap fun rva => encode 4 rva.toNat) ∧
      Holds memory.cell (base + names.toUInt64).toNat
        (t.lines.flatMap fun line => encode 4 line.nameRva.toNat) ∧
      Holds memory.cell (base + ords.toUInt64).toNat
        (t.lines.flatMap fun line => encode 2 line.ordinal.toNat)
  named : ∀ line ∈ t.lines, (t.rva line).isSome →
    line.name ≠ [] ∧ line.name.length ≤ 127 ∧ 0 ∉ line.name ∧
      Holds memory.cell (base + line.nameRva.toUInt64).toNat (line.name ++ [0])

/-- The conditions of `parse_exports` that an image need not meet. -/
structure Table.Accepted (t : Table) (memory : Memory) (base : UInt64) : Prop where
  functions_le : t.functions.length ≤ 65536
  lines_pos : 0 < t.lines.length
  lines_le : t.lines.length ≤ 65536
  window : ∀ line ∈ t.lines, (t.rva line).isSome →
    ∀ i < 128, (memory.cell ((base + line.nameRva.toUInt64).toNat + i)).isSome

/-! ## Reads -/

variable {memory : Memory} {address base : UInt64} {size width value : ℕ} {bytes : List UInt8}

theorem readMem_eq_some :
    readMem memory address size = some bytes ↔
      bytes.length = size ∧ Holds memory.cell address.toNat bytes := by
  rw [readMem]
  split
  next hshort =>
    refine iff_of_false nofun fun ⟨hlength, hholds⟩ => hshort ?_
    rw [← hlength, hholds.read]
  next hfull =>
    rw [Option.some_inj]
    constructor
    · rintro rfl
      exact ⟨not_not.mp hfull, PartialMemory.holds_read _ _ _⟩
    · rintro ⟨rfl, hholds⟩
      exact hholds.read

theorem readMem_isSome :
    (readMem memory address size).isSome ↔
      ∀ i < size, (memory.cell (address.toNat + i)).isSome := by
  rw [← PartialMemory.length_read_eq, readMem]
  split
  next hshort => exact iff_of_false (by simp) hshort
  next hfull => exact iff_of_true rfl (not_not.mp hfull)

theorem readMem_of_holds (h : Holds memory.cell address.toNat bytes) (hsize : bytes.length = size) :
    readMem memory address size = some bytes :=
  readMem_eq_some.mpr ⟨hsize, h⟩

theorem readUint_of_holds (h : Holds memory.cell address.toNat (encode width value))
    (hvalue : value < 256 ^ width) : readUint memory address width = some value := by
  rw [readUint, readMem_of_holds h (length_encode _ _), Option.map_some, decode_encode_of_lt hvalue]

theorem readUint_eq_some (h : readUint memory address width = some value) :
    value < 256 ^ width ∧ Holds memory.cell address.toNat (encode width value) := by
  obtain ⟨bytes, hread, rfl⟩ := Option.map_eq_some_iff.mp h
  obtain ⟨rfl, hholds⟩ := readMem_eq_some.mp hread
  refine ⟨decode_lt bytes, ?_⟩
  rw [encode_decode]
  exact hholds

/-- An address inside a list that the memory holds does not wrap around. -/
theorem toNat_add_of_holds (h : Holds memory.cell address.toNat bytes) {i : ℕ}
    (hi : i < bytes.length) : (address + .ofNat i).toNat = address.toNat + i := by
  have hcell := h i hi
  rw [List.getElem?_eq_getElem hi] at hcell
  have hlt : address.toNat + i < 2 ^ 64 := by
    by_contra hge
    rw [memory.bounded _ (not_lt.mp hge)] at hcell
    exact absurd hcell nofun
  rw [UInt64.toNat_add, UInt64.toNat_ofNat', Nat.add_mod_mod, Nat.mod_eq_of_lt hlt]

theorem field_append {lead : List UInt8} {start : ℕ} (hlead : lead.length = start)
    (hvalue : value < 256 ^ width) (rest : List UInt8) :
    field (lead ++ (encode width value ++ rest)) start width =
      value := by
  rw [field, ← hlead, List.drop_left, List.take_left' (length_encode _ _),
    decode_encode_of_lt hvalue]

/-! ## Headers -/

theorem dataDirectoryOffset_eq_some {magic : ℕ} {offset : UInt64} :
    dataDirectoryOffset magic = some offset ↔
      magic = 0x10b ∧ offset = 96 ∨ magic = 0x20b ∧ offset = 112 := by
  rw [dataDirectoryOffset]
  split
  next h =>
    subst h
    simp [eq_comm]
  next h =>
    split
    next h' =>
      subst h'
      simp [eq_comm]
    next h' => simp [h, h']

theorem exportRva_eq_some {rva : UInt64} :
    exportRva memory base = some rva ↔ Leads memory base rva := by
  constructor
  · intro h
    simp only [exportRva, Option.bind_eq_bind, Option.bind_eq_some_iff] at h
    obtain ⟨header, hheader, magic, hmagic, offset, hoffset, value, hvalue, h⟩ := h
    obtain ⟨hlength, hheader⟩ := readMem_eq_some.mp hheader
    have hlast : (header.drop 0x3c).length = 4 := by rw [List.length_drop, hlength]
    have hfield : field header 0x3c 4 = decode (header.drop 0x3c) := by
      rw [field, List.take_of_length_le hlast.le]
    have hpe : encode 4 (field header 0x3c 4) = header.drop 0x3c := by
      rw [hfield, ← hlast, encode_decode]
    split at h
    next => exact absurd h nofun
    next hne =>
      refine ⟨header.take 0x3c, field header 0x3c 4, magic, value, offset, ?_, ?_, ?_,
        dataDirectoryOffset_eq_some.mp hoffset, (readUint_eq_some hmagic).2,
        (readUint_eq_some hvalue).1, hne, (Option.some.inj h).symm, (readUint_eq_some hvalue).2⟩
      · rw [List.length_take, hlength]
        rfl
      · rw [hfield]
        have hlt := decode_lt (header.drop 0x3c)
        rwa [hlast] at hlt
      · rw [hpe, List.take_append_drop]
        exact hheader
  · rintro ⟨dos, peOff, magic, value, offset, hdos, hpe, hheader, hoffset, hmagic, hvalue, hne, rfl,
      hrva⟩
    have hlength : (dos ++ encode 4 peOff).length = 0x40 := by
      rw [List.length_append, hdos, length_encode]
    have hfield : field (dos ++ encode 4 peOff) 0x3c 4 = peOff := by
      have happ := field_append hdos (show peOff < 256 ^ 4 from hpe) []
      rwa [List.append_nil] at happ
    have hmagic' : magic < 256 ^ 2 := by omega
    simp only [exportRva, Option.bind_eq_bind, readMem_of_holds hheader hlength, Option.bind_some,
      hfield, readUint_of_holds hmagic hmagic', dataDirectoryOffset_eq_some.mpr hoffset,
      readUint_of_holds hrva (show value < 256 ^ 4 from hvalue), if_neg hne]

/-- An image without an export directory has no exports to parse. -/
theorem parseExports_of_bare (h : ∀ rva, ¬ Leads memory base rva) :
    parseExports memory base = none := by
  have hnone : exportRva memory base = none := by
    rw [Option.eq_none_iff_forall_ne_some]
    exact fun rva hrva => h rva (exportRva_eq_some.mp hrva)
  rw [parseExports, hnone]
  rfl

/-! ## Rows -/

theorem lossy_ne_nil {name : List UInt8} (h : name ≠ []) : fromUtf8Lossy name ≠ [] := by
  obtain ⟨b, bs, rfl⟩ := List.exists_cons_of_ne_nil h
  rw [fromUtf8Lossy, List.length_cons, lossyFrom]
  split
  next => exact List.cons_ne_nil _ _
  next => exact List.cons_ne_nil _ _

/-- The part of a read before its first NUL is the name that stands there. -/
theorem takeWhile_of_holds {name raw : List UInt8} (h0 : 0 ∉ name)
    (hname : Holds memory.cell address.toNat (name ++ [0]))
    (hraw : Holds memory.cell address.toNat raw) (hle : name.length < raw.length) :
    (raw.takeWhile (· ≠ 0)) = name := by
  obtain ⟨rest, rfl⟩ := hname.prefix hraw (by rw [List.length_append]; exact hle)
  rw [List.append_assoc, List.takeWhile_append_of_pos, List.singleton_append,
    List.takeWhile_cons_of_neg (by simp), List.append_nil]
  intro b hb
  simpa using ne_of_mem_of_not_mem hb h0

/-- What a line adds to the exports. -/
def Table.entry (t : Table) (line : Line) : Option ExportEntry :=
  (t.rva line).map fun rva => { rva, name := fromUtf8Lossy line.name }

variable {t : Table} {dir : Directory} {line : Line} {i : ℕ}

/-- The arrays of a table stand where the directory says. -/
structure Table.PlacedBy (t : Table) (memory : Memory) (base : UInt64) (dir : Directory) :
    Prop where
  numFuncs : dir.numFuncs = t.functions.length
  numNames : dir.numNames = t.lines.length
  functions : Holds memory.cell (base + dir.funcsRva).toNat
    (t.functions.flatMap fun rva => encode 4 rva.toNat)
  names : Holds memory.cell (base + dir.namesRva).toNat
    (t.lines.flatMap fun line => encode 4 line.nameRva.toNat)
  ordinals : Holds memory.cell (base + dir.ordsRva).toNat
    (t.lines.flatMap fun line => encode 2 line.ordinal.toNat)

/-- The address of a function is read from the function table. -/
theorem Table.PlacedBy.readUint_function (h : t.PlacedBy memory base dir) {ord : ℕ} {rva : UInt32}
    (hrva : t.functions[ord]? = some rva) :
    readUint memory (base + dir.funcsRva + .ofNat (4 * ord)) 4 = some rva.toNat := by
  have hlt : ord < t.functions.length := (List.getElem?_eq_some_iff.mp hrva).1
  have hlength : (t.functions.flatMap fun rva => encode 4 rva.toNat).length =
      4 * t.functions.length :=
    length_flatMap_of_length (fun _ => length_encode 4 _) _
  have hblock := take_drop_flatMap (fun rva : UInt32 => length_encode 4 rva.toNat) hrva
  have hat : (base + dir.funcsRva + .ofNat (4 * ord)).toNat =
      (base + dir.funcsRva).toNat + 4 * ord :=
    toNat_add_of_holds h.functions (by omega)
  refine readUint_of_holds ?_ rva.toNat_lt
  rw [hat, ← hblock]
  exact h.functions.slice _ _

/-- The name table and the ordinals give the fields of a line. -/
theorem field_names (t : Table) (hline : t.lines[i]? = some line) :
    field (t.lines.flatMap fun line => encode 4 line.nameRva.toNat) (4 * i) 4 =
      line.nameRva.toNat := by
  rw [field, take_drop_flatMap (fun line : Line => length_encode 4 line.nameRva.toNat) hline]
  exact decode_encode_of_lt line.nameRva.toNat_lt

theorem field_ordinals (t : Table) (hline : t.lines[i]? = some line) :
    field (t.lines.flatMap fun line => encode 2 line.ordinal.toNat) (2 * i) 2 =
      line.ordinal.toNat := by
  rw [field, take_drop_flatMap (fun line : Line => length_encode 2 line.ordinal.toNat) hline]
  exact decode_encode_of_lt line.ordinal.toNat_lt

/-- A round of the loop pushes the export of its line if the window at the name is readable. -/
theorem Table.PlacedBy.exportRow_eq (h : t.PlacedBy memory base dir) (hheld : t.HeldBy memory base)
    (hline : t.lines[i]? = some line) :
    exportRow memory base dir (t.lines.flatMap fun line => encode 4 line.nameRva.toNat)
        (t.lines.flatMap fun line => encode 2 line.ordinal.toNat) i =
      match t.rva line with
      | none => some []
      | some _ =>
          (readMem memory (base + line.nameRva.toUInt64) 128).map fun _ =>
            (t.entry line).toList := by
  have hname : UInt64.ofNat line.nameRva.toNat = line.nameRva.toUInt64 :=
    UInt64.ofNat_uInt32ToNat _
  have hnamed := hheld.named line (List.mem_of_getElem? hline)
  rw [exportRow]
  simp only [field_names t hline, field_ordinals t hline, h.numFuncs, hname, Table.entry]
  rw [Table.rva] at hnamed ⊢
  cases hfunction : t.functions[line.ordinal.toNat]? with
  | none =>
      rw [if_pos (List.getElem?_eq_none_iff.mp hfunction)]
      rfl
  | some rva =>
      have hlt : line.ordinal.toNat < t.functions.length :=
        (List.getElem?_eq_some_iff.mp hfunction).1
      rw [if_neg (not_le.mpr hlt), h.readUint_function hfunction, Option.bind_eq_bind,
        Option.bind_some, Option.filter_some]
      by_cases hzero : rva = 0
      · subst hzero
        rfl
      · have hne : rva.toNat ≠ 0 := fun heq => hzero (UInt32.toNat_inj.mp heq)
        rw [hfunction, Option.filter_some] at hnamed
        simp only [show decide (rva ≠ 0) = true from decide_eq_true hzero, if_true,
          Option.isSome_some, forall_const] at hnamed
        obtain ⟨hnil, hlength, h0, hholds⟩ := hnamed
        rw [if_neg hne]
        simp only [show decide (rva ≠ 0) = true from decide_eq_true hzero, if_true, Option.map_some,
          Option.toList_some]
        cases hraw : readMem memory (base + line.nameRva.toUInt64) 128 with
        | none => rfl
        | some raw =>
            obtain ⟨hsize, hraw⟩ := readMem_eq_some.mp hraw
            simp only [Option.bind_eq_bind, Option.bind_some, Option.map_some]
            rw [takeWhile_of_holds h0 hholds hraw (by omega),
              if_neg (by simpa using lossy_ne_nil hnil), UInt32.ofNat_toNat]

/-! ## Tables -/

theorem Table.HeldBy.exists_placed (h : t.HeldBy memory base) :
    ∃ rva dir, exportRva memory base = some rva ∧
      (readMem memory (base + rva) 40).map Directory.ofBytes = some dir ∧
      t.PlacedBy memory base dir := by
  obtain ⟨rva, lead, funcs, names, ords, hleads, hlead, hdir, hfuncs, hnames, hords⟩ := h.directory
  have hlength : (t.directory lead funcs names ords).length = 40 := by
    simp [Table.directory, hlead]
  have hdirectory : Directory.ofBytes (t.directory lead funcs names ords) =
      { numFuncs := t.functions.length, numNames := t.lines.length, funcsRva := funcs.toUInt64,
        namesRva := names.toUInt64, ordsRva := ords.toUInt64 } := by
    have hlast : decode ((encode 4 ords.toNat).take 4) = ords.toNat := by
      rw [List.take_of_length_le (length_encode _ _).le, decode_encode_of_lt ords.toNat_lt]
    simpa [Directory.ofBytes, Table.directory, field, List.drop_append, hlead,
      List.drop_eq_nil_of_le, decode_encode, hlast] using And.intro h.functions_lt h.lines_lt
  refine ⟨rva, _, exportRva_eq_some.mpr hleads, by rw [readMem_of_holds hdir hlength]; rfl, ?_⟩
  rw [hdirectory]
  exact ⟨rfl, rfl, hfuncs, hnames, hords⟩

/-- The parse of a placed table, up to its loop. -/
theorem Table.PlacedBy.parseExports_eq (h : t.PlacedBy memory base dir) {rva : UInt64}
    (hrva : exportRva memory base = some rva)
    (hdir : (readMem memory (base + rva) 40).map Directory.ofBytes = some dir) :
    parseExports memory base =
      if t.lines.length = 0 ∨ t.lines.length > 65536 ∨ t.functions.length > 65536 then none
      else (exportRows memory base dir (t.lines.flatMap fun line => encode 4 line.nameRva.toNat)
        (t.lines.flatMap fun line => encode 2 line.ordinal.toNat)).map sortByRva := by
  have hnames := length_flatMap_of_length (fun line : Line => length_encode 4 line.nameRva.toNat)
    t.lines
  have hords := length_flatMap_of_length (fun line : Line => length_encode 2 line.ordinal.toNat)
    t.lines
  rw [parseExports, hrva, Option.bind_eq_bind, Option.bind_some, hdir, Option.bind_eq_bind,
    Option.bind_some, h.numNames, h.numFuncs]
  split
  next => rfl
  next =>
    rw [readMem_of_holds h.names (by rw [hnames, Nat.mul_comm]), Option.bind_eq_bind,
      Option.bind_some, readMem_of_holds h.ordinals (by rw [hords, Nat.mul_comm]),
      Option.bind_eq_bind, Option.bind_some]
    cases exportRows memory base dir (t.lines.flatMap fun line => encode 4 line.nameRva.toNat)
      (t.lines.flatMap fun line => encode 2 line.ordinal.toNat) with
    | none => rfl
    | some out => rfl

/-- The parse of an image that meets the conditions gives its exports, sorted. -/
theorem parseExports_of_accepted (h : t.HeldBy memory base) (haccepted : t.Accepted memory base) :
    parseExports memory base = some (sortByRva t.exports) := by
  obtain ⟨rva, dir, hrva, hdir, hplaced⟩ := h.exists_placed
  have hcounts : ¬ (t.lines.length = 0 ∨ t.lines.length > 65536 ∨ t.functions.length > 65536) := by
    have := haccepted.functions_le
    have := haccepted.lines_pos
    have := haccepted.lines_le
    omega
  rw [hplaced.parseExports_eq hrva hdir, if_neg hcounts, exportRows, hplaced.numNames,
    Fallible.foldlM_push (g := fun i => (t.lines[i]?.bind t.entry).toList), List.nil_append,
    Option.map_some, Fallible.flatMap_range]
  · rfl
  · intro i hi
    obtain ⟨line, hline⟩ : ∃ line, t.lines[i]? = some line :=
      ⟨_, List.getElem?_eq_getElem (List.mem_range.mp hi)⟩
    rw [hplaced.exportRow_eq h hline, hline, Option.bind_some, Table.entry]
    cases hr : t.rva line with
    | none => rfl
    | some rva =>
        have hwindow := haccepted.window line (List.mem_of_getElem? hline) (by rw [hr]; rfl)
        obtain ⟨raw, hraw⟩ := Option.isSome_iff_exists.mp (readMem_isSome.mpr hwindow)
        rw [hraw]
        rfl

/-- The parse of any other image fails. -/
theorem parseExports_of_refused (h : t.HeldBy memory base) (hrefused : ¬ t.Accepted memory base) :
    parseExports memory base = none := by
  obtain ⟨rva, dir, hrva, hdir, hplaced⟩ := h.exists_placed
  rw [hplaced.parseExports_eq hrva hdir]
  split
  next => rfl
  next hcounts =>
    obtain ⟨line, hline, hsome, hwindow⟩ : ∃ line ∈ t.lines, (t.rva line).isSome ∧
        ¬ ∀ i < 128, (memory.cell ((base + line.nameRva.toUInt64).toNat + i)).isSome := by
      by_contra hall
      refine hrefused ⟨by omega, by omega, by omega, fun line hline hsome => ?_⟩
      by_contra hwindow
      exact hall ⟨line, hline, hsome, hwindow⟩
    obtain ⟨i, hi, rfl⟩ := List.mem_iff_getElem.mp hline
    have hline' : t.lines[i]? = some t.lines[i] := List.getElem?_eq_getElem hi
    rw [exportRows, hplaced.numNames, Fallible.foldlM_push_of_none (List.mem_range.mpr hi)]
    · rfl
    · rw [hplaced.exportRow_eq h hline']
      obtain ⟨rva, hr⟩ := Option.isSome_iff_exists.mp hsome
      rw [hr]
      dsimp only
      rw [Option.map_eq_none_iff, ← Option.not_isSome_iff_eq_none, readMem_isSome]
      exact hwindow

end PinBridge.Resolve
