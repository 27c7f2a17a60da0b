import Mathlib.Data.List.Pairwise
import PinBridge.Resolve.Resolver

/-!
# Resolutions and images

What an address should resolve to is said here from the modules that are loaded and from the export
tables of their images (`Answers`).  An import thunk stands for the address in its slot (`Stands`).

`agreement_iff` says when the resolver gives these answers.  `parse_exports` has to accept the
tables (`Table.Accepted`), and no import thunk may lie near an export: the window of
`resolve_inner` is searched before the thunk is followed.  The resolution of a name always
resolves back to the module and to an export (`resolveName_agrees`).
-/

namespace PinBridge.Resolve

open LittleEndian
open Nearest (lastAtMost IsNearest)
open PartialMemory (Holds)
open Query (ExportEntry ResolverModule Resolution eqIgnoreAsciiCase)
open Utf8 (Text)

/-! ## Images -/

/-- An address is in the range of a module. -/
def Contains (m : ResolverModule) (address : UInt64) : Prop := m.low ≤ address ∧ address < m.high

instance (m : ResolverModule) (address : UInt64) : Decidable (Contains m address) :=
  inferInstanceAs (Decidable (_ ∧ _))

/-- The ranges of the modules are disjoint. -/
structure Disjoint (loaded : List ResolverModule) : Prop where
  nonempty : ∀ m ∈ loaded, m.low < m.high
  apart : loaded.Pairwise fun m m' => m.high ≤ m'.low ∨ m'.high ≤ m.low

/-- The memory holds the table of a module, or no export directory if the module has none. -/
def Shows (memory : Memory) (tables : UInt64 → Option Table) (m : ResolverModule) : Prop :=
  match tables m.low with
  | some t => t.HeldBy memory m.low
  | none => ∀ rva, ¬ Leads memory m.low rva

/-- The named exports of a module. -/
def exportsIn (tables : UInt64 → Option Table) (m : ResolverModule) : List ExportEntry :=
  (tables m.low).elim [] Table.exports

/-- An export with the greatest address up to an offset. -/
abbrev Precedes (entries : List ExportEntry) (off : UInt64) : ExportEntry → Prop :=
  IsNearest (fun e : ExportEntry => e.rva.toNat) entries off.toNat

/-- A jump through a slot that holds another address. -/
def Thunk (memory : Memory) (is64 : Bool) (address target : UInt64) : Prop :=
  ∃ disp : UInt32,
    Holds memory.cell address.toNat ([0xFF, 0x25] ++ encode 4 disp.toNat) ∧
      Holds memory.cell (importSlot is64 address disp).toNat
        (encode (pointerSize is64) target.toNat) ∧
      target.toNat < 256 ^ pointerSize is64 ∧ target ≠ address

/-- The address that an address stands for: the target of a thunk in a module. -/
def Stands (memory : Memory) (is64 : Bool) (loaded : List ResolverModule)
    (address place : UInt64) : Prop :=
  (∃ m ∈ loaded, Contains m address) ∧ Thunk memory is64 address place ∨
    (¬ ∃ m ∈ loaded, Contains m address ∧ ∃ target, Thunk memory is64 address target) ∧
      place = address

/-- What the modules and the tables say of an address. -/
inductive Answers (loaded : List ResolverModule) (tables : UInt64 → Option Table)
    (place : UInt64) : Resolution → Prop
  | outside : (∀ m ∈ loaded, ¬ Contains m place) → Answers loaded tables place outside
  | exported {m : ResolverModule} {e : ExportEntry} : m ∈ loaded → Contains m place →
      Precedes (exportsIn tables m) (place - m.low) e →
      place - m.low - e.rva.toUInt64 ≤ 0x2000 →
      Answers loaded tables place (exported m e (place - m.low - e.rva.toUInt64))
  | unnamed {m : ResolverModule} : m ∈ loaded → Contains m place →
      (∀ e, Precedes (exportsIn tables m) (place - m.low) e →
        0x2000 < place - m.low - e.rva.toUInt64) →
      Answers loaded tables place (unnamed m (place - m.low))

/-- The resolver agrees with the images, after any calls. -/
structure Agreement (memory : Memory) (is64 : Bool) (loaded : List ResolverModule)
    (tables : UInt64 → Option Table) : Prop where
  exports : ∀ m ∈ loaded, ∀ t, tables m.low = some t →
    ∃ entries, parseExports memory m.low = some entries ∧ entries.Perm t.exports ∧
      entries.Pairwise fun a b => a.rva.toNat ≤ b.rva.toNat
  addresses : ∀ r, Reached memory is64 r → ∀ address place,
    Stands memory is64 loaded address place →
      Answers loaded tables place (resolveOne memory is64 loaded address r).1
  names : ∀ r r', Reached memory is64 r → Reached memory is64 r' → ∀ spec address,
    (resolveName memory loaded spec r).1 = some address →
      ∃ m ∈ loaded, ∃ moduleName exportName, splitOnce spec '!' = some (moduleName, exportName) ∧
        eqIgnoreAsciiCase m.short moduleName ∧
        (Contains m address → (¬ ∃ target, Thunk memory is64 address target) →
          ∃ e ∈ exportsIn tables m,
            (resolveOne memory is64 loaded address r').1 = exported m e 0)

/-- The export that the resolver takes: of the nearest ones, the last in the table. -/
def Chosen (entries : List ExportEntry) (off : UInt64) (e : ExportEntry) : Prop :=
  Precedes entries off e ∧
    (entries.filter fun e' => e'.rva.toNat = e.rva.toNat).getLast? = some e

/-- The parse accepts every table, and a thunk near an export leads to the same module and as far
above an export with the same name. -/
structure Regular (memory : Memory) (is64 : Bool) (loaded : List ResolverModule)
    (tables : UInt64 → Option Table) : Prop where
  accepted : ∀ m ∈ loaded, ∀ t, tables m.low = some t → t.Accepted memory m.low
  thunks : ∀ m ∈ loaded, ∀ address target e, Contains m address →
    Thunk memory is64 address target → Chosen (exportsIn tables m) (address - m.low) e →
    address - m.low - e.rva.toUInt64 ≤ 0x2000 →
      Contains m target ∧ ∃ e', Precedes (exportsIn tables m) (target - m.low) e' ∧
        e'.name = e.name ∧
        target - m.low - e'.rva.toUInt64 = address - m.low - e.rva.toUInt64

/-! ## Modules -/

variable {memory : Memory} {is64 : Bool} {loaded : List ResolverModule}
  {tables : UInt64 → Option Table} {m m' : ResolverModule} {address target place off : UInt64}
  {res : Resolution} {entries : List ExportEntry} {e : ExportEntry} {delta : UInt64}

/-- Two modules that both reach up to an address from below are one. -/
theorem Disjoint.eq_of_low (h : Disjoint loaded) (hm : m ∈ loaded) (hm' : m' ∈ loaded)
    (hle : m.low ≤ m'.low) (hlt : m'.low < m.high) : m = m' := by
  by_contra hne
  have : Std.Symm fun m m' : ResolverModule => m.high ≤ m'.low ∨ m'.high ≤ m.low :=
    ⟨fun _ _ hap => hap.symm⟩
  rcases h.apart.forall hm hm' hne with hap | hap
  · exact absurd hlt (UInt64.not_lt.mpr hap)
  · have hlow := UInt64.lt_of_lt_of_le (h.nonempty m' hm') (UInt64.le_trans hap hle)
    exact absurd hlow (UInt64.lt_irrefl _)

/-- The search finds the module of an address. -/
theorem Disjoint.moduleOf_eq_some (h : Disjoint loaded) :
    moduleOf (sortByLow loaded) address = some m ↔ m ∈ loaded ∧ Contains m address := by
  rw [moduleOf, sortByLow]
  cases hlast : lastAtMost (fun m : ResolverModule => m.low.toNat)
    (loaded.insertionSort fun a b => a.low.toNat ≤ b.low.toNat) address.toNat with
  | none =>
      refine iff_of_false nofun fun ⟨hm, hlow, _⟩ => ?_
      have hlt := Nearest.lastAtMost_insertionSort_eq_none.mp hlast m hm
      exact absurd (UInt64.le_iff_toNat_le.mp hlow) (not_le.mpr hlt)
  | some found =>
      have hnear := (Nearest.lastAtMost_insertionSort.mp hlast).1
      have hlow : found.low ≤ address := UInt64.le_iff_toNat_le.mpr hnear.le
      dsimp only
      constructor
      · intro hfound
        split at hfound
        next hhigh =>
          obtain rfl := Option.some.inj hfound
          exact ⟨hnear.mem, hlow, hhigh⟩
        next => exact absurd hfound nofun
      · rintro ⟨hm, hcontains⟩
        have hle : m.low ≤ found.low :=
          UInt64.le_iff_toNat_le.mpr (hnear.max m hm (UInt64.le_iff_toNat_le.mp hcontains.1))
        obtain rfl : m = found :=
          h.eq_of_low hm hnear.mem hle (UInt64.lt_of_le_of_lt hlow hcontains.2)
        rw [if_pos hcontains.2]

theorem Disjoint.moduleOf_eq_none (h : Disjoint loaded) :
    moduleOf (sortByLow loaded) address = none ↔ ∀ m ∈ loaded, ¬ Contains m address := by
  rw [Option.eq_none_iff_forall_ne_some]
  exact ⟨fun hnone m hm hcontains => hnone m (h.moduleOf_eq_some.mpr ⟨hm, hcontains⟩),
    fun hout m hm => hout m (h.moduleOf_eq_some.mp hm).1 (h.moduleOf_eq_some.mp hm).2⟩

/-- An address is in one module at most. -/
theorem Disjoint.unique (h : Disjoint loaded) (hm : m ∈ loaded) (hm' : m' ∈ loaded)
    (hc : Contains m address) (hc' : Contains m' address) : m = m' :=
  Option.some.inj ((h.moduleOf_eq_some.mpr ⟨hm, hc⟩).symm.trans
    (h.moduleOf_eq_some.mpr ⟨hm', hc'⟩))

/-! ## Exports -/

theorem Chosen.unique {e' : ExportEntry} (h : Chosen entries off e) (h' : Chosen entries off e') :
    e = e' := by
  have hkey := h.1.key_eq h'.1
  have hlast := h.2
  rw [hkey, h'.2] at hlast
  exact (Option.some.inj hlast).symm

theorem precedingExport_eq_some :
    precedingExport (sortByRva entries) off = some (e, delta) ↔
      Chosen entries off e ∧ delta = off - e.rva.toUInt64 ∧ delta ≤ 0x2000 := by
  rw [precedingExport, sortByRva]
  cases hlast : lastAtMost (fun e : ExportEntry => e.rva.toNat)
    (entries.insertionSort fun a b => a.rva.toNat ≤ b.rva.toNat) off.toNat with
  | none =>
      refine iff_of_false nofun fun ⟨hchosen, _⟩ => ?_
      exact absurd hchosen.1.le
        (not_le.mpr (Nearest.lastAtMost_insertionSort_eq_none.mp hlast e hchosen.1.mem))
  | some found =>
      have hfound : Chosen entries off found := Nearest.lastAtMost_insertionSort.mp hlast
      dsimp only
      constructor
      · intro h
        split at h
        next hle =>
          obtain ⟨rfl, rfl⟩ := Prod.mk.inj (Option.some.inj h)
          exact ⟨hfound, rfl, hle⟩
        next => exact absurd h nofun
      · rintro ⟨hchosen, rfl, hle⟩
        obtain rfl := hchosen.unique hfound
        rw [if_pos hle]

theorem precedingExport_eq_none :
    precedingExport (sortByRva entries) off = none ↔
      ∀ e, Precedes entries off e → 0x2000 < off - e.rva.toUInt64 := by
  rw [precedingExport, sortByRva]
  cases hlast : lastAtMost (fun e : ExportEntry => e.rva.toNat)
    (entries.insertionSort fun a b => a.rva.toNat ≤ b.rva.toNat) off.toNat with
  | none =>
      refine iff_of_true rfl fun e hnear => ?_
      exact absurd hnear.le
        (not_le.mpr (Nearest.lastAtMost_insertionSort_eq_none.mp hlast e hnear.mem))
  | some found =>
      have hfound : Chosen entries off found := Nearest.lastAtMost_insertionSort.mp hlast
      dsimp only
      split
      next hle =>
        exact iff_of_false nofun fun hfar =>
          absurd (hfar found hfound.1) (UInt64.not_lt.mpr hle)
      next hlt =>
        refine iff_of_true rfl fun e hnear => ?_
        rw [UInt32.toNat_inj.mp (hnear.key_eq hfound.1)]
        exact UInt64.not_le.mp hlt

/-- An address is near an export, or it is far from all of them. -/
theorem chosen_or_far (entries : List ExportEntry) (off : UInt64) :
    (∃ e, Chosen entries off e ∧ off - e.rva.toUInt64 ≤ 0x2000) ∨
      ∀ e, Precedes entries off e → 0x2000 < off - e.rva.toUInt64 := by
  cases h : precedingExport (sortByRva entries) off with
  | none => exact .inr (precedingExport_eq_none.mp h)
  | some found =>
      obtain ⟨e, delta⟩ := found
      obtain ⟨hchosen, rfl, hle⟩ := precedingExport_eq_some.mp h
      exact .inl ⟨e, hchosen, hle⟩

/-! ## Thunks -/

theorem thunk_iff :
    Thunk memory is64 address target ↔
      importTarget memory is64 address = some target ∧ target ≠ address := by
  have hwidth : 256 ^ pointerSize is64 ≤ 2 ^ 64 := by
    cases is64 with
    | false => decide
    | true => decide
  rw [Thunk, importTarget]
  constructor
  · rintro ⟨disp, hjump, hslot, hlt, hne⟩
    have hfield : field ([0xFF, 0x25] ++ encode 4 disp.toNat) 2 4 = disp.toNat := by
      have happ := field_append (show [(0xFF : UInt8), 0x25].length = 2 from rfl)
        (show disp.toNat < 256 ^ 4 from disp.toNat_lt) []
      rwa [List.append_nil] at happ
    have hcode : ([0xFF, 0x25] ++ encode 4 disp.toNat).take 2 = [0xFF, 0x25] := rfl
    refine ⟨?_, hne⟩
    rw [readMem_of_holds hjump (by simp), Option.bind_eq_bind, Option.bind_some, hfield,
      UInt32.ofNat_toNat, if_pos hcode]
    dsimp only
    rw [readUint_of_holds hslot hlt, Option.map_some, UInt64.ofNat_toNat]
  · rintro ⟨h, hne⟩
    obtain ⟨bytes, hbytes, h⟩ := Option.bind_eq_some_iff.mp h
    obtain ⟨hlength, hholds⟩ := readMem_eq_some.mp hbytes
    split at h
    next hcode =>
      obtain ⟨value, hvalue, rfl⟩ := Option.map_eq_some_iff.mp h
      obtain ⟨hlt, hslot⟩ := readUint_eq_some hvalue
      have hrest : (bytes.drop 2).length = 4 := by rw [List.length_drop, hlength]
      have hfield : field bytes 2 4 = decode (bytes.drop 2) := by
        rw [field, List.take_of_length_le hrest.le]
      have hdisp : (UInt32.ofNat (field bytes 2 4)).toNat = field bytes 2 4 := by
        refine UInt32.toNat_ofNat_of_lt' ?_
        rw [hfield]
        have hdecode := decode_lt (bytes.drop 2)
        rwa [hrest] at hdecode
      have hnat : (UInt64.ofNat value).toNat = value :=
        UInt64.toNat_ofNat_of_lt' (hlt.trans_le hwidth)
      refine ⟨.ofNat (field bytes 2 4), ?_, by rwa [hnat], by rwa [hnat], hne⟩
      have hencode : encode 4 (decode (bytes.drop 2)) = bytes.drop 2 := by
        rw [← hrest, encode_decode]
      rw [hdisp, hfield, hencode, ← hcode, List.take_append_drop]
      exact hholds
    next => cases h

/-- An address stands for itself unless it is a thunk in a module. -/
theorem Stands.eq_of_not_thunk (h : Stands memory is64 loaded address place)
    (hnot : ¬ ∃ target, Thunk memory is64 address target) : place = address := by
  rcases h with ⟨_, hthunk⟩ | ⟨_, rfl⟩
  · exact absurd ⟨place, hthunk⟩ hnot
  · rfl

theorem Stands.eq_of_thunk (h : Stands memory is64 loaded address place) (hm : m ∈ loaded)
    (hcontains : Contains m address) (hthunk : Thunk memory is64 address target) :
    place = target := by
  rcases h with ⟨_, hplace⟩ | ⟨hnot, _⟩
  · exact Option.some.inj ((thunk_iff.mp hplace).1.symm.trans (thunk_iff.mp hthunk).1)
  · exact absurd ⟨m, hm, hcontains, target, hthunk⟩ hnot

/-! ## Answers -/

/-- The parses are those of the tables. -/
def Parsed (memory : Memory) (loaded : List ResolverModule) (tables : UInt64 → Option Table) :
    Prop :=
  ∀ m ∈ loaded, parseExports memory m.low = (tables m.low).map fun t => sortByRva t.exports

/-- What is found near an offset does not depend on whether a module has a table. -/
theorem Parsed.bind_eq (h : Parsed memory loaded tables) (hm : m ∈ loaded) (off : UInt64) :
    (parseExports memory m.low).bind (precedingExport · off) =
      precedingExport (sortByRva (exportsIn tables m)) off := by
  rw [h m hm, exportsIn]
  cases tables m.low with
  | none => rfl
  | some t => rfl

/-- An address near an export resolves to it, thunk or not. -/
theorem Parsed.lookup_exported (h : Parsed memory loaded tables) (hdisjoint : Disjoint loaded)
    (hm : m ∈ loaded) (hcontains : Contains m address)
    (hchosen : Chosen (exportsIn tables m) (address - m.low) e)
    (hle : address - m.low - e.rva.toUInt64 ≤ 0x2000) (left : ℕ) :
    lookup memory is64 (sortByLow loaded) left address =
      exported m e (address - m.low - e.rva.toUInt64) := by
  have hfound := precedingExport_eq_some.mpr ⟨hchosen, rfl, hle⟩
  rw [lookup, hdisjoint.moduleOf_eq_some.mpr ⟨hm, hcontains⟩]
  dsimp only
  rw [h.bind_eq hm, hfound]

/-- Another address is resolved without a chase as the tables say. -/
theorem Parsed.lookup_answers (h : Parsed memory loaded tables) (hdisjoint : Disjoint loaded)
    (is64 : Bool) (address : UInt64) :
    Answers loaded tables address (lookup memory is64 (sortByLow loaded) 0 address) := by
  cases hmodule : moduleOf (sortByLow loaded) address with
  | none =>
      rw [lookup, hmodule]
      exact .outside (hdisjoint.moduleOf_eq_none.mp hmodule)
  | some m =>
      obtain ⟨hm, hcontains⟩ := hdisjoint.moduleOf_eq_some.mp hmodule
      rcases chosen_or_far (exportsIn tables m) (address - m.low) with ⟨e, hchosen, hle⟩ | hfar
      · rw [h.lookup_exported hdisjoint hm hcontains hchosen hle]
        exact .exported hm hcontains hchosen.1 hle
      · rw [lookup, hmodule]
        dsimp only
        rw [h.bind_eq hm, precedingExport_eq_none.mpr hfar]
        exact .unnamed hm hcontains hfar

/-- An address far from all exports is chased once. -/
theorem Parsed.lookup_far (h : Parsed memory loaded tables) (hm : m ∈ loaded)
    (hmodule : moduleOf (sortByLow loaded) address = some m)
    (hfar : ∀ e, Precedes (exportsIn tables m) (address - m.low) e →
      0x2000 < address - m.low - e.rva.toUInt64)
    (hstands : Stands memory is64 loaded address place) (hcontains : Contains m address) :
    lookup memory is64 (sortByLow loaded) 1 address =
      lookup memory is64 (sortByLow loaded) 0 place := by
  have hnone := precedingExport_eq_none.mpr hfar
  have hself : lookup memory is64 (sortByLow loaded) 0 address = unnamed m (address - m.low) := by
    rw [lookup, hmodule]
    dsimp only
    rw [h.bind_eq hm, hnone]
  rw [lookup, hmodule]
  dsimp only
  rw [h.bind_eq hm, hnone]
  dsimp only
  cases htarget : importTarget memory is64 address with
  | none =>
      have hplace : place = address := hstands.eq_of_not_thunk (by
        rintro ⟨target, hthunk⟩
        rw [(thunk_iff.mp hthunk).1] at htarget
        cases htarget)
      rw [hplace, hself]
  | some target =>
      dsimp only
      split
      next hne => rw [hstands.eq_of_thunk hm hcontains (thunk_iff.mpr ⟨htarget, hne⟩)]
      next heq =>
        have hplace : place = address := hstands.eq_of_not_thunk (by
          rintro ⟨other, hthunk⟩
          obtain ⟨hother, hne⟩ := thunk_iff.mp hthunk
          rw [htarget] at hother
          exact heq fun htarget => hne ((Option.some.inj hother).symm.trans htarget))
        rw [hplace, hself]

/-- A thunk near an export gives the answer of its target only where a table says the same twice. -/
theorem Answers.near_target (h : Answers loaded tables place (Resolve.exported m e delta))
    (hdisjoint : Disjoint loaded) (hm : m ∈ loaded) :
    Contains m place ∧ ∃ e', Precedes (exportsIn tables m) (place - m.low) e' ∧
      e'.name = e.name ∧ place - m.low - e'.rva.toUInt64 = delta := by
  generalize hres : Resolve.exported m e delta = res at h
  cases h with
  | outside _ =>
      exact absurd (congrArg Resolution.kind hres) (show (2 : UInt8) ≠ 0 by decide)
  | unnamed _ _ _ =>
      exact absurd (congrArg Resolution.kind hres) (show (2 : UInt8) ≠ 1 by decide)
  | @exported m' e' hm' hcontains hnear hle =>
      have hlow : m.low = m'.low := congrArg Resolution.base hres
      obtain rfl : m = m' := hdisjoint.eq_of_low hm hm' (hlow ▸ UInt64.le_refl _)
        (hlow ▸ hdisjoint.nonempty m hm)
      exact ⟨hcontains, e', hnear, (congrArg Resolution.symbol hres).symm,
        (congrArg Resolution.offset hres).symm⟩

/-! ## Names -/

/-- What a name resolves to is an export of a module with that name. -/
theorem Agrees.resolveName_eq_some {r : Resolver} (h : Agrees memory r) {spec : Text}
    (hname : (Resolve.resolveName memory loaded spec r).1 = some address) :
    ∃ m ∈ loaded, ∃ moduleName exportName, splitOnce spec '!' = some (moduleName, exportName) ∧
      eqIgnoreAsciiCase m.short moduleName ∧
      ∃ entries, parseExports memory m.low = some entries ∧
        ∃ e ∈ entries, address = m.low + e.rva.toUInt64 := by
  rw [Resolve.resolveName] at hname
  split at hname
  next => cases hname
  next moduleName exportName hsplit =>
    split at hname
    next => cases hname
    next =>
      dsimp only at hname
      split at hname
      next => cases hname
      next m hmodule =>
        rw [moduleNamed] at hmodule
        have hm : m ∈ loaded := by
          have hmem := List.mem_of_find?_eq_some hmodule
          rwa [Resolve.refreshModules, sortByLow, List.mem_insertionSort] at hmem
        have hshort := List.find?_some hmodule
        rw [h.refreshModules.exportsOf_eq] at hname
        obtain ⟨entries, hentries, hname⟩ := Option.bind_eq_some_iff.mp hname
        obtain ⟨e, he, rfl⟩ := Option.map_eq_some_iff.mp hname
        refine ⟨m, hm, moduleName, exportName, hsplit, hshort, entries, hentries, e, ?_, rfl⟩
        rcases Option.or_eq_some_iff.mp he with hexact | ⟨_, hcase⟩
        · exact List.mem_of_find?_eq_some hexact
        · exact List.mem_of_find?_eq_some hcase

/-- The address of an export in its module resolves to an export there. -/
theorem lookup_export (hdisjoint : Disjoint loaded) (hm : m ∈ loaded)
    (hparse : parseExports memory m.low = some (sortByRva entries)) (he : e ∈ entries)
    (hcontains : Contains m (m.low + e.rva.toUInt64)) (left : ℕ) :
    ∃ e' ∈ entries, lookup memory is64 (sortByLow loaded) left (m.low + e.rva.toUInt64) =
      exported m e' 0 := by
  have hoff : m.low + e.rva.toUInt64 - m.low = e.rva.toUInt64 := by
    rw [UInt64.add_comm, UInt64.add_sub_cancel]
  have hself : Precedes entries e.rva.toUInt64 e :=
    ⟨he, (UInt32.toNat_toUInt64 _).ge, fun e' _ hle => hle.trans (UInt32.toNat_toUInt64 _).le⟩
  have hnear : ∀ e', Precedes entries e.rva.toUInt64 e' → e'.rva = e.rva :=
    fun e' hprec => UInt32.toNat_inj.mp (hprec.key_eq hself)
  rcases chosen_or_far entries e.rva.toUInt64 with ⟨e', hchosen, hle⟩ | hfar
  · have hfound := precedingExport_eq_some.mpr ⟨hchosen, rfl, hle⟩
    refine ⟨e', hchosen.1.mem, ?_⟩
    rw [lookup, hdisjoint.moduleOf_eq_some.mpr ⟨hm, hcontains⟩]
    dsimp only
    rw [hparse, Option.bind_some, hoff, hfound]
    dsimp only
    rw [hnear e' hchosen.1, UInt64.sub_self]
  · have hlt := hfar e hself
    rw [UInt64.sub_self] at hlt
    exact absurd hlt (by decide)

/-! ## Agreement -/

/-- An accepted table is parsed. -/
theorem Regular.parsed (h : Regular memory is64 loaded tables)
    (himages : ∀ m ∈ loaded, Shows memory tables m) : Parsed memory loaded tables := by
  intro m hm
  have himage := himages m hm
  rw [Shows] at himage
  cases htable : tables m.low with
  | none =>
      rw [htable] at himage
      exact parseExports_of_bare himage
  | some t =>
      rw [htable] at himage
      exact parseExports_of_accepted himage (h.accepted m hm t htable)

theorem Regular.addresses (h : Regular memory is64 loaded tables) (hdisjoint : Disjoint loaded)
    (hparsed : Parsed memory loaded tables)
    (hstands : Stands memory is64 loaded address place) :
    Answers loaded tables place (lookup memory is64 (sortByLow loaded) 1 address) := by
  cases hmodule : moduleOf (sortByLow loaded) address with
  | none =>
      have hout := hdisjoint.moduleOf_eq_none.mp hmodule
      have hplace : place = address := by
        rcases hstands with ⟨⟨m, hm, hcontains⟩, _⟩ | ⟨_, rfl⟩
        · exact absurd hcontains (hout m hm)
        · rfl
      rw [hplace, lookup, hmodule]
      exact .outside hout
  | some m =>
      obtain ⟨hm, hcontains⟩ := hdisjoint.moduleOf_eq_some.mp hmodule
      rcases chosen_or_far (exportsIn tables m) (address - m.low) with ⟨e, hchosen, hle⟩ | hfar
      · rw [hparsed.lookup_exported hdisjoint hm hcontains hchosen hle]
        by_cases hthunk : ∃ target, Thunk memory is64 address target
        · obtain ⟨target, hthunk⟩ := hthunk
          obtain rfl := hstands.eq_of_thunk hm hcontains hthunk
          obtain ⟨hin, e', hnear, hname, hdelta⟩ :=
            h.thunks m hm address place e hcontains hthunk hchosen hle
          have hanswer := Answers.exported hm hin hnear (hdelta ▸ hle)
          rw [hdelta] at hanswer
          rw [show exported m e (address - m.low - e.rva.toUInt64) =
            exported m e' (address - m.low - e.rva.toUInt64) by rw [exported, exported, hname]]
          exact hanswer
        · rw [hstands.eq_of_not_thunk hthunk]
          exact .exported hm hcontains hchosen.1 hle
      · rw [hparsed.lookup_far hm hmodule hfar hstands hcontains]
        exact hparsed.lookup_answers hdisjoint is64 place

/-- The resolution of a name resolves back. -/
theorem resolveName_agrees (hdisjoint : Disjoint loaded)
    (himages : ∀ m ∈ loaded, Shows memory tables m) {r r' : Resolver}
    (hr : Reached memory is64 r) (hr' : Reached memory is64 r') {spec : Text}
    (hname : (resolveName memory loaded spec r).1 = some address) :
    ∃ m ∈ loaded, ∃ moduleName exportName, splitOnce spec '!' = some (moduleName, exportName) ∧
      eqIgnoreAsciiCase m.short moduleName ∧
      (Contains m address →
        ∃ e ∈ exportsIn tables m,
          (resolveOne memory is64 loaded address r').1 = exported m e 0) := by
  obtain ⟨m, hm, moduleName, exportName, hsplit, hshort, entries, hparse, e, he, rfl⟩ :=
    hr.agrees.resolveName_eq_some hname
  refine ⟨m, hm, moduleName, exportName, hsplit, hshort, fun hcontains => ?_⟩
  have himage := himages m hm
  rw [Shows] at himage
  cases htable : tables m.low with
  | none =>
      rw [htable] at himage
      rw [parseExports_of_bare himage] at hparse
      exact absurd hparse nofun
  | some t =>
      rw [htable] at himage
      by_cases haccepted : t.Accepted memory m.low
      · have hsorted := parseExports_of_accepted himage haccepted
        obtain rfl : entries = sortByRva t.exports := Option.some.inj (hparse.symm.trans hsorted)
        rw [hr'.resolveOne_eq, exportsIn, htable]
        exact lookup_export hdisjoint hm hsorted (List.mem_insertionSort _ |>.mp he) hcontains 1
      · rw [parseExports_of_refused himage haccepted] at hparse
        exact absurd hparse nofun

theorem Regular.agreement (h : Regular memory is64 loaded tables) (hdisjoint : Disjoint loaded)
    (himages : ∀ m ∈ loaded, Shows memory tables m) : Agreement memory is64 loaded tables := by
  have hparsed := h.parsed himages
  refine ⟨fun m hm t htable => ?_, fun r hr address place hstands => ?_,
    fun r r' hr hr' spec address hname => ?_⟩
  · refine ⟨sortByRva t.exports, ?_, List.perm_insertionSort _ _,
      Nearest.pairwise_insertionSort (fun e : ExportEntry => e.rva.toNat) _⟩
    rw [hparsed m hm, htable]
    rfl
  · rw [hr.resolveOne_eq]
    exact h.addresses hdisjoint hparsed hstands
  · obtain ⟨m, hm, moduleName, exportName, hsplit, hshort, hback⟩ :=
      resolveName_agrees hdisjoint himages hr hr' hname
    exact ⟨m, hm, moduleName, exportName, hsplit, hshort, fun hcontains _ => hback hcontains⟩

theorem Agreement.regular (h : Agreement memory is64 loaded tables) (hdisjoint : Disjoint loaded)
    (himages : ∀ m ∈ loaded, Shows memory tables m) : Regular memory is64 loaded tables := by
  have haccepted : ∀ m ∈ loaded, ∀ t, tables m.low = some t → t.Accepted memory m.low := by
    intro m hm t htable
    have himage := himages m hm
    rw [Shows, htable] at himage
    by_contra hrefused
    obtain ⟨entries, hparse, _⟩ := h.exports m hm t htable
    rw [parseExports_of_refused himage hrefused] at hparse
    exact absurd hparse nofun
  refine ⟨haccepted, fun m hm address target e hcontains hthunk hchosen hle => ?_⟩
  have hparsed : Parsed memory loaded tables := by
    intro m hm
    have himage := himages m hm
    rw [Shows] at himage
    cases htable : tables m.low with
    | none =>
        rw [htable] at himage
        exact parseExports_of_bare himage
    | some t =>
        rw [htable] at himage
        exact parseExports_of_accepted himage (haccepted m hm t htable)
  have hanswer := h.addresses Resolver.init Reached.init address target
    (.inl ⟨⟨m, hm, hcontains⟩, hthunk⟩)
  rw [Reached.init.resolveOne_eq, hparsed.lookup_exported hdisjoint hm hcontains hchosen hle]
    at hanswer
  exact hanswer.near_target hdisjoint hm

/-- The resolver agrees with the images if and only if it accepts their tables and no import thunk
lies near an export. -/
theorem agreement_iff (hdisjoint : Disjoint loaded)
    (himages : ∀ m ∈ loaded, Shows memory tables m) :
    Agreement memory is64 loaded tables ↔ Regular memory is64 loaded tables :=
  ⟨fun h => h.regular hdisjoint himages, fun h => h.agreement hdisjoint himages⟩

/-! ## An image -/

/-- A memory of one range. -/
def Memory.ofBytes (start : ℕ) (bytes : List UInt8) (h : start + bytes.length ≤ 2 ^ 64) :
    Memory where
  cell address := if start ≤ address then bytes[address - start]? else none
  bounded address haddress := by
    split
    next => exact List.getElem?_eq_none (by omega)
    next => rfl

theorem holds_ofBytes {start : ℕ} {bytes rest : List UInt8}
    (h : start + (bytes ++ rest).length ≤ 2 ^ 64) :
    Holds (Memory.ofBytes start (bytes ++ rest) h).cell start bytes := by
  intro i hi
  rw [Memory.ofBytes]
  dsimp only
  rw [if_pos (Nat.le_add_right _ _), Nat.add_sub_cancel_left, List.getElem?_append_left hi]

theorem isSome_ofBytes {start address : ℕ} {bytes : List UInt8}
    (h : start + bytes.length ≤ 2 ^ 64) (hstart : start ≤ address)
    (hend : address < start + bytes.length) :
    ((Memory.ofBytes start bytes h).cell address).isSome := by
  rw [Memory.ofBytes]
  dsimp only
  rw [if_pos hstart, List.getElem?_eq_getElem (by omega)]
  rfl

/-- The headers of an image after the DOS header, and an export table with the function `f`. -/
def sampleTail : List UInt8 :=
  encode 4 0x28 ++ encode 2 0x10b ++ List.replicate 94 0 ++ encode 4 0xA4 ++ List.replicate 20 0 ++
    encode 4 1 ++ encode 4 1 ++ encode 4 0xCC ++ encode 4 0xD0 ++ encode 4 0xD4 ++ encode 4 0x10 ++
    encode 4 0xD6 ++ encode 2 0 ++ [102, 0]

def sampleTable : Table where
  functions := [0x10]
  lines := [{ nameRva := 0xD6, ordinal := 0, name := [102] }]

def sampleModule : ResolverModule where
  low := 0x1000
  high := 0x2000
  short := "m".toList

def sampleTables (_ : UInt64) : Option Table := some sampleTable

theorem sample_shows (memory : Memory) (dos : List UInt8) (hdos : dos.length = 0x3c)
    (h : Holds memory.cell 0x1000 (dos ++ sampleTail)) :
    ∀ m ∈ [sampleModule], Shows memory sampleTables m := by
  have htail : Holds memory.cell 0x103c sampleTail := by
    have hrest := (PartialMemory.holds_append.mp h).2
    rwa [hdos] at hrest
  have hdosTail : Holds memory.cell 0x1000 (dos ++ encode 4 0x28) := by
    refine PartialMemory.holds_append.mpr ⟨(PartialMemory.holds_append.mp h).1, ?_⟩
    rw [hdos]
    exact htail.slice 0 4
  intro m hm
  obtain rfl := List.mem_singleton.mp hm
  refine ⟨by decide, by decide,
    ⟨0xA4, List.replicate 20 0, 0xCC, 0xD0, 0xD4, ?_, rfl, ?_, ?_, ?_, ?_⟩, ?_⟩
  · exact ⟨dos, 0x28, 0x10b, 0xA4, 96, hdos, by decide, hdosTail, .inl ⟨rfl, rfl⟩,
      htail.slice 4 2, by decide, by decide, rfl, htail.slice 100 4⟩
  · exact htail.slice 104 40
  · exact htail.slice 144 4
  · exact htail.slice 148 4
  · exact htail.slice 152 2
  · intro line hline _
    obtain rfl := List.mem_singleton.mp hline
    exact ⟨by decide, by decide, by decide, htail.slice 154 2⟩

theorem sample_disjoint : Disjoint [sampleModule] := by
  refine ⟨fun m hm => ?_, List.pairwise_singleton _ _⟩
  obtain rfl := List.mem_singleton.mp hm
  decide

/-- A DOS header of zeros. -/
def plainHeader : List UInt8 := List.replicate 0x3c 0

/-- An image whose names are followed by zeros. -/
def plain : Memory :=
  .ofBytes 0x1000 ((plainHeader ++ sampleTail) ++ List.replicate 128 0) (by decide +kernel)

theorem agreement_iff_plain : Agreement plain true [sampleModule] sampleTables := by
  have hshows := sample_shows plain plainHeader rfl (holds_ofBytes (by decide +kernel))
  refine (agreement_iff sample_disjoint hshows).mpr
    ⟨fun m hm t ht => ?_, fun m hm address target e _ hthunk _ _ => ?_⟩
  · obtain rfl := List.mem_singleton.mp hm
    obtain rfl := Option.some.inj ht
    refine ⟨by decide, by decide, by decide, fun line hline _ => ?_⟩
    obtain rfl := List.mem_singleton.mp hline
    have hlength : ((plainHeader ++ sampleTail) ++ List.replicate 128 0).length = 344 := by
      decide +kernel
    intro i hi
    show ((Memory.ofBytes _ _ _).cell (0x10D6 + i)).isSome
    exact isSome_ofBytes _ (by omega) (by omega)
  · -- No byte of the image is the first byte of a jump.
    obtain ⟨disp, hjump, _⟩ := hthunk
    have hcode : plain.cell address.toNat = some 0xFF := hjump 0 (Nat.succ_pos _)
    rw [plain, Memory.ofBytes] at hcode
    dsimp only at hcode
    split at hcode
    next => exact absurd (List.mem_of_getElem? hcode) (by decide +kernel)
    next => exact absurd hcode nofun

/-- An image that ends after its names. -/
def cut : Memory := .ofBytes 0x1000 ((plainHeader ++ sampleTail) ++ []) (by decide +kernel)

/-- A DOS header with an import thunk at its offset 32. -/
def jumpHeader : List UInt8 :=
  List.replicate 0x20 0 ++ [0xFF, 0x25, 2, 0, 0, 0, 0, 0] ++ encode 8 0x9000 ++ List.replicate 12 0

/-- An image with the thunk after its function. -/
def jump : Memory :=
  .ofBytes 0x1000 ((jumpHeader ++ sampleTail) ++ List.replicate 128 0) (by decide +kernel)

/-- One table is refused, and in another image a thunk resolves to the function before it. -/
theorem agreement_fails :
    (Disjoint [sampleModule] ∧ (∀ m ∈ [sampleModule], Shows cut sampleTables m) ∧
        ¬ Agreement cut true [sampleModule] sampleTables) ∧
      (∀ m ∈ [sampleModule], Shows jump sampleTables m) ∧
        ¬ Agreement jump true [sampleModule] sampleTables := by
  have hcut := sample_shows cut plainHeader rfl (holds_ofBytes (by decide +kernel))
  have hjump := sample_shows jump jumpHeader rfl (holds_ofBytes (by decide +kernel))
  refine ⟨⟨sample_disjoint, hcut, fun h => ?_⟩, hjump, fun h => ?_⟩
  · have haccepted := (h.regular sample_disjoint hcut).accepted _ List.mem_cons_self _ rfl
    have hwindow := haccepted.window _ List.mem_cons_self rfl 2 (by decide)
    exact absurd hwindow (by decide +kernel)
  · have hthunk : Thunk jump true 0x1020 0x9000 :=
      thunk_iff.mpr ⟨by decide +kernel, by decide⟩
    have hchosen : Chosen (exportsIn sampleTables sampleModule) (0x1020 - sampleModule.low)
        { rva := 0x10, name := ['f'] } := by
      have hexports : exportsIn sampleTables sampleModule = [{ rva := 0x10, name := ['f'] }] := rfl
      rw [hexports]
      refine ⟨⟨List.mem_cons_self, by decide, fun e he _ => ?_⟩, rfl⟩
      rw [List.mem_singleton.mp he]
    have hcontains := ((h.regular sample_disjoint hjump).thunks _ List.mem_cons_self 0x1020 0x9000 _
      (by decide) hthunk hchosen (by decide)).1
    exact absurd hcontains (by decide)

end PinBridge.Resolve
