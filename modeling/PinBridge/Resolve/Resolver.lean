import PinBridge.Lib.Transition
import PinBridge.Resolve.Exports

/-!
# The resolver

The resolver keeps the list of modules, sorted by address, the exports of the modules that it has
parsed, and the modules whose parse has failed.  Every call takes a fresh list of modules.

`lookup` is `resolve_inner` without the two caches.  The caches agree with the parses of the memory
after every call (`Agrees`), so that what a call returns is what `lookup` computes
(`resolveOne_eq`).
-/

namespace PinBridge.Resolve

open Function (update)
open Nearest (lastAtMost)
open Query (ExportEntry ResolverModule Resolution eqIgnoreAsciiCase)
open Utf8 (Text)

/-! ## State -/

structure Resolver where
  /-- Sorted by `low`. -/
  modules : List ResolverModule
  /-- By the `low` of a module, sorted by `rva`. -/
  exports : UInt64 → Option (List ExportEntry)
  /-- The modules whose parse failed. -/
  failed : UInt64 → Bool

def Resolver.init : Resolver where
  modules := []
  exports := fun _ => none
  failed := fun _ => false

/-- `sort_by_key` at the end of `refresh_modules`. -/
def sortByLow (modules : List ResolverModule) : List ResolverModule :=
  modules.insertionSort fun a b => a.low.toNat ≤ b.low.toNat

/-- `refresh_modules`, when the images that are loaded are these. -/
def refreshModules (loaded : List ResolverModule) (r : Resolver) : Resolver :=
  { r with modules := sortByLow loaded }

def exportsOf (memory : Memory) (r : Resolver) (base : UInt64) :
    Option (List ExportEntry) × Resolver :=
  if r.failed base then (none, r)
  else
    match r.exports base with
    | some entries => (some entries, r)
    | none =>
        match parseExports memory base with
        | some entries => (some entries, { r with exports := update r.exports base (some entries) })
        | none => (none, { r with failed := update r.failed base true })

def moduleOf (modules : List ResolverModule) (address : UInt64) : Option ResolverModule :=
  match lastAtMost (fun m : ResolverModule => m.low.toNat) modules address.toNat with
  | none => none
  | some m => if address < m.high then some m else none

/-! ## Addresses -/

/-- The resolution of an address in no module. -/
def outside : Resolution where
  kind := 0
  base := 0
  offset := 0
  moduleName := []
  symbol := []

/-- The resolution of an address near an export. -/
def exported (m : ResolverModule) (entry : ExportEntry) (delta : UInt64) : Resolution where
  kind := 2
  base := m.low
  offset := delta
  moduleName := m.short
  symbol := entry.name

/-- The resolution of another address in a module. -/
def unnamed (m : ResolverModule) (off : UInt64) : Resolution where
  kind := 1
  base := m.low
  offset := off
  moduleName := m.short
  symbol := []

/-- The nearest preceding export and the distance to it, within a window. -/
def precedingExport (entries : List ExportEntry) (off : UInt64) : Option (ExportEntry × UInt64) :=
  match lastAtMost (fun e : ExportEntry => e.rva.toNat) entries off.toNat with
  | none => none
  | some entry =>
      let delta := off - entry.rva.toUInt64
      if delta ≤ 0x2000 then some (entry, delta) else none

/-- The pointer slot of `jmp qword [rip+disp]` or of `jmp dword [imm32]`. -/
def importSlot (is64 : Bool) (address : UInt64) (disp : UInt32) : UInt64 :=
  if is64 then address + 6 + disp.toInt32.toInt64.toUInt64 else disp.toUInt64

/-- The size of a pointer. -/
def pointerSize (is64 : Bool) : ℕ := if is64 then 8 else 4

/-- The thunk chase of `resolve_inner`: what the slot of the jump at an address holds. -/
def importTarget (memory : Memory) (is64 : Bool) (address : UInt64) : Option UInt64 := do
  let bytes ← readMem memory address 6
  if bytes.take 2 = [0xFF, 0x25] then
    let slot := importSlot is64 address (.ofNat (field bytes 2 4))
    (readUint memory slot (pointerSize is64)).map .ofNat
  else none

/-- `resolve_inner` at the depth `1 - left`. -/
def resolveInner (memory : Memory) (is64 : Bool) :
    ℕ → UInt64 → Resolver → Resolution × Resolver
  | left, address, r =>
    match moduleOf r.modules address with
    | none => (outside, r)
    | some m =>
        let off := address - m.low
        let found := exportsOf memory r m.low
        match found.1.bind (precedingExport · off) with
        | some (entry, delta) => (exported m entry delta, found.2)
        | none =>
            match left with
            | 0 => (unnamed m off, found.2)
            | left + 1 =>
                match importTarget memory is64 address with
                | none => (unnamed m off, found.2)
                | some target =>
                    if target ≠ address then resolveInner memory is64 left target found.2
                    else (unnamed m off, found.2)

def resolveOne (memory : Memory) (is64 : Bool) (loaded : List ResolverModule) (address : UInt64)
    (r : Resolver) : Resolution × Resolver :=
  resolveInner memory is64 1 address (refreshModules loaded r)

/-- The loop of `handle_resolve`. -/
def resolveAll (memory : Memory) (is64 : Bool) :
    List UInt64 → Resolver → List Resolution × Resolver
  | [], r => ([], r)
  | address :: addresses, r =>
      let res := resolveInner memory is64 1 address r
      let rest := resolveAll memory is64 addresses res.2
      (res.1 :: rest.1, rest.2)

/-! ## Names -/

/-- `split_once`. -/
def splitOnce (spec : Text) (c : Char) : Option (Text × Text) :=
  match spec.dropWhile (· ≠ c) with
  | [] => none
  | _ :: rest => some (spec.takeWhile (· ≠ c), rest)

/-- The first module with a name. -/
def moduleNamed (modules : List ResolverModule) (name : Text) : Option ResolverModule :=
  modules.find? fun m => eqIgnoreAsciiCase m.short name

/-- An export with a name, else one with the name in another case. -/
def exportNamed (entries : List ExportEntry) (name : Text) : Option ExportEntry :=
  (entries.find? fun e => e.name = name).or
    (entries.find? fun e => eqIgnoreAsciiCase e.name name)

def resolveName (memory : Memory) (loaded : List ResolverModule) (spec : Text) (r : Resolver) :
    Option UInt64 × Resolver :=
  match splitOnce spec '!' with
  | none => (none, r)
  | some (moduleName, exportName) =>
      if moduleName.isEmpty ∨ exportName.isEmpty then (none, r)
      else
        let r := refreshModules loaded r
        match moduleNamed r.modules moduleName with
        | none => (none, r)
        | some m =>
            let found := exportsOf memory r m.low
            (found.1.bind fun entries =>
              (exportNamed entries exportName).map fun e => m.low + e.rva.toUInt64, found.2)

/-- The lookup of `handle_exports`. -/
def moduleExports (memory : Memory) (loaded : List ResolverModule) (name : Text) (r : Resolver) :
    Option (UInt64 × List ExportEntry) × Resolver :=
  let r := refreshModules loaded r
  match moduleNamed r.modules name with
  | none => (none, r)
  | some m =>
      let found := exportsOf memory r m.low
      (found.1.map fun entries => (m.low, entries), found.2)

def invalidate (base : UInt64) (r : Resolver) : Resolver where
  modules := r.modules
  exports := update r.exports base none
  failed := update r.failed base false

/-! ## Runs -/

/-- A call into the resolver.  All but the last read the list of loaded modules. -/
inductive Call where
  | resolve (loaded : List ResolverModule) (addresses : List UInt64)
  | name (loaded : List ResolverModule) (spec : Text)
  | exports (loaded : List ResolverModule) (moduleName : Text)
  | invalidate (base : UInt64)

/-- What a call does to the resolver. -/
def call (memory : Memory) (is64 : Bool) (r : Resolver) : Call → Resolver
  | .resolve loaded addresses =>
      (resolveAll memory is64 addresses (refreshModules loaded r)).2
  | .name loaded spec => (resolveName memory loaded spec r).2
  | .exports loaded moduleName => (moduleExports memory loaded moduleName r).2
  | .invalidate base => invalidate base r

/-- The resolver after some calls. -/
def Reached (memory : Memory) (is64 : Bool) (r : Resolver) : Prop :=
  ∃ calls, Transition.run (fun r c => some (call memory is64 r c)) Resolver.init calls = some r

/-! ## Caches -/

/-- The caches hold parses of the memory. -/
structure Agrees (memory : Memory) (r : Resolver) : Prop where
  exports : ∀ base entries, r.exports base = some entries →
    parseExports memory base = some entries
  failed : ∀ base, r.failed base → parseExports memory base = none

variable {memory : Memory} {is64 : Bool} {r : Resolver} {base address : UInt64}
  {loaded : List ResolverModule}

theorem Agrees.init : Agrees memory Resolver.init :=
  ⟨fun _ _ h => absurd h nofun, fun _ h => absurd h nofun⟩

theorem Agrees.refreshModules (h : Agrees memory r) : Agrees memory (refreshModules loaded r) :=
  ⟨h.exports, h.failed⟩

theorem Agrees.invalidate (h : Agrees memory r) (base : UInt64) :
    Agrees memory (invalidate base r) := by
  refine ⟨fun b entries hb => ?_, fun b hb => ?_⟩
  · by_cases heq : b = base
    · subst heq
      simp [Resolve.invalidate] at hb
    · exact h.exports b entries (by simpa [Resolve.invalidate, heq] using hb)
  · by_cases heq : b = base
    · subst heq
      simp [Resolve.invalidate] at hb
    · exact h.failed b (by simpa [Resolve.invalidate, heq] using hb)

/-- A cached parse is the parse. -/
theorem Agrees.exportsOf_eq (h : Agrees memory r) (base : UInt64) :
    (exportsOf memory r base).1 = parseExports memory base := by
  rw [exportsOf]
  split
  next hfailed => exact (h.failed base hfailed).symm
  next =>
    split
    next entries hentries => exact (h.exports base entries hentries).symm
    next =>
      split
      next entries hparse => exact hparse.symm
      next hparse => exact hparse.symm

theorem Agrees.exportsOf (h : Agrees memory r) (base : UInt64) :
    Agrees memory (exportsOf memory r base).2 := by
  rw [Resolve.exportsOf]
  split
  next => exact h
  next =>
    split
    next => exact h
    next =>
      split
      next entries hparse =>
        refine ⟨fun b entries' hb => ?_, h.failed⟩
        by_cases heq : b = base
        · subst heq
          obtain rfl : entries = entries' := by simpa using hb
          exact hparse
        · exact h.exports b entries' (by simpa [heq] using hb)
      next hparse =>
        refine ⟨h.exports, fun b hb => ?_⟩
        by_cases heq : b = base
        · rw [heq]
          exact hparse
        · exact h.failed b (by simpa [heq] using hb)

@[simp] theorem exportsOf_modules : (exportsOf memory r base).2.modules = r.modules := by
  rw [exportsOf]
  split
  next => rfl
  next =>
    split
    next => rfl
    next =>
      split
      next => rfl
      next => rfl

/-! ## Without the caches -/

/-- The resolution of an address from the parses of the memory. -/
def lookup (memory : Memory) (is64 : Bool) (modules : List ResolverModule) :
    ℕ → UInt64 → Resolution
  | left, address =>
    match moduleOf modules address with
    | none => outside
    | some m =>
        let off := address - m.low
        match (parseExports memory m.low).bind (precedingExport · off) with
        | some (entry, delta) => exported m entry delta
        | none =>
            match left with
            | 0 => unnamed m off
            | left + 1 =>
                match importTarget memory is64 address with
                | none => unnamed m off
                | some target =>
                    if target ≠ address then lookup memory is64 modules left target
                    else unnamed m off

/-- The caches change no resolution. -/
theorem Agrees.resolveInner (h : Agrees memory r) (is64 : Bool) (left : ℕ) (address : UInt64) :
    (resolveInner memory is64 left address r).1 = lookup memory is64 r.modules left address ∧
      Agrees memory (resolveInner memory is64 left address r).2 ∧
      (resolveInner memory is64 left address r).2.modules = r.modules := by
  induction left generalizing address r with
  | zero =>
      rw [Resolve.resolveInner, lookup]
      cases moduleOf r.modules address with
      | none => exact ⟨rfl, h, rfl⟩
      | some m =>
          dsimp only
          rw [h.exportsOf_eq]
          cases (parseExports memory m.low).bind (precedingExport · (address - m.low)) with
          | none => exact ⟨rfl, h.exportsOf _, exportsOf_modules⟩
          | some found => exact ⟨rfl, h.exportsOf _, exportsOf_modules⟩
  | succ left ih =>
      rw [Resolve.resolveInner, lookup]
      cases moduleOf r.modules address with
      | none => exact ⟨rfl, h, rfl⟩
      | some m =>
          dsimp only
          rw [h.exportsOf_eq]
          cases (parseExports memory m.low).bind (precedingExport · (address - m.low)) with
          | some found => exact ⟨rfl, h.exportsOf _, exportsOf_modules⟩
          | none =>
              cases importTarget memory is64 address with
              | none => exact ⟨rfl, h.exportsOf _, exportsOf_modules⟩
              | some target =>
                  dsimp only
                  split
                  next =>
                    have hrest := ih (h.exportsOf m.low) target
                    rw [exportsOf_modules] at hrest
                    exact hrest
                  next => exact ⟨rfl, h.exportsOf _, exportsOf_modules⟩

theorem Agrees.resolveAll (h : Agrees memory r) (is64 : Bool) (addresses : List UInt64) :
    Agrees memory (resolveAll memory is64 addresses r).2 := by
  induction addresses generalizing r with
  | nil => exact h
  | cons address addresses ih => exact ih (h.resolveInner is64 1 address).2.1

theorem Agrees.resolveName (h : Agrees memory r) (loaded : List ResolverModule) (spec : Text) :
    Agrees memory (resolveName memory loaded spec r).2 := by
  rw [Resolve.resolveName]
  split
  next => exact h
  next =>
    split
    next => exact h
    next =>
      dsimp only
      split
      next => exact h.refreshModules
      next => exact h.refreshModules.exportsOf _

theorem Agrees.moduleExports (h : Agrees memory r) (loaded : List ResolverModule) (name : Text) :
    Agrees memory (moduleExports memory loaded name r).2 := by
  rw [Resolve.moduleExports]
  dsimp only
  split
  next => exact h.refreshModules
  next => exact h.refreshModules.exportsOf _

theorem Agrees.call (h : Agrees memory r) (is64 : Bool) (c : Call) :
    Agrees memory (call memory is64 r c) := by
  cases c with
  | resolve loaded addresses => exact h.refreshModules.resolveAll is64 addresses
  | name loaded spec => exact h.resolveName loaded spec
  | exports loaded moduleName => exact h.moduleExports loaded moduleName
  | invalidate base => exact h.invalidate base

/-- The caches agree with the memory after every call. -/
theorem Reached.agrees (h : Reached memory is64 r) : Agrees memory r := by
  obtain ⟨calls, hrun⟩ := h
  refine Transition.run_invariant (fun hs hstep => ?_) Agrees.init hrun
  cases hstep
  exact hs.call is64 _

theorem Reached.init : Reached memory is64 Resolver.init := ⟨[], rfl⟩

/-- An address is resolved the same after any calls. -/
theorem Reached.resolveOne_eq (h : Reached memory is64 r) (loaded : List ResolverModule)
    (address : UInt64) :
    (resolveOne memory is64 loaded address r).1 =
      lookup memory is64 (sortByLow loaded) 1 address :=
  (h.agrees.refreshModules.resolveInner is64 1 address).1

end PinBridge.Resolve
