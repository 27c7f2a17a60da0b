import PinBridge.EventIndex.Query
import PinBridge.Lib.Fallible
import PinBridge.Lib.Hexadecimal
import PinBridge.Lib.IntervalUnion
import PinBridge.Lib.SortedList
import PinBridge.Scripts.SyscallConfig

/-!
# The scope of a Trace recording

`trace_scope_query` turns a request into the scope that `trace_record_start` will record: a module,
ranges in it, kinds of events and threads.  The ranges of the request are sorted and merged, the
kinds and the threads are sorted and stripped of repetitions, and all of it is put under a digest
that has to be repeated to start the recording.

`traceScopeQuery_spec` says what a scope is.  So it is in normal form, and two requests that find
the same module, however they spell it, and name the same addresses, kinds and threads get the same
scope under the same digest (`scope_canonical`).
-/

namespace PinBridge.Scopes

open EventIndex (parseU64)
open Hexadecimal (numeral)
open Hooks (HubError)
open IntervalUnion (Apart Covers coalesce)
open Native (ModuleRow boundedModuleName findModule moduleKey)
open SortedList (sortDedup)
open Utf8 (Text)

/-! ## Digests -/

/-- One byte of the digest loop. -/
def mixByte (digest : UInt64) (byte : UInt8) : UInt64 :=
  (digest ^^^ UInt64.ofNat byte.toNat) * 0x100000001b3

/-- `format!("fnv1a64:{digest:016x}")` of some bytes. -/
def fnv1a64 (bytes : List UInt8) : Text :=
  "fnv1a64:".toList ++ numeral 16 (bytes.foldl mixByte 0xcbf29ce484222325).toNat

/-- `trace_scope_digest`. -/
def traceScopeDigest (module : Text) (ranges : List (Nat × Nat)) (kinds threads : List Nat) :
    Text :=
  fnv1a64 (Utf8.encode module ++ [0] ++
    (ranges.flatMap fun r => LittleEndian.encode 8 r.1 ++ LittleEndian.encode 8 r.2) ++ [0xff] ++
    kinds.flatMap (LittleEndian.encode 4) ++ [0xfe] ++ threads.flatMap (LittleEndian.encode 4))

/-! ## The request -/

/-- `trace_kind_id`. -/
def traceKindId (name : String) : Except HubError Nat :=
  match name with
  | "exec" => .ok 9
  | "memory" => .ok 10
  | "branch" => .ok 4
  | "syscall" => .ok 5
  | "exception" => .ok 6
  | "registers" => .ok 13
  | "exec_plain" => .ok 3
  | "memory_plain" => .ok 2
  | _ => .error (.validation s!"unsupported Trace kind: {name}")

/-- `req`. -/
def req (value : Option Json) (name : String) : Except HubError String :=
  match value.bind Json.asStr with
  | some text => .ok text
  | none => .error (.validation s!"{name} must be string")

/-- `parse_u64`. -/
def parseInteger (text : String) : Except HubError Nat :=
  match parseU64 text with
  | some n => .ok n
  | none => .error (.validation s!"invalid integer: {String.ofList (Hooks.trim text.toList)}")

/-- One of the kinds. -/
def parseKind (value : Json) : Except HubError Nat :=
  match value.asStr with
  | none => .error (.validation "Trace kind must be a string")
  | some name => traceKindId name

/-- The kinds of a request. -/
def parseKinds (values : Option Json) : Except HubError (List Nat) :=
  match values.bind Json.asArray with
  | none => .error (.validation "Trace kinds must be an array")
  | some values =>
      if values = [] ∨ 8 < values.length then
        .error (.validation "Trace kinds must contain 1..8 entries")
      else values.mapM parseKind

/-- `parse_value_u64`. -/
def parseValue (value : Json) : Except HubError Nat :=
  match value.asStr with
  | none => .error (.validation "address must be string")
  | some text => parseInteger text

/-- One of the threads. -/
def parseThread (value : Json) : Except HubError Nat :=
  (parseValue value).bind fun n =>
    if n < 2 ^ 32 then .ok n else .error (.validation "Trace thread id is out of range")

/-- The threads of a request. -/
def parseThreads (values : Option Json) : Except HubError (List Nat) :=
  let values := (values.bind Json.asArray).getD []
  if 64 < values.length then
    .error (.validation "Trace thread selection exceeds 64 entries")
  else values.mapM parseThread

/-- The selected threads are among the live ones.  There are none when the Agent does not
answer. -/
def checkLive (live : Option (List Nat)) (threads : List Nat) : Except HubError Unit :=
  if threads = [] then .ok ()
  else
    match live with
    | none => .error .request
    | some live =>
        match threads.find? fun thread => thread ∉ live with
        | none => .ok ()
        | some missing => .error (.validation s!"Trace thread is not live: {missing}")

/-- One of the ranges, of a module of a size. -/
def parseRange (size : Nat) (value : Json) : Except HubError (Nat × Nat) :=
  match value with
  | .object _ => do
      let rvaBegin ← parseInteger (← req (value.get "rva_begin") "rva_begin")
      let rvaEnd ← parseInteger (← req (value.get "rva_end") "rva_end")
      if rvaEnd ≤ rvaBegin then
        .error (.validation "Trace RVA end must be greater than RVA begin")
      else if size < rvaEnd then
        let size := String.ofList (Nat.toDigits 16 size)
        .error (.validation s!"Trace RVA range exceeds module size 0x{size}")
      else .ok (rvaBegin, rvaEnd)
  | _ => .error (.validation "Trace range must be an object")

/-- The ranges that a request lists. -/
def parseRangeList (size : Nat) (values : Option Json) : Except HubError (List (Nat × Nat)) :=
  match values.bind Json.asArray with
  | none => .ok []
  | some values =>
      if 16 < values.length then .error (.validation "Trace scope exceeds 16 ranges")
      else values.mapM (parseRange size)

/-- The ranges of a request, the whole module when it lists none. -/
def parseRanges (size : Nat) (values : Option Json) : Except HubError (List (Nat × Nat)) :=
  (parseRangeList size values).map fun ranges => if ranges = [] then [(0, size)] else ranges

/-- `checked_add`s of the base of the module. -/
def addBase (base : Nat) (r : Nat × Nat) : Except HubError (Nat × Nat) :=
  if 2 ^ 64 ≤ base + r.1 then .error (.validation "Trace RVA begin overflows")
  else if 2 ^ 64 ≤ base + r.2 then .error (.validation "Trace RVA end overflows")
  else .ok (base + r.1, base + r.2)

/-! ## The scope -/

/-- `TraceScopeSelection`. -/
@[ext] structure TraceScopeSelection where
  module : String
  moduleBase : Nat
  moduleEnd : Nat
  ranges : List (Nat × Nat)
  rvaRanges : List (Nat × Nat)
  kinds : List Nat
  threads : List Nat
  digest : Text
  deriving DecidableEq

/-- `bounded_module_name` of a string. -/
def moduleName (text : String) : Except HubError String :=
  boundedModuleName (String.ofList (Hooks.trim text.toList))

/-- `trace_scope_query` up to the selection it keeps.  `modules` and `live` are what the Agent
answers. -/
def traceScopeQuery (args : String → Option Json) (modules : Option (List ModuleRow))
    (live : Option (List Nat)) : Except HubError TraceScopeSelection := do
  let requested ← moduleName (← req (args "module") "module")
  let some modules := modules | .error .request
  let row ← findModule modules requested
  let size := row.last + 1 - row.base
  let kinds := sortDedup (← parseKinds (args "kinds"))
  let threads := sortDedup (← parseThreads (args "threads"))
  checkLive live threads
  let rvaRanges := coalesce (← parseRanges size (args "ranges"))
  let ranges ← rvaRanges.mapM (addBase row.base)
  return {
    module := row.name
    moduleBase := row.base
    moduleEnd := row.last + 1
    ranges
    rvaRanges
    kinds
    threads
    digest := traceScopeDigest row.name.toList ranges kinds threads }

/-! ## What is parsed -/

theorem mapM_eq_ok {ε α β : Type} {f : α → Except ε β} {l : List α} {out : List β}
    (h : l.mapM f = .ok out) : out.length = l.length ∧ ∀ b ∈ out, ∃ a ∈ l, f a = .ok b := by
  induction l generalizing out with
  | nil =>
      cases h
      exact ⟨rfl, fun b hb => by cases hb⟩
  | cons a l ih =>
      rw [List.mapM_cons] at h
      obtain ⟨b, hb, h⟩ := Fallible.bind_eq_ok.mp h
      obtain ⟨rest, hrest, h⟩ := Fallible.bind_eq_ok.mp h
      cases h
      obtain ⟨hlen, hmem⟩ := ih hrest
      refine ⟨by rw [List.length_cons, List.length_cons, hlen], fun c hc => ?_⟩
      rcases List.mem_cons.mp hc with rfl | hc
      · exact ⟨a, List.mem_cons_self, hb⟩
      · obtain ⟨a', ha', hf⟩ := hmem c hc
        exact ⟨a', List.mem_cons_of_mem a ha', hf⟩

/-- A range that is accepted is not empty and lies in the module. -/
theorem parseRange_ok {size : Nat} {value : Json} {r : Nat × Nat}
    (h : parseRange size value = .ok r) : r.1 < r.2 ∧ r.2 ≤ size := by
  unfold parseRange at h
  split at h
  · obtain ⟨text, -, h⟩ := Fallible.bind_eq_ok.mp h
    obtain ⟨rvaBegin, -, h⟩ := Fallible.bind_eq_ok.mp h
    obtain ⟨text', -, h⟩ := Fallible.bind_eq_ok.mp h
    obtain ⟨rvaEnd, -, h⟩ := Fallible.bind_eq_ok.mp h
    split at h
    · cases h
    · split at h
      · cases h
      · cases h
        exact ⟨by omega, by omega⟩
  · cases h

theorem parseRanges_ok {size : Nat} (hsize : 0 < size) {values : Option Json}
    {l : List (Nat × Nat)} (h : parseRanges size values = .ok l) :
    l ≠ [] ∧ l.length ≤ 16 ∧ ∀ r ∈ l, r.1 < r.2 ∧ r.2 ≤ size := by
  obtain ⟨ranges, hranges, rfl⟩ := Fallible.map_eq_ok.mp h
  have hall : ranges.length ≤ 16 ∧ ∀ r ∈ ranges, r.1 < r.2 ∧ r.2 ≤ size := by
    unfold parseRangeList at hranges
    split at hranges
    · cases hranges
      exact ⟨by simp, fun r hr => by cases hr⟩
    next values =>
      split at hranges
      · cases hranges
      next hfew =>
        obtain ⟨hlen, hmem⟩ := mapM_eq_ok hranges
        refine ⟨by omega, fun r hr => ?_⟩
        obtain ⟨value, -, hvalue⟩ := hmem r hr
        exact parseRange_ok hvalue
  split
  next => simp [hsize]
  next hne => exact ⟨hne, hall⟩

theorem parseKinds_ok {values : Option Json} {kinds : List Nat}
    (h : parseKinds values = .ok kinds) : kinds ≠ [] ∧ kinds.length ≤ 8 := by
  unfold parseKinds at h
  split at h
  · cases h
  · split at h
    · cases h
    next hcount =>
      rw [not_or] at hcount
      obtain ⟨hlen, -⟩ := mapM_eq_ok h
      refine ⟨?_, by omega⟩
      rintro rfl
      exact hcount.1 (List.length_eq_zero_iff.mp hlen.symm)

theorem checkLive_ok {live : Option (List Nat)} {threads : List Nat}
    (h : checkLive live threads = .ok ()) :
    threads ≠ [] → ∃ l, live = some l ∧ ∀ thread ∈ threads, thread ∈ l := by
  intro hne
  unfold checkLive at h
  rw [if_neg hne] at h
  split at h
  · cases h
  next l =>
    split at h
    next hnone =>
      refine ⟨l, rfl, fun thread hthread => ?_⟩
      simpa using List.find?_eq_none.mp hnone thread hthread
    next => cases h

theorem findModule_ok {modules : List ModuleRow} {name : String} {row : ModuleRow}
    (h : findModule modules name = .ok row) : row.base < row.last + 1 ∧ row.last + 1 ≠ 2 ^ 64 := by
  unfold findModule at h
  split at h
  · cases h
  · split at h
    · cases h
    · split at h
      · cases h
      next hend hrange =>
        cases h
        exact ⟨by omega, hend⟩

/-- The addresses of a scope are those of the module plus the relative ones. -/
theorem mapM_addBase {base : Nat} {l out : List (Nat × Nat)}
    (h : l.mapM (addBase base) = .ok out) : out = l.map fun r => (base + r.1, base + r.2) := by
  induction l generalizing out with
  | nil =>
      cases h
      rfl
  | cons r l ih =>
      rw [List.mapM_cons] at h
      obtain ⟨b, hb, h⟩ := Fallible.bind_eq_ok.mp h
      obtain ⟨rest, hrest, h⟩ := Fallible.bind_eq_ok.mp h
      cases h
      rw [addBase] at hb
      split at hb
      · cases hb
      · split at hb
        · cases hb
        · cases hb
          rw [ih hrest, List.map_cons]

/-! ## The scope in normal form -/

/-- What the selection of a scope is. -/
structure TraceScopeSelection.WellFormed (s : TraceScopeSelection) : Prop where
  /-- Its ranges are not empty and neither overlap nor touch. -/
  apart : Apart s.rvaRanges
  nonempty : s.rvaRanges ≠ []
  few : s.rvaRanges.length ≤ 16
  /-- They lie in the module. -/
  inside : ∀ r ∈ s.rvaRanges, s.moduleBase + r.2 ≤ s.moduleEnd
  shifted : s.ranges = s.rvaRanges.map fun r => (s.moduleBase + r.1, s.moduleBase + r.2)
  kinds : s.kinds.SortedLT
  someKind : s.kinds ≠ []
  threads : s.threads.SortedLT
  digest : s.digest = traceScopeDigest s.module.toList s.ranges s.kinds s.threads

/-- The relative addresses that a request names, in a module of a size. -/
def Asks (args : String → Option Json) (size x : Nat) : Prop :=
  ∃ l, parseRanges size (args "ranges") = .ok l ∧ Covers l x

/-- The kinds that a request names. -/
def AsksKind (args : String → Option Json) (kind : Nat) : Prop :=
  ∃ l, parseKinds (args "kinds") = .ok l ∧ kind ∈ l

/-- The threads that a request names. -/
def AsksThread (args : String → Option Json) (thread : Nat) : Prop :=
  ∃ l, parseThreads (args "threads") = .ok l ∧ thread ∈ l

/-- The module that a request finds among those that the Agent answers. -/
def Finds (args : String → Option Json) (modules : Option (List ModuleRow)) (row : ModuleRow) :
    Prop :=
  ∃ rows requested, modules = some rows ∧
    (req (args "module") "module").bind moduleName = .ok requested ∧
    findModule rows requested = .ok row

/-- What the selection of a scope has to do with the request, and with what the Agent answers. -/
structure TraceScopeSelection.Answers (s : TraceScopeSelection) (args : String → Option Json)
    (modules : Option (List ModuleRow)) (live : Option (List Nat)) : Prop where
  module : ∃ row, Finds args modules row ∧ s.module = row.name ∧ s.moduleBase = row.base ∧
    s.moduleEnd = row.last + 1
  addresses : ∀ x, Covers s.rvaRanges x ↔ Asks args (s.moduleEnd - s.moduleBase) x
  kinds : ∀ kind, kind ∈ s.kinds ↔ AsksKind args kind
  threads : ∀ thread, thread ∈ s.threads ↔ AsksThread args thread
  live : s.threads ≠ [] → ∃ l, live = some l ∧ ∀ thread ∈ s.threads, thread ∈ l

variable {args : String → Option Json} {modules : Option (List ModuleRow)}
  {live : Option (List Nat)} {s : TraceScopeSelection}

/-- A scope is in normal form, and has what the request names. -/
theorem traceScopeQuery_spec (h : traceScopeQuery args modules live = .ok s) :
    s.WellFormed ∧ s.Answers args modules live := by
  obtain ⟨text, htext, h⟩ := Fallible.bind_eq_ok.mp h
  obtain ⟨requested, hrequested, h⟩ := Fallible.bind_eq_ok.mp h
  cases hmodules : modules with
  | none =>
      rw [hmodules] at h
      cases h
  | some rows =>
      rw [hmodules] at h
      obtain ⟨row, hrow, h⟩ := Fallible.bind_eq_ok.mp h
      obtain ⟨kinds, hkinds, h⟩ := Fallible.bind_eq_ok.mp h
      obtain ⟨threads, hthreads, h⟩ := Fallible.bind_eq_ok.mp h
      obtain ⟨_, hlive, h⟩ := Fallible.bind_eq_ok.mp h
      obtain ⟨asked, hasked, h⟩ := Fallible.bind_eq_ok.mp h
      obtain ⟨ranges, hranges, h⟩ := Fallible.bind_eq_ok.mp h
      cases h
      obtain ⟨hlt, hfit⟩ := findModule_ok hrow
      obtain ⟨hne, hfew, hall⟩ := parseRanges_ok (by omega) hasked
      have hlts : ∀ r ∈ asked, r.1 < r.2 := fun r hr => (hall r hr).1
      obtain ⟨hapart, hcovers⟩ := IntervalUnion.coalesce_spec hlts
      have hinside := IntervalUnion.snd_le_of_mem_coalesce hlts fun r hr => (hall r hr).2
      obtain ⟨hkind, -⟩ := parseKinds_ok hkinds
      constructor
      · constructor
        case apart => exact hapart
        case nonempty =>
          intro hnil
          obtain ⟨r, hr⟩ := List.exists_mem_of_ne_nil asked hne
          have hin : Covers (coalesce asked) r.1 := (hcovers r.1).mpr ⟨r, hr, le_rfl, hlts r hr⟩
          simp only at hnil
          rw [hnil] at hin
          exact IntervalUnion.not_covers_nil _ hin
        case few => exact (IntervalUnion.length_coalesce_le asked).trans hfew
        case inside =>
          intro r hr
          have hle := hinside r hr
          simp only
          omega
        case shifted => exact mapM_addBase hranges
        case kinds => exact SortedList.sortedLT_sortDedup kinds
        case someKind =>
          obtain ⟨kind, hmem⟩ := List.exists_mem_of_ne_nil kinds hkind
          exact List.ne_nil_of_mem (SortedList.mem_sortDedup.mpr hmem)
        case threads => exact SortedList.sortedLT_sortDedup threads
        case digest => rfl
      · constructor
        case module =>
          have hname := Fallible.bind_eq_ok.mpr ⟨text, htext, hrequested⟩
          exact ⟨row, ⟨rows, requested, rfl, hname, hrow⟩, rfl, rfl, rfl⟩
        case addresses =>
          intro x
          rw [hcovers x]
          constructor
          · intro hx
            exact ⟨asked, hasked, hx⟩
          · rintro ⟨l, hl, hx⟩
            rw [hl] at hasked
            cases hasked
            exact hx
        case kinds =>
          intro kind
          rw [SortedList.mem_sortDedup]
          constructor
          · intro hmem
            exact ⟨kinds, hkinds, hmem⟩
          · rintro ⟨l, hl, hmem⟩
            rw [hl] at hkinds
            cases hkinds
            exact hmem
        case threads =>
          intro thread
          rw [SortedList.mem_sortDedup]
          constructor
          · intro hmem
            exact ⟨threads, hthreads, hmem⟩
          · rintro ⟨l, hl, hmem⟩
            rw [hl] at hthreads
            cases hthreads
            exact hmem
        case live => exact checkLive_ok hlive

/-- A request finds one module. -/
theorem Finds.eq {row row' : ModuleRow} (h : Finds args modules row)
    (h' : Finds args modules row') : row = row' := by
  obtain ⟨rows, requested, hrows, hrequested, hrow⟩ := h
  obtain ⟨rows', requested', hrows', hrequested', hrow'⟩ := h'
  rw [hrows] at hrows'
  cases hrows'
  rw [hrequested] at hrequested'
  cases hrequested'
  rw [hrow] at hrow'
  cases hrow'
  rfl

/-- Names with one key find the same module, whatever their directories and their case. -/
theorem Finds.of_moduleKey {other : String → Option Json} {row : ModuleRow}
    {requested requested' : String} (h : Finds args modules row)
    (hrequested : (req (args "module") "module").bind moduleName = .ok requested)
    (hrequested' : (req (other "module") "module").bind moduleName = .ok requested')
    (hkey : moduleKey requested' = moduleKey requested) : Finds other modules row := by
  obtain ⟨rows, found, hrows, hfound, hrow⟩ := h
  rw [hrequested] at hfound
  cases hfound
  refine ⟨rows, requested', hrows, hrequested', ?_⟩
  rw [findModule] at hrow ⊢
  rw [hkey]
  split at hrow
  · cases hrow
  · exact hrow

/-- A scope is the only one in normal form that has what its request names.  So every request that
finds the same module and names the same addresses, kinds and threads gets it, under the same
digest. -/
theorem scope_canonical (h : traceScopeQuery args modules live = .ok s) :
    s.WellFormed ∧ s.Answers args modules live ∧
      ∀ args' modules' live' s', traceScopeQuery args' modules' live' = .ok s' →
        (∀ row, Finds args' modules' row ↔ Finds args modules row) →
        (∀ x, Asks args' (s.moduleEnd - s.moduleBase) x ↔
          Asks args (s.moduleEnd - s.moduleBase) x) →
        (∀ kind, AsksKind args' kind ↔ AsksKind args kind) →
        (∀ thread, AsksThread args' thread ↔ AsksThread args thread) → s' = s := by
  obtain ⟨hok, hanswers⟩ := traceScopeQuery_spec h
  refine ⟨hok, hanswers, ?_⟩
  intro args' modules' live' s' h' hmodule haddresses hkinds hthreads
  obtain ⟨hok', hanswers'⟩ := traceScopeQuery_spec h'
  obtain ⟨row, hrow, hname, hbase, hend⟩ := hanswers.module
  obtain ⟨row', hrow', hname', hbase', hend'⟩ := hanswers'.module
  cases ((hmodule row').mp hrow').eq hrow
  replace hname := hname'.trans hname.symm
  replace hbase := hbase'.trans hbase.symm
  replace hend := hend'.trans hend.symm
  have hrva : s'.rvaRanges = s.rvaRanges := by
    refine hok'.apart.eq_of_covers hok.apart fun x => ?_
    rw [hanswers'.addresses, hanswers.addresses, hbase, hend, haddresses]
  have hranges : s'.ranges = s.ranges := by rw [hok'.shifted, hok.shifted, hrva, hbase]
  have hsameKinds : s'.kinds = s.kinds := by
    refine hok'.kinds.eq_of_mem_iff hok.kinds fun kind => ?_
    rw [hanswers'.kinds, hanswers.kinds, hkinds]
  have hsameThreads : s'.threads = s.threads := by
    refine hok'.threads.eq_of_mem_iff hok.threads fun thread => ?_
    rw [hanswers'.threads, hanswers.threads, hthreads]
  have hdigest : s'.digest = s.digest := by
    rw [hok'.digest, hok.digest, hname, hranges, hsameKinds, hsameThreads]
  exact TraceScopeSelection.ext hname hbase hend hranges hrva hsameKinds hsameThreads hdigest

/-! ## Overlapping ranges -/

/-- What the steps of a query give makes up its scope. -/
theorem traceScopeQuery_of_ok {rows : List ModuleRow} {row : ModuleRow} {requested : String}
    {kinds threads : List Nat} {asked ranges : List (Nat × Nat)}
    (hrequested : (req (args "module") "module").bind moduleName = .ok requested)
    (hrow : findModule rows requested = .ok row) (hkinds : parseKinds (args "kinds") = .ok kinds)
    (hthreads : parseThreads (args "threads") = .ok threads)
    (hlive : checkLive live (sortDedup threads) = .ok ())
    (hasked : parseRanges (row.last + 1 - row.base) (args "ranges") = .ok asked)
    (hranges : (coalesce asked).mapM (addBase row.base) = .ok ranges) :
    traceScopeQuery args (some rows) live = .ok {
      module := row.name
      moduleBase := row.base
      moduleEnd := row.last + 1
      ranges
      rvaRanges := coalesce asked
      kinds := sortDedup kinds
      threads := sortDedup threads
      digest :=
        traceScopeDigest row.name.toList ranges (sortDedup kinds) (sortDedup threads) } := by
  obtain ⟨text, htext, hname⟩ := Fallible.bind_eq_ok.mp hrequested
  refine Fallible.bind_eq_ok.mpr ⟨text, htext, Fallible.bind_eq_ok.mpr ⟨requested, hname, ?_⟩⟩
  refine Fallible.bind_eq_ok.mpr ⟨row, hrow, Fallible.bind_eq_ok.mpr ⟨kinds, hkinds, ?_⟩⟩
  refine Fallible.bind_eq_ok.mpr ⟨threads, hthreads, Fallible.bind_eq_ok.mpr ⟨(), hlive, ?_⟩⟩
  exact Fallible.bind_eq_ok.mpr ⟨asked, hasked, Fallible.bind_eq_ok.mpr ⟨ranges, hranges, rfl⟩⟩

/-- A range of a request. -/
def rangeValue (rvaBegin rvaEnd : String) : Json :=
  .object [("rva_begin", .string rvaBegin), ("rva_end", .string rvaEnd)]

/-- A request with repetitions. -/
def overlappingArgs (name : String) : Option Json :=
  match name with
  | "module" => some (.string "APP.exe ")
  | "kinds" => some (.array [.string "branch", .string "exec", .string "branch"])
  | "ranges" => some (.array [rangeValue "0x80" "0xa0", rangeValue "32" "64",
      rangeValue "16" "0x20"])
  | "threads" => some (.array [.string "7"])
  | _ => none

/-- The scope that it gets. -/
def mergedScope : TraceScopeSelection where
  module := "C:\\app.exe"
  moduleBase := 0x400000
  moduleEnd := 0x410000
  ranges := [(0x400010, 0x400040), (0x400080, 0x4000a0)]
  rvaRanges := [(16, 64), (128, 160)]
  kinds := [4, 9]
  threads := [7]
  digest := traceScopeDigest "C:\\app.exe".toList [(0x400010, 0x400040), (0x400080, 0x4000a0)]
    [4, 9] [7]

theorem traceScopeQuery_overlapping :
    traceScopeQuery overlappingArgs (some [⟨"C:\\app.exe", 0x400000, 0x40ffff⟩]) (some [7]) =
      .ok mergedScope := by
  have hkinds : sortDedup [4, 9, 4] = [4, 9] := by
    simp [sortDedup, SortedList.dedup, List.mergeSort]
  have hthreads : sortDedup [7] = [7] := by simp [sortDedup, SortedList.dedup]
  have hmerged : coalesce [(128, 160), (32, 64), (16, 32)] = [(16, 64), (128, 160)] := by
    simp [coalesce, IntervalUnion.pairLe, IntervalUnion.absorb, List.mergeSort]
  have hthreadsParsed : parseThreads (overlappingArgs "threads") = .ok [7] := rfl
  have hlive : checkLive (some [7]) (sortDedup [7]) = .ok () := by
    rw [hthreads]
    rfl
  have hranges : (coalesce [(128, 160), (32, 64), (16, 32)]).mapM (addBase 0x400000) =
      .ok [(0x400010, 0x400040), (0x400080, 0x4000a0)] := by
    rw [hmerged]
    rfl
  have hrequested : (req (overlappingArgs "module") "module").bind moduleName = .ok "APP.exe" := rfl
  have hrow : findModule [⟨"C:\\app.exe", 0x400000, 0x40ffff⟩] "APP.exe" =
      .ok ⟨"C:\\app.exe", 0x400000, 0x40ffff⟩ := rfl
  have hasked : parseRanges 0x10000 (overlappingArgs "ranges") =
      .ok [(128, 160), (32, 64), (16, 32)] := rfl
  have hkindsParsed : parseKinds (overlappingArgs "kinds") = .ok [4, 9, 4] := rfl
  have h := traceScopeQuery_of_ok hrequested hrow hkindsParsed hthreadsParsed hlive hasked hranges
  rw [hmerged] at h
  rw [h, hkinds, hthreads]
  rfl

/-- The other spellings and orders of the same request get the same scope. -/
theorem scope_canonical_overlapping : mergedScope.WellFormed ∧ ∀ other requested' live' s',
    traceScopeQuery other (some [⟨"C:\\app.exe", 0x400000, 0x40ffff⟩]) live' = .ok s' →
    (req (other "module") "module").bind moduleName = .ok requested' →
    moduleKey requested' = moduleKey "APP.exe" →
    (∀ x, Asks other 0x10000 x ↔ Asks overlappingArgs 0x10000 x) →
    (∀ kind, AsksKind other kind ↔ AsksKind overlappingArgs kind) →
    (∀ thread, AsksThread other thread ↔ AsksThread overlappingArgs thread) →
    s' = mergedScope := by
  obtain ⟨hok, -, hsame⟩ := scope_canonical traceScopeQuery_overlapping
  refine ⟨hok, ?_⟩
  intro other requested' live' s' h' hrequested' hkey
  have hrequested : (req (overlappingArgs "module") "module").bind moduleName = .ok "APP.exe" := rfl
  refine hsame other _ live' s' h' fun row => ⟨fun hrow => ?_, fun hrow => ?_⟩
  · exact hrow.of_moduleKey hrequested' hrequested hkey.symm
  · exact hrow.of_moduleKey hrequested hrequested' hkey

end PinBridge.Scopes
