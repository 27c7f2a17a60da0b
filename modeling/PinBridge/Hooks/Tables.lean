import Mathlib.Data.Fintype.Basic
import Mathlib.Data.Nat.Find
import PinBridge.Hooks.Capture
import PinBridge.Hooks.Rules
import PinBridge.Lib.Sizes
import PinBridge.Lib.Snapshots

/-!
# Lock-free tables

Seven tables are published as snapshots behind a pointer.  The analysis and
instrumentation callbacks read them without a lock.  `contains` and
`function_contains` first test a Bloom filter whose bits are never cleared.
`function_signature`, `rule_interested`, `apply_rules`, `hook_interested` and
`hook_callback_interested` first test that the count is not zero, and
`observation_interested` tests the enabled flag and the mask of the kinds of
which every event is wanted.  `on_fetch` tests nothing, and its publisher waits
for the readers.

All readers are safe, and all but one answer as a publication of their window.
`set_observation_enabled(true)`, which `pb.on` calls for a Hook, counts as a
publication of the last filter with every event wanted.
`observation_interested` takes its answer from two words that do not belong
together.  It can see the mask of one publication and the table of a later one
that no longer lists the address because its mask covers it
(`observation_torn`).  `readers_safe` says that this is the only case.
-/

namespace PinBridge.Tables

open Snapshots (Protocol Laws)
open Transition (run Always Guarded family)
open Hooks (FunctionSignatureLayout HookRule)
open scoped Sizes

/-! ## Addresses behind a Bloom filter -/

/-- The words beside the pointer of an address table. -/
structure AddressGate where
  /-- The words of the Bloom filter. -/
  bloom : Nat → UInt64
  /-- `COUNT`. -/
  count : Nat

/-- `HOOK_BLOOM_BITS`. -/
def hookBloomBits : UInt64 := 16384 * 64

/-- The two bits of an address. -/
def bloomPositions (address : UInt64) : Nat × UInt64 × Nat × UInt64 :=
  let first := address ^^^ (address >>> 33)
  let first := first * 0xff51afd7ed558ccd
  let first := first ^^^ (first >>> 33)
  let second := address ^^^ (address >>> 29)
  let second := second * 0xc4ceb9fe1a85ec53
  let second := second ^^^ (second >>> 32)
  let firstBit := first &&& (hookBloomBits - 1)
  let secondBit := second &&& (hookBloomBits - 1)
  ((firstBit >>> 6).toNat, 1 <<< (firstBit &&& 63), (secondBit >>> 6).toNat,
    1 <<< (secondBit &&& 63))

/-- A `fetch_or` on a word of the filter. -/
def fetchOr (word : Nat) (mask : UInt64) (gate : AddressGate) : AddressGate :=
  { gate with bloom := Function.update gate.bloom word (gate.bloom word ||| mask) }

/-- The stores that insert an address. -/
def bloomInsert (address : UInt64) : List (AddressGate → AddressGate) :=
  let (firstWord, firstMask, secondWord, secondMask) := bloomPositions address
  [fetchOr firstWord firstMask, fetchOr secondWord secondMask]

/-- A load of a word of the filter.  A clear bit ends the read. -/
def bloomLoad (word : Nat) (mask : UInt64) (gate : AddressGate) : Option Bool :=
  if gate.bloom word &&& mask = 0 then some false else none

/-- The loads that look for an address. -/
def bloomMaybeContains (address : UInt64) : List (AddressGate → Option Bool) :=
  let (firstWord, firstMask, secondWord, secondMask) := bloomPositions address
  [bloomLoad firstWord firstMask, bloomLoad secondWord secondMask]

/-- A table of addresses.  The new addresses are inserted in the filter before
the swap.  The snapshot is sorted and a binary search finds what it lists. -/
def addressTable : Protocol where
  Content := List UInt64
  Query := UInt64
  Answer := Bool
  Gate := AddressGate
  gate := ⟨fun _ => 0, 0⟩
  loads := bloomMaybeContains
  before old master :=
    (master.filter fun address => address ∉ old.getD []).flatMap bloomInsert
  after master := [fun gate => { gate with count := master.length }]
  Adjustment := Empty
  adjusted _ x := x.elim
  adjust x := x.elim
  lookup snapshot address := match snapshot with
    | none => false
    | some addresses => addresses.contains address
  spins := false

/-- The Hook points and `contains`. -/
def contains : Protocol := addressTable

/-- The logged functions and `function_contains`. -/
def functionContains : Protocol := addressTable

/-! ## Tables behind a count -/

/-- A table whose readers first test the count. -/
def countedTable (Content Query Answer : Type) (size : Content → Nat) (empty : Query → Answer)
    (lookup : Content → Query → Answer) : Protocol where
  Content := Content
  Query := Query
  Answer := Answer
  Gate := Nat
  gate := 0
  loads q := [fun count => if count = 0 then some (empty q) else none]
  before _ _ := []
  after c := [fun _ => size c]
  Adjustment := Empty
  adjusted _ x := x.elim
  adjust x := x.elim
  lookup snapshot q := match snapshot with
    | none => empty q
    | some c => lookup c q
  spins := false

/-- The signatures and `function_signature`. -/
def functionSignature : Protocol :=
  countedTable (List FunctionSignatureLayout) Nat (Option FunctionSignatureLayout) List.length
    (fun _ => none) fun signatures address =>
      signatures.find? fun signature => signature.address = address

/-- What Pin does with a context, and the code it fetches. -/
structure Pin (κ : Type) extends HookRules.Native κ where
  /-- `fetch_original`: the bytes it copies, at most as many as asked for. -/
  fetchOriginal : UInt64 → Nat → List UInt8

variable {κ : Type}

/-- A call of `apply_rules`. -/
structure RuleCall (κ : Type) where
  address : Nat
  threadId : Nat
  /-- `none` is the null context. -/
  context : Option κ
  capturedArgs : Vector Nat 4
  isReturnInstruction : Bool

/-- What `rule_interested` does with the snapshot. -/
def ruleInterested (rules : List HookRule) (address : Nat) : Bool :=
  (rules.dropWhile fun rule => rule.address < address).head?.any fun rule =>
    rule.address = address

/-- What `apply_rules` does with the snapshot. -/
def applyRules (pin : Pin κ) (rules : List HookRule) (call : RuleCall κ) : Nat × Option κ :=
  match call.context with
  | none => (0, none)
  | some context =>
      let (context, writes) := HookRules.applyRules pin.toNative rules call.address call.threadId
        context call.capturedArgs call.isReturnInstruction
      (writes, some context)

/-- A reader of the rules. -/
inductive RuleQuery (κ : Type) where
  | ruleInterested (address : Nat)
  | applyRules (call : RuleCall κ)

/-- What a reader of the rules is told. -/
inductive RuleAnswer (κ : Type) where
  | interested (answer : Bool)
  | applied (writes : Nat) (context : Option κ)
  deriving DecidableEq

/-- The rules, `rule_interested` and `apply_rules`. -/
def rules (pin : Pin κ) : Protocol :=
  countedTable (List HookRule) (RuleQuery κ) (RuleAnswer κ) List.length
    (fun
      | .ruleInterested _ => .interested false
      | .applyRules call => .applied 0 call.context)
    fun rules q => match q with
      | .ruleInterested address => .interested (ruleInterested rules address)
      | .applyRules call =>
          let (writes, context) := applyRules pin rules call
          .applied writes context

/-- A Hook that a script waits for. -/
structure HookInterest where
  address : UInt64
  /-- The Hook is on a return. -/
  isReturn : Bool
  /-- `none` is every thread. -/
  threadFilter : Option UInt32
  deriving DecidableEq, Repr

/-- The snapshot of some interests.  It is sorted and a binary search finds what
it lists. -/
def interestSnapshot (interests : List HookInterest) : List HookInterest :=
  (interests.filter fun interest => interest.address ≠ 0).dedup

/-- A reader of the Hook interests. -/
inductive InterestQuery where
  | hookInterested (address : UInt64) (isReturn : Bool) (threadId : UInt32)
  | hookCallbackInterested (address : UInt64) (isReturn : Bool)

/-- The Hook interests, `hook_interested` and `hook_callback_interested`. -/
def hookInterests : Protocol :=
  countedTable (List HookInterest) InterestQuery Bool
    (fun interests => (interestSnapshot interests).length) (fun _ => false)
    fun interests q => match q with
      | .hookInterested address isReturn threadId =>
          (interestSnapshot interests).contains ⟨address, isReturn, some threadId⟩ ||
            (interestSnapshot interests).contains ⟨address, isReturn, none⟩
      | .hookCallbackInterested address isReturn =>
          (interestSnapshot interests).any fun interest =>
            interest.address = address && interest.isReturn = isReturn

/-! ## Observation -/

/-- An observation filter. -/
structure Observation where
  /-- Every entry is wanted. -/
  entryAll : Bool
  /-- Every return is wanted. -/
  returnAll : Bool
  /-- The addresses that are wanted, with whether their returns are. -/
  interests : List (UInt64 × Bool)
  deriving DecidableEq, Repr

/-- The bits of the kinds of which every event is wanted. -/
def Observation.mask (o : Observation) : Nat := o.entryAll.toNat ||| (o.returnAll.toNat <<< 1)

/-- Something is wanted. -/
def Observation.enabled (o : Observation) : Bool := o.mask ≠ 0 || !o.interests.isEmpty

/-- The snapshot of the filter.  It is sorted and a binary search finds what it
lists. -/
def Observation.snapshot (o : Observation) : List (UInt64 × Bool) :=
  (o.interests.filter fun interest => interest.1 ≠ 0).dedup

/-- The words beside the pointer of the observation table. -/
structure ObservationGate where
  /-- `OBSERVATION_ENABLED`. -/
  enabled : Bool
  /-- `OBSERVATION_ALL_MASK`. -/
  allMask : Nat

/-- The bit of a kind. -/
def observationBit (isReturn : Bool) : Nat := if isReturn then 0b10 else 0b01

/-- The filter before the first publication. -/
def Observation.none : Observation := ⟨false, false, []⟩

/-- The filter with every event of both kinds wanted too. -/
def Observation.widened (o : Observation) : Observation :=
  { o with entryAll := true, returnAll := true }

/-- The observation table and `observation_interested`.  `set_observation_enabled(true)` wants every
event until the next filter is published. -/
def observations : Protocol where
  Content := Observation
  Query := UInt64 × Bool
  Answer := Bool
  Gate := ObservationGate
  gate := ⟨false, 0⟩
  loads q := [
    fun gate => if gate.enabled then none else some false,
    fun gate => if gate.allMask &&& observationBit q.2 ≠ 0 then some true else none]
  before _ _ := []
  after o := [
    fun gate => { gate with allMask := o.mask },
    fun gate => { gate with enabled := o.enabled }]
  Adjustment := Unit
  adjusted old _ := (Option.getD old Observation.none).widened
  adjust _ := [
    fun gate => { gate with enabled := true },
    fun gate => { gate with allMask := 0b11 }]
  lookup snapshot q := match snapshot with
    | none => false
    | some o => o.snapshot.contains q
  spins := false

/-! ## Code -/

/-- Instruction bytes that replace the program's. -/
structure NativeSegment where
  start : UInt64
  bytes : List UInt8
  deriving DecidableEq, Repr

/-- The segment holds the byte at an address. -/
def NativeSegment.covers (segment : NativeSegment) (address : UInt64) : Bool :=
  segment.start ≤ address && address.toNat < segment.start.toNat + segment.bytes.length

/-- The loop of `on_fetch`.  Every pass but the last copies a byte. -/
def fetchLoop (pin : Pin κ) (segments : List NativeSegment) (address : UInt64) (requested : Nat) :
    Nat → List UInt8 → List UInt8
  | 0, copied => copied
  | fuel + 1, copied =>
      if copied.length < requested ∧ address.toNat + copied.length < 2 ^ 64 then
        let cursor := (address.toNat + copied.length).toUInt64
        let remaining := requested - copied.length
        match segments.find? fun segment => segment.covers cursor with
        | some segment =>
            let available := segment.bytes.drop (cursor - segment.start).toNat
            fetchLoop pin segments address requested fuel (copied ++ available.take remaining)
        | none =>
            let gap := match segments.find? fun segment => cursor < segment.start with
              | some segment => min (segment.start - cursor).toNat remaining
              | none => remaining
            let bytes := (pin.fetchOriginal cursor gap).take gap
            if bytes.length < gap then copied ++ bytes
            else fetchLoop pin segments address requested fuel (copied ++ bytes)
      else copied

/-- The code policy and `on_fetch`.  `replace_native` waits for the readers. -/
def codeFetch (pin : Pin κ) : Protocol where
  Content := List NativeSegment
  Query := UInt64 × Nat
  Answer := List UInt8
  Gate := Unit
  gate := ()
  loads _ := []
  before _ _ := []
  after _ := []
  Adjustment := Empty
  adjusted _ x := x.elim
  adjust x := x.elim
  lookup snapshot q := match snapshot with
    | none => (pin.fetchOriginal q.1 q.2).take q.2
    | some segments => fetchLoop pin segments q.1 q.2 q.2 []
  spins := true

/-! ## The filter -/

/-- A bit that is set stays set. -/
theorem and_or_ne_zero {word mask other : UInt64} (h : word &&& mask ≠ 0) :
    (word ||| other) &&& mask ≠ 0 := by
  intro hzero
  apply h
  rw [← UInt64.toNat_inj, UInt64.toNat_and, UInt64.toNat_or, Nat.and_or_distrib_right] at hzero
  rw [← UInt64.toNat_inj, UInt64.toNat_and]
  exact (Nat.or_eq_zero_iff.mp hzero).1

/-- A bit that is stored is set. -/
theorem or_and_ne_zero {word mask : UInt64} (h : mask ≠ 0) : (word ||| mask) &&& mask ≠ 0 := by
  rw [UInt64.or_comm]
  exact and_or_ne_zero (by simpa using h)

theorem one_shiftLeft_ne_zero (k : UInt64) : (1 : UInt64) <<< (k &&& 63) ≠ 0 := by
  have hlt : (k &&& 63).toNat % 64 < 64 := Nat.mod_lt _ (by omega)
  rw [ne_eq, ← UInt64.toNat_inj, UInt64.toNat_shiftLeft, UInt64.toNat_one, Nat.one_shiftLeft,
    Nat.mod_eq_of_lt (Nat.pow_lt_pow_right (by omega) hlt)]
  exact (Nat.two_pow_pos _).ne'

theorem bloomLoad_eq_none {word : Nat} {mask : UInt64} {gate : AddressGate} :
    bloomLoad word mask gate = none ↔ gate.bloom word &&& mask ≠ 0 := by
  simp [bloomLoad]

theorem fetchOr_keeps {word word' : Nat} {mask mask' : UInt64} {gate : AddressGate}
    (h : gate.bloom word &&& mask ≠ 0) : (fetchOr word' mask' gate).bloom word &&& mask ≠ 0 := by
  rcases eq_or_ne word word' with rfl | hne
  · simpa [fetchOr] using and_or_ne_zero h
  · simpa [fetchOr, Function.update_of_ne hne] using h

theorem fetchOr_sets {word : Nat} {mask : UInt64} {gate : AddressGate} (h : mask ≠ 0) :
    (fetchOr word mask gate).bloom word &&& mask ≠ 0 := by
  simpa [fetchOr] using or_and_ne_zero h

/-- The loads that look for the address find its bits. -/
def AddressGate.Inserted (gate : AddressGate) (address : UInt64) : Prop :=
  ∀ load ∈ bloomMaybeContains address, load gate = none

theorem AddressGate.inserted_iff {gate : AddressGate} {address : UInt64} :
    gate.Inserted address ↔
      gate.bloom (bloomPositions address).1 &&& (bloomPositions address).2.1 ≠ 0 ∧
      gate.bloom (bloomPositions address).2.2.1 &&& (bloomPositions address).2.2.2 ≠ 0 := by
  simp [Inserted, bloomMaybeContains, bloomLoad_eq_none]

/-- A store that only sets bits of the filter. -/
def BloomStore (store : AddressGate → AddressGate) : Prop :=
  ∃ word mask, store = fetchOr word mask

theorem AddressGate.Inserted.store {gate : AddressGate} {address : UInt64}
    (h : gate.Inserted address) {store : AddressGate → AddressGate} (hstore : BloomStore store) :
    (store gate).Inserted address := by
  obtain ⟨word, mask, rfl⟩ := hstore
  rw [inserted_iff] at h ⊢
  exact ⟨fetchOr_keeps h.1, fetchOr_keeps h.2⟩

/-- The gate after some stores. -/
def AddressGate.after (gate : AddressGate) (stores : List (AddressGate → AddressGate)) :
    AddressGate :=
  stores.foldl (fun gate store => store gate) gate

theorem AddressGate.Inserted.after {gate : AddressGate} {address : UInt64}
    {stores : List (AddressGate → AddressGate)} (h : gate.Inserted address)
    (hstores : ∀ store ∈ stores, BloomStore store) : (gate.after stores).Inserted address := by
  induction stores generalizing gate with
  | nil => exact h
  | cons store stores ih =>
      exact ih (h.store (hstores store (List.mem_cons_self ..)))
        fun other hother => hstores other (List.mem_cons_of_mem _ hother)

theorem bloomStore_of_mem {address : UInt64} {store : AddressGate → AddressGate}
    (h : store ∈ bloomInsert address) : BloomStore store := by
  simp only [bloomInsert, List.mem_cons, List.not_mem_nil, or_false] at h
  obtain rfl | rfl := h
  · exact ⟨_, _, rfl⟩
  · exact ⟨_, _, rfl⟩

theorem AddressGate.inserted_bloomInsert (gate : AddressGate) (address : UInt64) :
    (gate.after (bloomInsert address)).Inserted address := by
  have hfirst : (bloomPositions address).2.1 ≠ 0 := one_shiftLeft_ne_zero _
  have hsecond : (bloomPositions address).2.2.2 ≠ 0 := one_shiftLeft_ne_zero _
  rw [inserted_iff]
  exact ⟨fetchOr_keeps (fetchOr_sets hfirst), fetchOr_sets hsecond⟩

/-- All addresses that are inserted are found. -/
theorem AddressGate.inserted_flatMap {addresses : List UInt64} {address : UInt64}
    (h : address ∈ addresses) (gate : AddressGate) :
    (gate.after (addresses.flatMap bloomInsert)).Inserted address := by
  induction addresses generalizing gate with
  | nil => cases h
  | cons other addresses ih =>
      rw [List.flatMap_cons, after, List.foldl_append]
      obtain rfl | h := List.mem_cons.mp h
      · refine (inserted_bloomInsert gate address).after fun store hstore => ?_
        obtain ⟨_, -, hstore⟩ := List.mem_flatMap.mp hstore
        exact bloomStore_of_mem hstore
      · exact ih h _

/-! ## What the publications answer -/

/-- The filter holds the addresses of the table. -/
def AddressGate.Holds (gate : AddressGate) (old : Option (List UInt64)) : Prop :=
  ∀ address ∈ old.getD [], gate.Inserted address

/-- A filter that does not find the address is right. -/
theorem AddressGate.Holds.early {gate : AddressGate} {old : Option (List UInt64)}
    (h : gate.Holds old) {address : UInt64} {load : AddressGate → Option Bool}
    (hload : load ∈ bloomMaybeContains address) {a : Bool} (ha : load gate = some a) :
    addressTable.lookup old address = a := by
  have hnot : address ∉ old.getD [] := fun hmem => by
    rw [h address hmem load hload] at ha
    cases ha
  have hfalse : a = false := by
    simp only [bloomMaybeContains, List.mem_cons, List.not_mem_nil, or_false] at hload
    obtain rfl | rfl := hload <;> simp only [bloomLoad] at ha <;> split at ha <;> cases ha <;> rfl
  rw [hfalse]
  cases old with
  | none => rfl
  | some addresses => simpa [addressTable] using hnot

theorem AddressGate.Holds.store {gate : AddressGate} {old : Option (List UInt64)}
    (h : gate.Holds old) {store : AddressGate → AddressGate} (hstore : BloomStore store) :
    (store gate).Holds old := fun address haddress => (h address haddress).store hstore

theorem AddressGate.Holds.of_bloom {gate gate' : AddressGate} {old : Option (List UInt64)}
    (h : gate.Holds old) (hbloom : gate'.bloom = gate.bloom) : gate'.Holds old := by
  intro address haddress
  rw [inserted_iff, hbloom, ← inserted_iff]
  exact h address haddress

/-- The filter holds a new table before the pointer does. -/
theorem AddressGate.Holds.insert {gate : AddressGate} {old : Option (List UInt64)}
    (h : gate.Holds old) (master : List UInt64) :
    (∀ store ∈ addressTable.before old master, BloomStore store) ∧
      (gate.after (addressTable.before old master)).Holds (some master) := by
  have hstores : ∀ store ∈ addressTable.before old master, BloomStore store := fun store hstore => by
    obtain ⟨_, -, hstore⟩ := List.mem_flatMap.mp hstore
    exact bloomStore_of_mem hstore
  refine ⟨hstores, fun address haddress => ?_⟩
  by_cases hold : address ∈ old.getD []
  · exact (h address hold).after hstores
  · exact inserted_flatMap (List.mem_filter.mpr ⟨haddress, by simpa using hold⟩) gate

/-- An address table answers what its snapshot lists. -/
def addressLaws : Laws addressTable where
  answer := addressTable.lookup
  Open _ _ := True
  Fits gate old := AddressGate.Holds gate old
  Preparing gate old c stores :=
    AddressGate.Holds gate old ∧ (∀ store ∈ stores, BloomStore store) ∧
      AddressGate.Holds (AddressGate.after gate stores) (some c)
  Finishing gate _ c stores :=
    AddressGate.Holds gate (some c) ∧
      ∀ store ∈ stores, ∀ g : AddressGate, (store g).bloom = g.bloom
  fits_gate address h := by cases h
  preparing_before h := ⟨h, AddressGate.Holds.insert h _⟩
  preparing_store h := ⟨h.1.store (h.2.1 _ (List.mem_cons_self ..)),
    fun store hstore => h.2.1 store (List.mem_cons_of_mem _ hstore), h.2.2⟩
  finishing_after h := by
    refine ⟨h.2.2, fun store hstore gate => ?_⟩
    obtain rfl := List.mem_singleton.mp hstore
    rfl
  finishing_adjust {g old x} := x.elim
  finishing_store h := ⟨h.1.of_bloom (h.2 _ (List.mem_cons_self ..) _),
    fun store hstore => h.2 store (List.mem_cons_of_mem _ hstore)⟩
  fits_of_finishing h := h.1
  early_fits h hload ha := h.early hload ha
  early_preparing h hload ha := h.1.early hload ha
  early_finishing h hload ha := .inr (h.1.early hload ha)
  open_fits _ _ _ := trivial
  open_preparing _ _ _ := trivial
  open_finishing _ _ _ := .inl trivial
  open_of_nil _ := trivial
  lookup_adjusted {old x q} := x.elim

/-- A count of zero is right. -/
theorem counted_early {Content Query Answer : Type} {size : Content → Nat} {empty : Query → Answer}
    {lookup : Content → Query → Answer} (hempty : ∀ c q, size c = 0 → lookup c q = empty q)
    {count : Nat} {o : Option Content} (hcount : count = (o.map size).getD 0) {q : Query}
    {load : Nat → Option Answer}
    (hload : load ∈ (countedTable Content Query Answer size empty lookup).loads q) {a : Answer}
    (ha : load count = some a) :
    (countedTable Content Query Answer size empty lookup).lookup o q = a := by
  obtain rfl := List.mem_singleton.mp hload
  obtain ⟨hzero, rfl⟩ : count = 0 ∧ empty q = a := by simpa using ha
  cases o with
  | none => rfl
  | some c =>
      have hsize : count = size c := hcount
      exact hempty c q (hsize ▸ hzero)

/-- A counted table answers what its snapshot says, if one of size 0 says
nothing. -/
def countedLaws {Content Query Answer : Type} {size : Content → Nat} {empty : Query → Answer}
    {lookup : Content → Query → Answer} (hempty : ∀ c q, size c = 0 → lookup c q = empty q) :
    Laws (countedTable Content Query Answer size empty lookup) where
  answer := (countedTable Content Query Answer size empty lookup).lookup
  Open _ _ := True
  Fits count old := count = (old.map size).getD 0
  Preparing count old _ stores := count = (old.map size).getD 0 ∧ stores = []
  Finishing count old c stores :=
    (stores = [fun _ => size c] ∧ count = (old.map size).getD 0) ∨ (stores = [] ∧ count = size c)
  fits_gate := rfl
  preparing_before h := ⟨h, rfl⟩
  preparing_store h := by cases h.2
  finishing_after h := .inl ⟨rfl, h.1⟩
  finishing_adjust {g old x} := x.elim
  finishing_store h := by
    obtain ⟨hstores, -⟩ | ⟨hstores, -⟩ := h
    · cases hstores
      exact .inr ⟨rfl, rfl⟩
    · cases hstores
  fits_of_finishing h := by
    obtain ⟨hstores, -⟩ | ⟨-, hcount⟩ := h
    · cases hstores
    · exact hcount
  early_fits h hload ha := counted_early hempty h hload ha
  early_preparing h hload ha := counted_early hempty h.1 hload ha
  early_finishing {count old c stores q load a} h hload ha := by
    obtain ⟨-, hcount⟩ | ⟨-, hcount⟩ := h
    · exact .inl (counted_early hempty hcount hload ha)
    · exact .inr (counted_early hempty (o := some c) hcount hload ha)
  open_fits _ _ _ := trivial
  open_preparing _ _ _ := trivial
  open_finishing _ _ _ := .inl trivial
  open_of_nil _ := trivial
  lookup_adjusted {old x q} := x.elim

/-- Signatures are found when there are any. -/
def functionSignatureLaws : Laws functionSignature :=
  countedLaws fun signatures address hempty => by
    rw [List.length_eq_zero_iff.mp hempty]
    rfl

/-- Rules are found when there are any. -/
def rulesLaws (pin : Pin κ) : Laws (rules pin) :=
  countedLaws fun rules q hempty => by
    rw [List.length_eq_zero_iff.mp hempty]
    cases q with
    | ruleInterested address => rfl
    | applyRules call =>
        obtain ⟨address, threadId, context, capturedArgs, isReturnInstruction⟩ := call
        cases context <;> rfl

/-- Interests are found when there are any. -/
def hookInterestsLaws : Laws hookInterests :=
  countedLaws fun interests q hempty => by
    rw [List.length_eq_zero_iff] at hempty
    cases q <;> simp [hempty]

/-- A code policy answers what its segments say. -/
def codeFetchLaws (pin : Pin κ) : Laws (codeFetch pin) where
  answer := (codeFetch pin).lookup
  Open _ _ := True
  Fits _ _ := True
  Preparing _ _ _ stores := stores = []
  Finishing _ _ _ stores := stores = []
  fits_gate := trivial
  preparing_before _ := rfl
  preparing_store h := by cases h
  finishing_after _ := rfl
  finishing_adjust {g old x} := x.elim
  finishing_store h := by cases h
  fits_of_finishing _ := trivial
  early_fits _ hload := by cases hload
  early_preparing _ hload := by cases hload
  early_finishing _ hload := by cases hload
  open_fits _ _ _ := trivial
  open_preparing _ _ _ := trivial
  open_finishing _ _ _ := .inl trivial
  open_of_nil _ := trivial
  lookup_adjusted {old x q} := x.elim

/-! ## Observation filters -/

/-- Every event of the kind is wanted. -/
def Observation.all (o : Observation) (isReturn : Bool) : Bool :=
  if isReturn then o.returnAll else o.entryAll

/-- What a filter wants. -/
def Observation.answer (o : Observation) (q : UInt64 × Bool) : Bool :=
  o.all q.2 || o.snapshot.contains q

theorem Observation.mask_and_bit (o : Observation) (isReturn : Bool) :
    o.mask &&& observationBit isReturn ≠ 0 ↔ o.all isReturn = true := by
  obtain ⟨entryAll, returnAll, interests⟩ := o
  cases entryAll <;> cases returnAll <;> cases isReturn <;>
    simp [mask, all, observationBit]

/-- A filter that is not enabled wants nothing. -/
theorem Observation.answer_of_not_enabled {o : Observation} (h : o.enabled = false)
    (q : UInt64 × Bool) : o.answer q = false := by
  obtain ⟨hmask, hinterests⟩ : o.mask = 0 ∧ o.interests = [] := by simpa [enabled] using h
  have hall : o.all q.2 = false := by
    by_contra hall
    exact (o.mask_and_bit q.2).mpr (by simpa using hall) (by simp [hmask])
  simp [answer, hall, snapshot, hinterests]

theorem Observation.answer_of_all {o : Observation} {q : UInt64 × Bool} (h : o.all q.2 = true) :
    o.answer q = true := by
  simp [answer, h]

/-- The gate while the flag says nothing that `old` does not, and the mask is that of `c`. -/
structure ObservationGate.Between (gate : ObservationGate) (old c : Observation) : Prop where
  enabled : gate.enabled = false → old.enabled = false
  allMask : gate.allMask = c.mask

/-- What ends a read of a filter whose mask may be newer. -/
theorem ObservationGate.Between.early {gate : ObservationGate} {old c : Observation}
    (h : gate.Between old c) {q : UInt64 × Bool} {load : ObservationGate → Option Bool}
    (hload : load ∈ observations.loads q) {a : Bool} (ha : load gate = some a) :
    old.answer q = a ∨ c.answer q = a := by
  obtain rfl | hload := List.mem_cons.mp hload
  · obtain ⟨henabled, rfl⟩ : gate.enabled = false ∧ a = false := by
      cases hgate : gate.enabled <;> simp_all
    exact .inl (Observation.answer_of_not_enabled (h.enabled henabled) q)
  · obtain rfl := List.mem_singleton.mp hload
    obtain ⟨hmask, rfl⟩ : gate.allMask &&& observationBit q.2 ≠ 0 ∧ true = a := by simpa using ha
    exact .inr (Observation.answer_of_all ((c.mask_and_bit q.2).mp (h.allMask ▸ hmask)))

/-- A reader goes on when not every event is wanted. -/
theorem ObservationGate.Between.open {gate : ObservationGate} {old c : Observation}
    (h : gate.Between old c) {q : UInt64 × Bool} {load : ObservationGate → Option Bool}
    (hload : (observations.loads q).getLast? = some load) (ha : load gate = none) :
    c.all q.2 = false := by
  obtain rfl := Option.some.inj hload
  have hnone : (if gate.allMask &&& observationBit q.2 ≠ 0 then some true else none) =
      (none : Option Bool) := ha
  have hmask : ¬ gate.allMask &&& observationBit q.2 ≠ 0 := by simpa using hnone
  rw [h.allMask, c.mask_and_bit] at hmask
  simpa using hmask

/-- The gate while a filter is published, or the last one is widened. -/
def ObservationGate.Storing (gate : ObservationGate) (old c : Observation)
    (stores : List (ObservationGate → ObservationGate)) : Prop :=
  (stores = observations.after c ∧ gate.Between old old) ∨
    (stores = (observations.after c).tail ∧ gate.Between old c) ∨
    (c = old.widened ∧ (stores = observations.adjust () ∨ stores = (observations.adjust ()).tail ∧
      gate.enabled = true) ∧ gate.Between old old) ∨
    (stores = [] ∧ gate.Between c c)

/-- What ends a read is what one of the two filters wants. -/
theorem ObservationGate.Storing.early {gate : ObservationGate} {old c : Observation}
    {stores : List (ObservationGate → ObservationGate)} (h : gate.Storing old c stores)
    {q : UInt64 × Bool} {load : ObservationGate → Option Bool} (hload : load ∈ observations.loads q)
    {a : Bool} (ha : load gate = some a) : old.answer q = a ∨ c.answer q = a := by
  obtain ⟨-, hgate⟩ | ⟨-, hgate⟩ | ⟨-, -, hgate⟩ | ⟨-, hgate⟩ := h
  · exact .inl ((hgate.early hload ha).elim id id)
  · exact hgate.early hload ha
  · exact .inl ((hgate.early hload ha).elim id id)
  · exact .inr ((hgate.early hload ha).elim id id)

theorem ObservationGate.Storing.open {gate : ObservationGate} {old c : Observation}
    {stores : List (ObservationGate → ObservationGate)} (h : gate.Storing old c stores)
    {q : UInt64 × Bool} {load : ObservationGate → Option Bool}
    (hload : (observations.loads q).getLast? = some load) (ha : load gate = none) :
    old.all q.2 = false ∨ c.all q.2 = false := by
  obtain ⟨-, hgate⟩ | ⟨-, hgate⟩ | ⟨-, -, hgate⟩ | ⟨-, hgate⟩ := h
  · exact .inl (hgate.open hload ha)
  · exact .inr (hgate.open hload ha)
  · exact .inl (hgate.open hload ha)
  · exact .inr (hgate.open hload ha)

theorem ObservationGate.Storing.store {gate : ObservationGate} {old c : Observation}
    {store : ObservationGate → ObservationGate} {stores : List (ObservationGate → ObservationGate)}
    (h : gate.Storing old c (store :: stores)) : (store gate).Storing old c stores := by
  obtain ⟨hstores, hgate⟩ | ⟨hstores, hgate⟩ | ⟨rfl, hstores, hgate⟩ | ⟨hstores, -⟩ := h
  · cases hstores
    exact .inr (.inl ⟨rfl, hgate.enabled, rfl⟩)
  · cases hstores
    exact .inr (.inr (.inr ⟨rfl, id, hgate.allMask⟩))
  · obtain hstores | ⟨hstores, henabled⟩ := hstores
    · cases hstores
      exact .inr (.inr (.inl ⟨rfl, .inr ⟨rfl, rfl⟩, nofun, hgate.allMask⟩))
    · cases hstores
      refine .inr (.inr (.inr ⟨rfl, fun hnot => ?_, ?_⟩))
      · exact absurd (henabled.symm.trans hnot) (by simp)
      · simp [Observation.widened, Observation.mask]
  · cases hstores

/-- An observation table answers for its mask too. -/
def observationsLaws : Laws observations where
  answer old q := (Option.getD old Observation.none).answer q
  Open old q := (Option.getD old Observation.none).all q.2 = false
  Fits gate old := ObservationGate.Between gate (Option.getD old .none) (Option.getD old .none)
  Preparing gate old _ stores :=
    ObservationGate.Between gate (Option.getD old .none) (Option.getD old .none) ∧ stores = []
  Finishing gate old c stores := ObservationGate.Storing gate (Option.getD old .none) c stores
  fits_gate := ⟨fun _ => rfl, rfl⟩
  preparing_before h := ⟨h, rfl⟩
  preparing_store h := by cases h.2
  finishing_after h := .inl ⟨rfl, h.1⟩
  finishing_adjust h := .inr (.inr (.inl ⟨rfl, .inl rfl, h⟩))
  finishing_store h := h.store
  fits_of_finishing h := by
    obtain ⟨hstores, -⟩ | ⟨hstores, -⟩ | ⟨-, hstores | ⟨hstores, -⟩, -⟩ | ⟨-, hgate⟩ := h
    · cases hstores
    · cases hstores
    · cases hstores
    · cases hstores
    · exact hgate
  early_fits h hload ha := (h.early hload ha).elim id id
  early_preparing h hload ha := (h.1.early hload ha).elim id id
  early_finishing h hload ha := h.early hload ha
  open_fits h hload ha := h.open hload ha
  open_preparing h hload ha := h.1.open hload ha
  open_finishing h hload ha := h.open hload ha
  open_of_nil h := by cases h
  lookup_adjusted {old x q} := by cases old <;> rfl

/-! ## All tables -/

/-- The tables. -/
inductive Table where
  | hooks
  | functions
  | signatures
  | rules
  | observations
  | hookInterests
  | codeFetch
  deriving DecidableEq, Repr

/-- How each table is published and read. -/
def protocol (pin : Pin κ) : Table → Protocol
  | .hooks => contains
  | .functions => functionContains
  | .signatures => functionSignature
  | .rules => rules pin
  | .observations => observations
  | .hookInterests => hookInterests
  | .codeFetch => codeFetch pin

/-- What the publications of each table answer. -/
def laws (pin : Pin κ) : (table : Table) → Laws (protocol pin table)
  | .hooks => addressLaws
  | .functions => addressLaws
  | .signatures => functionSignatureLaws
  | .rules => rulesLaws pin
  | .observations => observationsLaws
  | .hookInterests => hookInterestsLaws
  | .codeFetch => codeFetchLaws pin

/-- The filter of a publication. -/
def filterAt (contents : Nat → Option Observation) (k : Nat) : Observation :=
  (contents k).getD .none

/-- A filter lists the addresses of a kind that another one lists. -/
def Observation.Lists (o old : Observation) (isReturn : Bool) : Prop :=
  ∀ q ∈ old.snapshot, q.2 = isReturn → q ∈ o.snapshot

instance (o old : Observation) (isReturn : Bool) : Decidable (o.Lists old isReturn) :=
  List.decidableBAll (fun q : UInt64 × Bool => q.2 = isReturn → q ∈ o.snapshot) old.snapshot

/-- A filter of which every event of a kind is wanted lists the addresses of the
kind that the last filter before it listed of which not every event was wanted. -/
def Observation.Covers (contents : Nat → Option Observation) (last : Nat) (o : Observation) :
    Prop :=
  ∀ isReturn, o.all isReturn = true → ∀ k ≤ last, (filterAt contents k).all isReturn = false →
    (∀ m ≤ last, k < m → (filterAt contents m).all isReturn = true) →
      o.Lists (filterAt contents k) isReturn

instance Observation.decidableCovers (contents : Nat → Option Observation) (last : Nat)
    (o : Observation) : Decidable (o.Covers contents last) :=
  inferInstanceAs (Decidable (∀ _, _ → ∀ k ≤ last, _ → (∀ m ≤ last, _ → _) → _))

/-- Only covering observation filters are published. -/
def Covering (pin : Pin κ) {τ : Type} : (table : Table) →
    Snapshots.State (protocol pin table) τ → Snapshots.Action (protocol pin table) τ → Prop
  | .observations, s, .publish o => Observation.Covers s.contents s.last o
  | _, _, _ => True

instance (pin : Pin κ) {τ : Type} : (table : Table) →
    (s : Snapshots.State (protocol pin table) τ) →
    (a : Snapshots.Action (protocol pin table) τ) → Decidable (Covering pin table s a)
  | .observations, s, .publish o => Observation.decidableCovers s.contents s.last o
  | .observations, _, .read .. | .observations, _, .reader _ | .observations, _, .adjust _
  | .observations, _, .publisher => inferInstanceAs (Decidable True)
  | .hooks, _, _ | .functions, _, _ | .signatures, _, _ | .rules, _, _ | .hookInterests, _, _
  | .codeFetch, _, _ => inferInstanceAs (Decidable True)

/-! ## The history of the filters -/

/-- Every published filter covers those before it. -/
def Covered {τ : Type} (s : Snapshots.State observations τ) : Prop :=
  (∀ m < s.last, Observation.Covers s.contents m (filterAt s.contents (m + 1))) ∧
    ∀ o stores, s.publisher = .preparing o stores → Observation.Covers s.contents s.last o

/-- What is published does not change. -/
theorem Observation.Covers.congr {contents contents' : Nat → Option Observation} {last : Nat}
    {o : Observation} (h : o.Covers contents last) (hcontents : ∀ k ≤ last, contents' k = contents k) :
    o.Covers contents' last := by
  have hfilter : ∀ k ≤ last, filterAt contents' k = filterAt contents k := fun k hk => by
    rw [filterAt, filterAt, hcontents k hk]
  intro isReturn hall k hk hopen hbetween
  rw [hfilter k hk] at hopen ⊢
  exact h isReturn hall k hk hopen fun m hm hkm => hfilter m hm ▸ hbetween m hm hkm

/-- What a reader finds in a filter is what a filter of its window wants. -/
theorem Covered.seen {τ : Type} {s : Snapshots.State observations τ} (h : Covered s)
    {q : UInt64 × Bool} {since : Nat} (hthrough : observationsLaws.Through s q since) :
    observationsLaws.Seen s q since (observations.lookup (s.contents s.last) q) := by
  obtain ⟨k, hsince, hk, hopen⟩ := hthrough
  have hlookup : observations.lookup (s.contents s.last) q =
      (filterAt s.contents s.last).snapshot.contains q := by
    show observations.lookup (s.contents s.last) q =
      (Option.getD (s.contents s.last) Observation.none).snapshot.contains q
    cases s.contents s.last <;> rfl
  rw [hlookup]
  -- the last filter of the window of which not every event of the kind is wanted
  let m₀ := Nat.findGreatest (fun m => (filterAt s.contents m).all q.2 = false) s.last
  have hm₀ : (filterAt s.contents m₀).all q.2 = false :=
    Nat.findGreatest_spec (P := fun m => (filterAt s.contents m).all q.2 = false) hk hopen
  have hle : m₀ ≤ s.last := Nat.findGreatest_le s.last
  have hwindow : since ≤ m₀ := hsince.trans (Nat.le_findGreatest hk hopen)
  cases hfound : (filterAt s.contents s.last).snapshot.contains q with
  | true =>
      refine ⟨s.last, hsince.trans hk, le_rfl, ?_⟩
      show (filterAt s.contents s.last).answer q = true
      simp only [Observation.answer, hfound, Bool.or_true]
  | false =>
      refine ⟨m₀, hwindow, hle, ?_⟩
      show (filterAt s.contents m₀).answer q = false
      rw [Observation.answer, hm₀, Bool.false_or]
      rcases hle.eq_or_lt with heq | hlt
      · rw [heq, hfound]
      · have hlater : ∀ m ≤ s.last, m₀ < m → (filterAt s.contents m).all q.2 = true :=
          fun m hm hlm => by
            simpa using Nat.findGreatest_is_greatest (P := fun m =>
              (filterAt s.contents m).all q.2 = false) hlm hm
        obtain ⟨m, hm⟩ : ∃ m, s.last = m + 1 := ⟨s.last - 1, by omega⟩
        have hlists := h.1 m (by omega) q.2 (hm ▸ hlater s.last le_rfl hlt) m₀ (by omega) hm₀
          fun m' hm' => hlater m' (by omega)
        by_contra hlisted
        have hmem := hlists q (by simpa using hlisted) rfl
        rw [← hm] at hmem
        simp [hmem] at hfound

/-- A covering publication keeps the history covered. -/
theorem Covered.publish {τ : Type} {s s' : Snapshots.State observations τ} (h : Covered s)
    {o : Observation} (ho : o.Covers s.contents s.last) (hs' : s.Publishes s' o) : Covered s' := by
  obtain ⟨hlast, hcontents, hother⟩ := hs'
  have hsame : ∀ k ≤ s.last, s'.contents k = s.contents k := fun k hk => by
    rw [hcontents]
    exact s.contents_update o hk
  refine ⟨fun m hm => ?_, fun o' stores' hpc' => absurd hpc' (hother o' stores')⟩
  rcases (show m ≤ s.last by omega).eq_or_lt with rfl | hlt
  · have hnew : filterAt s'.contents (s.last + 1) = o := by
      show Option.getD (s'.contents (s.last + 1)) _ = _
      rw [hcontents, Function.update_self]
      rfl
    rw [hnew]
    exact ho.congr hsame
  · have hold : filterAt s'.contents (m + 1) = filterAt s.contents (m + 1) := by
      show Option.getD (s'.contents (m + 1)) _ = _
      rw [hsame (m + 1) hlt]
      rfl
    rw [hold]
    exact (h.1 m hlt).congr fun k hk => hsame k (hk.trans hlt.le)

/-- The last filter covers what is before it, and stays when it is widened. -/
theorem Covered.widened {τ : Type} {s : Snapshots.State observations τ} (h : Covered s) :
    (filterAt s.contents s.last).widened.Covers s.contents s.last := by
  intro isReturn _ k hk hopen hbetween
  rcases hk.eq_or_lt with rfl | hlt
  · exact fun q hq _ => hq
  · obtain ⟨m, hm⟩ : ∃ m, s.last = m + 1 := ⟨s.last - 1, by omega⟩
    have hall := hbetween s.last le_rfl hlt
    rw [hm] at hall ⊢
    exact h.1 m (by omega) isReturn hall k (by omega) hopen fun m' hm' => hbetween m' (by omega)

theorem Covered.step {pin : Pin κ} {τ : Type} [DecidableEq τ]
    {s s' : Snapshots.State observations τ} (h : Covered s) {a : Snapshots.Action observations τ}
    (ha : Covering pin .observations s a) (hs' : s.step a = some s') : Covered s' := by
  obtain ⟨hlast, hcontents, hpreparing⟩ | ⟨o, stores, hpc, hs'⟩ | ⟨x, hs'⟩ |
    ⟨o, stores, rfl, hlast, hcontents, hpc⟩ := Snapshots.State.step_history hs'
  · refine ⟨fun m hm => ?_, fun o stores hpc => ?_⟩
    · rw [hcontents]
      exact h.1 m (hlast ▸ hm)
    · obtain ⟨stores', hpc'⟩ := hpreparing o stores hpc
      rw [hcontents, hlast]
      exact h.2 o stores' hpc'
  · exact h.publish (h.2 o stores hpc) hs'
  · exact h.publish h.widened hs'
  · refine ⟨fun m hm => ?_, fun o' stores' hpc' => ?_⟩
    · rw [hcontents]
      exact h.1 m (hlast ▸ hm)
    · rw [hpc] at hpc'
      cases hpc'
      rw [hcontents, hlast]
      exact ha

/-! ## Runs -/

/-- What holds of each table. -/
def TableOk (pin : Pin κ) {τ : Type} : (table : Table) →
    Snapshots.State (protocol pin table) τ → Prop
  | .observations, s => observationsLaws.Ok s ∧ Covered s
  | .hooks, s | .functions, s => addressLaws.Ok s
  | .signatures, s => functionSignatureLaws.Ok s
  | .rules, s => (rulesLaws pin).Ok s
  | .hookInterests, s => hookInterestsLaws.Ok s
  | .codeFetch, s => (codeFetchLaws pin).Ok s

theorem TableOk.readsPublished {pin : Pin κ} {τ : Type} {table : Table}
    {s : Snapshots.State (protocol pin table) τ} (h : TableOk pin table s) :
    (laws pin table).ReadsPublished s := by
  cases table with
  | observations => exact h.1.readsPublished
  | _ => exact Laws.Ok.readsPublished h

theorem TableOk.init (pin : Pin κ) (τ : Type) (table : Table) :
    TableOk pin table (Snapshots.State.init (protocol pin table) τ) := by
  cases table with
  | observations =>
      exact ⟨Laws.ok_init, fun m hm => absurd hm (Nat.not_lt_zero m),
        fun o stores hpc => by cases hpc⟩
  | _ => exact Laws.ok_init

theorem TableOk.step {pin : Pin κ} {τ : Type} [DecidableEq τ] {table : Table}
    {s s' : Snapshots.State (protocol pin table) τ} (h : TableOk pin table s)
    {a : Snapshots.Action (protocol pin table) τ} (ha : Covering pin table s a)
    (hs' : s.step a = some s') : TableOk pin table s' := by
  cases table with
  | observations =>
      exact ⟨h.1.step (h.1.exact (fun q since _ hthrough => h.2.seen hthrough) a) hs',
        h.2.step ha hs'⟩
  | _ => exact Laws.Ok.step h (Laws.Ok.exact_of_lookup h (fun _ _ => rfl) a) hs'

/-- Readers of all tables are safe and answer as publications of their windows
do, in every run that publishes covering observation filters. -/
theorem readers_safe {pin : Pin κ} {τ : Type} [DecidableEq τ]
    {as : List (Σ table, Snapshots.Action (protocol pin table) τ)}
    (hcovering : Guarded (family fun _ => Snapshots.State.step)
      (fun s a => Covering pin a.1 (s a.1) a.2)
      (fun table => Snapshots.State.init (protocol pin table) τ) as) :
    Always (family fun _ => Snapshots.State.step)
      (fun s => ∀ table, (laws pin table).ReadsPublished (s table))
      (fun table => Snapshots.State.init (protocol pin table) τ) as := by
  intro bs s hbs hrun table
  exact (hcovering.always_family (I := fun table => TableOk pin table)
    (fun h ha hs' => h.step ha hs') (TableOk.init pin τ) bs s hbs hrun table).readsPublished

/-- A Pin that knows no register and no code. -/
def nullPin : Pin Unit where
  hookArgRegs := Vector.replicate 4 0
  getContextReg _ _ := none
  getContextStackArg _ _ := none
  setContextReg _ _ _ := none
  setContextStackArg _ _ _ := none
  fetchOriginal _ _ := []

/-- Actions of the observation table. -/
def observing (actions : List (Snapshots.Action observations (Fin 1))) :
    List (Σ table, Snapshots.Action (protocol nullPin table) (Fin 1)) :=
  actions.map fun a => ⟨.observations, a⟩

/-- An observation filter is published. -/
def publishing (o : Observation) : List (Snapshots.Action observations (Fin 1)) :=
  .publish o :: List.replicate 4 .publisher

/-- A reader asks for the entries at an address, and takes some steps. -/
def asking (address : UInt64) (steps : Nat) : List (Snapshots.Action observations (Fin 1)) :=
  .read 0 (address, false) :: List.replicate steps (.reader 0)

/-- A filter is published and widened, and the next one is published while a reader runs. -/
def coveringRun : List (Σ table, Snapshots.Action (protocol nullPin table) (Fin 1)) :=
  observing (publishing ⟨false, false, [(0x1000, false)]⟩ ++ asking 0x1000 2 ++
    .adjust () :: List.replicate 3 .publisher ++ publishing ⟨true, false, [(0x1000, false)]⟩ ++
    List.replicate 4 (.reader 0) ++ List.replicate 3 .publisher)

theorem coveringRun_safe :
    Guarded (family fun _ => Snapshots.State.step) (fun s a => Covering nullPin a.1 (s a.1) a.2)
        (fun table => Snapshots.State.init (protocol nullPin table) (Fin 1)) coveringRun ∧
      (run (family fun _ => Snapshots.State.step)
        (fun table => Snapshots.State.init (protocol nullPin table) (Fin 1)) coveringRun).isSome =
          true ∧
      Always (family fun _ => Snapshots.State.step)
        (fun s => ∀ table, (laws nullPin table).ReadsPublished (s table))
        (fun table => Snapshots.State.init (protocol nullPin table) (Fin 1)) coveringRun :=
  have hcovering : Guarded (family fun _ => Snapshots.State.step)
      (fun s a => Covering nullPin a.1 (s a.1) a.2)
      (fun table => Snapshots.State.init (protocol nullPin table) (Fin 1)) coveringRun := by
    decide +kernel
  ⟨hcovering, by decide +kernel, readers_safe hcovering⟩

/-- Entries at one address are observed, then all entries are.  A reader of that
address runs between the swap of the table and the store of the mask. -/
def tornRun : List (Σ table, Snapshots.Action (protocol nullPin table) (Fin 1)) :=
  observing (publishing ⟨false, false, [(0x1000, false)]⟩ ++
    .publish ⟨true, false, []⟩ :: .publisher :: asking 0x1000 6)

/-- What a reader of the observation table is told, and since when. -/
def answered : Snapshots.ReaderPc observations → Option ((UInt64 × Bool) × Nat × Bool)
  | .done q since a => some (q, since, a)
  | _ => none

theorem eq_done_of_answered {pc : Snapshots.ReaderPc observations} {q : UInt64 × Bool}
    {since : Nat} {a : Bool} (h : answered pc = some (q, since, a)) : pc = .done q since a := by
  cases pc <;> cases h
  rfl

/-- Both filters want the event and the reader is told that it is not wanted. -/
theorem observation_torn :
    ∃ s, run (family fun _ => Snapshots.State.step)
        (fun table => Snapshots.State.init (protocol nullPin table) (Fin 1)) tornRun = some s ∧
      answered ((s .observations).threads 0) = some ((0x1000, false), 1, false) ∧
      ¬ ∀ table, (laws nullPin table).ReadsPublished (s table) := by
  have hrun : (run (family fun _ => Snapshots.State.step)
      (fun table => Snapshots.State.init (protocol nullPin table) (Fin 1)) tornRun).any
      (fun s => answered ((s .observations).threads 0) = some ((0x1000, false), 1, false) &&
        (s .observations).last = 2 &&
        filterAt (s .observations).contents 1 = ⟨false, false, [(0x1000, false)]⟩ &&
        filterAt (s .observations).contents 2 = ⟨true, false, []⟩) = true := by
    decide +kernel
  obtain ⟨s, hs, hall⟩ := (Option.any_eq_true _ _).mp hrun
  simp only [Bool.and_eq_true, decide_eq_true_eq] at hall
  obtain ⟨⟨⟨hanswered, hptr⟩, hfirst⟩, hsecond⟩ := hall
  refine ⟨s, hs, hanswered, fun hgood => ?_⟩
  obtain ⟨k, hsince, hk, hanswer⟩ :=
    (hgood .observations).seen 0 (0x1000, false) 1 false (eq_done_of_answered hanswered)
  have hanswer : (filterAt (s .observations).contents k).answer (0x1000, false) = false := hanswer
  obtain rfl | rfl : k = 1 ∨ k = 2 := by omega
  · rw [hfirst] at hanswer
    exact absurd hanswer (by decide)
  · rw [hsecond] at hanswer
    exact absurd hanswer (by decide)

end PinBridge.Tables
