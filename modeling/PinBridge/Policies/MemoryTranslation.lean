import Mathlib.Algebra.BigOperators.Group.List.Basic
import Mathlib.Data.Nat.Bitwise
import Mathlib.Data.UInt
import PinBridge.Lib.Intervals
import PinBridge.Lib.SortedList
import PinBridge.Policies.Plugins

/-!
# Memory translation

A plugin maps ranges of the application's memory to other addresses, for some threads, some
instructions and some operations.  The mappings of all running plugins are the rules of one
snapshot.  Pin asks for the address of an access with `on_translate` or `on_rewrite`, and the
first rule of the snapshot that contains the whole access and whose filters match gives it.

`publish` refuses mappings that overlap, so at most one rule contains an access
(`length_filter_translate`), and the order of the plugins and of their mappings does not matter.

Retired snapshots and Pin's own registration of the callbacks are left out.
-/

namespace PinBridge.MemoryTranslation

open Policies Intervals

local instance wordOrder : LinearOrder UInt32 where
  le_refl a := UInt32.le_refl a
  le_trans _ _ _ := UInt32.le_trans
  lt_iff_le_not_ge _ _ := by
    rw [UInt32.not_le]
    exact ⟨fun h => ⟨UInt32.le_of_lt h, h⟩, And.right⟩
  le_antisymm _ _ := UInt32.le_antisymm
  le_total := UInt32.le_total
  toDecidableLE := inferInstance

/-! ## Specifications and rules -/

/-- `MAX_MAPPINGS`. -/
def maxMappings : Nat := 64

/-- `MAX_THREADS`. -/
def maxThreads : Nat := 64

/-- `MAX_INSTRUCTION_RANGES`. -/
def maxInstructionRanges : Nat := 64

/-- `OP_LOAD`. -/
def opLoad : UInt32 := (1 : UInt32) <<< 0

/-- `OP_STORE`. -/
def opStore : UInt32 := (1 : UInt32) <<< 1

/-- `OP_ALL`. -/
def opAll : UInt32 := opLoad ||| opStore

/-- `checked_add`. -/
def checkedAdd (a b : UInt64) : Option UInt64 :=
  if a.toNat + b.toNat < 2 ^ 64 then some (a + b) else none

/-- `Mapping`. -/
structure Mapping where
  sourceStart : UInt64
  sourceEnd : UInt64
  targetStart : UInt64
  deriving DecidableEq, Repr

/-- `Spec`.  The call of the plugin sorts the threads and removes copies. -/
structure Spec where
  mappings : List Mapping
  threads : List UInt32
  instructionRanges : List (UInt64 × UInt64)
  operations : UInt32
  includePin : Bool
  threads_sorted : threads.SortedLT

/-- `NativeRule`. -/
structure NativeRule where
  sourceStart : UInt64
  sourceEnd : UInt64
  targetStart : UInt64
  threads : List UInt32
  instructionRanges : List (UInt64 × UInt64)
  operations : UInt32
  includePin : Bool
  threads_sorted : threads.SortedLT

/-- `PbMemoryTransInfo`, as far as it is read. -/
structure TransInfo where
  address : UInt64
  size : UInt64
  instructionPointer : UInt64
  threadId : UInt32
  memoryOperation : UInt32
  isFromPin : UInt8
  deriving DecidableEq, Repr

/-- `NativeRule::translate`. -/
def NativeRule.translate (rule : NativeRule) (info : TransInfo) : Option UInt64 :=
  if info.isFromPin ≠ 0 ∧ ¬rule.includePin then none
  else if 32 ≤ info.memoryOperation ∨ rule.operations &&& (1 <<< info.memoryOperation) = 0 then
    none
  else if rule.threads ≠ [] ∧ ¬(SortedList.binarySearch rule.threads info.threadId).isOk then none
  else if rule.instructionRanges ≠ [] ∧ ¬rule.instructionRanges.any (fun range =>
      range.1 ≤ info.instructionPointer && info.instructionPointer < range.2) then none
  else
    (checkedAdd info.address info.size).bind fun accessEnd =>
      if info.address < rule.sourceStart ∨ rule.sourceEnd < accessEnd then none
      else checkedAdd rule.targetStart (info.address - rule.sourceStart)

/-- `on_translate`, with the rules of the snapshot. -/
def onTranslate (rules : List NativeRule) : Option TransInfo → UInt64
  | none => 0
  | some info => (rules.findSome? (·.translate info)).getD info.address

/-- `on_rewrite`, with the rules of the snapshot. -/
def onRewrite (rules : List NativeRule) (instructionAddress : UInt64) (threadId : UInt32)
    (memoryAddress : UInt64) (size memoryOperation : UInt32) : UInt64 :=
  let info : TransInfo := {
    address := memoryAddress
    size := size.toUInt64
    instructionPointer := instructionAddress
    threadId
    memoryOperation
    isFromPin := 0 }
  (rules.findSome? (·.translate info)).getD memoryAddress

/-! ## Publishing -/

/-- The rule of a mapping. -/
def Spec.rule (spec : Spec) (mapping : Mapping) : NativeRule where
  sourceStart := mapping.sourceStart
  sourceEnd := mapping.sourceEnd
  targetStart := mapping.targetStart
  threads := spec.threads
  instructionRanges := spec.instructionRanges
  operations := spec.operations
  includePin := spec.includePin
  threads_sorted := spec.threads_sorted

/-- The rules of a specification, the mappings checked one after the other.  The occupied ranges
are those of the rules so far. -/
def addMappings (spec : Spec) : List Mapping → List NativeRule → Except PbStatus (List NativeRule)
  | [], rules => .ok rules
  | mapping :: mappings, rules =>
      if mapping.sourceEnd ≤ mapping.sourceStart ∨
          checkedAdd mapping.targetStart (mapping.sourceEnd - mapping.sourceStart) = none ∨
          rules.any (fun rule =>
            mapping.sourceStart < rule.sourceEnd && rule.sourceStart < mapping.sourceEnd) then
        .error pbErrInvalidArgument
      else addMappings spec mappings (rules ++ [spec.rule mapping])

/-- The rules of some specifications. -/
def addSpecs : List Spec → List NativeRule → Except PbStatus (List NativeRule)
  | [], rules => .ok rules
  | spec :: specs, rules =>
      if spec.operations = 0 ∨ spec.operations &&& ~~~opAll ≠ 0 ∨
          maxThreads < spec.threads.length ∨
          maxInstructionRanges < spec.instructionRanges.length then
        .error pbErrInvalidArgument
      else (addMappings spec spec.mappings rules).bind (addSpecs specs)

/-- The rules of the running plugins, when they are accepted. -/
def collectRules (plugins : List (Plugin Spec)) : Except PbStatus (List NativeRule) :=
  let specs := runningSpecs plugins
  if maxMappings < (specs.map (·.mappings.length)).sum then .error pbErrInvalidArgument
  else addSpecs specs []

/-- The snapshot and its generation. -/
structure State where
  rules : List NativeRule
  generation : UInt64

/-- `instrumentation_scope`. -/
def instrumentationScope (rules : List NativeRule) : Bool × List (UInt64 × UInt64) :=
  (rules.any fun rule => rule.instructionRanges.isEmpty,
    sortRanges (rules.flatMap (·.instructionRanges)))

/-- Pin's removal of instrumentation. -/
structure Native where
  /-- `pb_pin_remove_instrumentation`. -/
  removeInstrumentation : PbStatus
  /-- `pb_pin_remove_instrumentation_in_range`. -/
  removeInRange : UInt64 → UInt64 → PbStatus

/-- `publish`. -/
def publish (native : Native) (s : State) (plugins : List (Plugin Spec)) :
    Except PbStatus UInt64 × State :=
  let old := instrumentationScope s.rules
  match collectRules plugins with
  | .error status => (.error status, s)
  | .ok rules =>
      let new := instrumentationScope rules
      let s : State := ⟨rules, s.generation + 1⟩
      let status :=
        if old.1 || new.1 then native.removeInstrumentation
        else removeRanges native.removeInRange (sortRanges (old.2 ++ new.2))
      if status ≠ pbOk then (.error status, s) else (.ok s.generation, s)

/-! ## What the rules mean -/

/-- The rule contains the whole access and its filters match. -/
structure NativeRule.Applies (rule : NativeRule) (info : TransInfo) : Prop where
  origin : info.isFromPin = 0 ∨ rule.includePin = true
  operation : rule.operations.toNat.testBit info.memoryOperation.toNat = true
  thread : rule.threads = [] ∨ info.threadId ∈ rule.threads
  instruction : rule.instructionRanges = [] ∨ ∃ range ∈ rule.instructionRanges,
    range.1 ≤ info.instructionPointer ∧ info.instructionPointer < range.2
  low : rule.sourceStart.toNat ≤ info.address.toNat
  high : info.address.toNat + info.size.toNat ≤ rule.sourceEnd.toNat

/-- The source is a range, and so is the target. -/
structure NativeRule.Valid (rule : NativeRule) : Prop where
  source : rule.sourceStart.toNat < rule.sourceEnd.toNat
  target : rule.targetStart.toNat + (rule.sourceEnd.toNat - rule.sourceStart.toNat) < 2 ^ 64

/-- The source ranges overlap. -/
abbrev NativeRule.Overlap : NativeRule → NativeRule → Prop :=
  Intervals.Overlap (fun rule => rule.sourceStart.toNat) fun rule => rule.sourceEnd.toNat

/-- What `publish` accepts rules for. -/
structure Sound (rules : List NativeRule) : Prop where
  valid : ∀ rule ∈ rules, rule.Valid
  apart : rules.Pairwise fun a b => ¬a.Overlap b

/-! ## One rule -/

theorem checkedAdd_eq_none {a b : UInt64} :
    checkedAdd a b = none ↔ 2 ^ 64 ≤ a.toNat + b.toNat := by
  rw [checkedAdd]
  split
  next h => exact iff_of_false (Option.some_ne_none _) (Nat.not_le.mpr h)
  next h => exact iff_of_true rfl (Nat.not_lt.mp h)

theorem toNat_of_checkedAdd {a b c : UInt64} (h : checkedAdd a b = some c) :
    c.toNat = a.toNat + b.toNat := by
  rw [checkedAdd] at h
  split at h
  next hlt =>
    cases h
    rw [UInt64.toNat_add, Nat.mod_eq_of_lt hlt]
  next => exact nomatch h

/-- The test of a bit of the operations. -/
theorem operation_iff (operations operation : UInt32) :
    ¬(32 ≤ operation ∨ operations &&& (1 <<< operation) = 0) ↔
      operations.toNat.testBit operation.toNat = true := by
  rw [not_or, UInt32.not_le, ← UInt32.toNat_inj, UInt32.lt_iff_toNat_lt, UInt32.toNat_and,
    UInt32.toNat_shiftLeft]
  show operation.toNat < 32 ∧ ¬operations.toNat &&& 1 <<< (operation.toNat % 32) % 2 ^ 32 = 0 ↔ _
  constructor
  · rintro ⟨hlt, hbit⟩
    rw [Nat.mod_eq_of_lt hlt, Nat.one_shiftLeft,
      Nat.mod_eq_of_lt (Nat.pow_lt_pow_right (by decide) hlt), Nat.and_two_pow] at hbit
    cases hset : operations.toNat.testBit operation.toNat with
    | false => simp [hset] at hbit
    | true => rfl
  · intro hset
    have hlt : operation.toNat < 32 := by
      by_contra hge
      have hsmall : operations.toNat < 2 ^ operation.toNat :=
        Nat.lt_of_lt_of_le operations.toNat_lt (Nat.pow_le_pow_right (by decide) (by omega))
      rw [Nat.testBit_lt_two_pow hsmall] at hset
      exact Bool.false_ne_true hset
    refine ⟨hlt, ?_⟩
    rw [Nat.mod_eq_of_lt hlt, Nat.one_shiftLeft,
      Nat.mod_eq_of_lt (Nat.pow_lt_pow_right (by decide) hlt), Nat.and_two_pow, hset]
    simp

/-- A rule that is valid applies, or it has no address for the access. -/
theorem NativeRule.translate_eq {rule : NativeRule} (hrule : rule.Valid) (info : TransInfo) :
    (rule.Applies info ∧ ∃ address, rule.translate info = some address ∧
      address.toNat = rule.targetStart.toNat + (info.address.toNat - rule.sourceStart.toNat)) ∨
    (¬rule.Applies info ∧ rule.translate info = none) := by
  have hsearch := SortedList.isOk_binarySearch rule.threads_sorted (a := info.threadId)
  have hinstruction : rule.instructionRanges.any (fun range =>
      range.1 ≤ info.instructionPointer && info.instructionPointer < range.2) = true ↔
      ∃ range ∈ rule.instructionRanges,
        range.1 ≤ info.instructionPointer ∧ info.instructionPointer < range.2 := by
    simp
  rw [NativeRule.translate]
  split
  next h => exact .inr ⟨fun ha => ha.origin.elim h.1 h.2, rfl⟩
  next horigin =>
  split
  next h => exact .inr ⟨fun ha => (operation_iff _ _).mpr ha.operation h, rfl⟩
  next hoperation =>
  split
  next h => exact .inr ⟨fun ha => ha.thread.elim h.1 (h.2 ∘ hsearch.mpr), rfl⟩
  next hthread =>
  split
  next h => exact .inr ⟨fun ha => ha.instruction.elim h.1 (h.2 ∘ hinstruction.mpr), rfl⟩
  next hinstr =>
  cases hend : checkedAdd info.address info.size with
  | none =>
      have hwrap := checkedAdd_eq_none.mp hend
      have hlt := rule.sourceEnd.toNat_lt
      exact .inr ⟨fun ha => by have := ha.high; omega, rfl⟩
  | some accessEnd =>
      have hnat := toNat_of_checkedAdd hend
      have hplace : info.address < rule.sourceStart ∨ rule.sourceEnd < accessEnd ↔
          info.address.toNat < rule.sourceStart.toNat ∨
            rule.sourceEnd.toNat < info.address.toNat + info.size.toNat := by
        rw [UInt64.lt_iff_toNat_lt, UInt64.lt_iff_toNat_lt, hnat]
      rw [Option.bind_some]
      split
      next h =>
        have h := hplace.mp h
        exact .inr ⟨fun ha => by have := ha.low; have := ha.high; omega, rfl⟩
      next h =>
        obtain ⟨hlow, hhigh⟩ := not_or.mp (mt hplace.mpr h)
        have hlow := Nat.not_lt.mp hlow
        have hoffset : (info.address - rule.sourceStart).toNat =
            info.address.toNat - rule.sourceStart.toNat :=
          UInt64.toNat_sub_of_le _ _ (UInt64.le_iff_toNat_le.mpr hlow)
        have hfits : ¬2 ^ 64 ≤ rule.targetStart.toNat +
            (info.address - rule.sourceStart).toNat := by
          have := hrule.target
          omega
        obtain ⟨address, haddress⟩ := Option.ne_none_iff_exists'.mp
          (mt checkedAdd_eq_none.mp hfits)
        refine .inl ⟨?_, address, haddress, ?_⟩
        · exact {
            origin := or_iff_not_and_not.mpr horigin
            operation := (operation_iff _ _).mp hoperation
            thread := (or_iff_not_and_not.mpr hthread).imp_right hsearch.mp
            instruction := (or_iff_not_and_not.mpr hinstr).imp_right hinstruction.mp
            low := hlow
            high := Nat.not_lt.mp hhigh }
        · rw [toNat_of_checkedAdd haddress, hoffset]

theorem NativeRule.isSome_translate {rule : NativeRule} (hrule : rule.Valid) (info : TransInfo) :
    (rule.translate info).isSome = true ↔ rule.Applies info := by
  obtain ⟨ha, address, h, -⟩ | ⟨ha, h⟩ := rule.translate_eq hrule info
  · exact iff_of_true (h ▸ rfl) ha
  · exact iff_of_false (fun hs => by rw [h] at hs; exact Bool.false_ne_true hs) ha

/-- Two rules that apply to a nonempty access overlap. -/
theorem NativeRule.Applies.overlap {a b : NativeRule} {info : TransInfo} (ha : a.Applies info)
    (hb : b.Applies info) (hsize : 1 ≤ info.size.toNat) : a.Overlap b :=
  .of_common (Nat.lt_add_of_pos_right hsize) ha.low ha.high hb.low hb.high

/-! ## The rules that are accepted -/

theorem Sound.nil : Sound [] where
  valid := fun _ h => absurd h List.not_mem_nil
  apart := .nil

theorem Sound.of_append {rules rest : List NativeRule} (h : Sound (rules ++ rest)) : Sound rules where
  valid := fun rule hrule => h.valid rule (List.mem_append_left _ hrule)
  apart := (List.pairwise_append.mp h.apart).1

theorem Sound.perm {rules rules' : List NativeRule} (hperm : rules.Perm rules') (h : Sound rules) :
    Sound rules' where
  valid := fun rule hrule => h.valid rule (hperm.mem_iff.mpr hrule)
  apart := h.apart.perm hperm fun hab hba => hab hba.symm

theorem sound_append_singleton {rules : List NativeRule} {rule : NativeRule} (h : Sound rules) :
    Sound (rules ++ [rule]) ↔ rule.Valid ∧ ∀ other ∈ rules, ¬rule.Overlap other := by
  constructor
  · intro hs
    refine ⟨hs.valid rule (by simp), fun other hother hoverlap => ?_⟩
    exact (List.pairwise_append.mp hs.apart).2.2 other hother rule (by simp) hoverlap.symm
  · rintro ⟨hvalid, hapart⟩
    refine ⟨fun other hother => ?_, ?_⟩
    · obtain hother | hother := List.mem_append.mp hother
      · exact h.valid other hother
      · exact List.mem_singleton.mp hother ▸ hvalid
    · refine List.pairwise_append.mpr ⟨h.apart, List.pairwise_singleton _ _, ?_⟩
      intro other hother last hlast hoverlap
      obtain rfl := List.mem_singleton.mp hlast
      exact hapart other hother hoverlap.symm

theorem mapping_refused_iff {spec : Spec} {mapping : Mapping} :
    (mapping.sourceEnd ≤ mapping.sourceStart ∨
      2 ^ 64 ≤ mapping.targetStart.toNat + (mapping.sourceEnd - mapping.sourceStart).toNat) ↔
      ¬(spec.rule mapping).Valid := by
  rw [UInt64.le_iff_toNat_le]
  constructor
  · rintro hrefused ⟨hsource, htarget⟩
    have hsource : mapping.sourceStart.toNat < mapping.sourceEnd.toNat := hsource
    rw [UInt64.toNat_sub_of_le _ _ (UInt64.le_iff_toNat_le.mpr hsource.le)] at hrefused
    exact hrefused.elim (Nat.not_le.mpr hsource) (Nat.not_le.mpr htarget)
  · intro hvalid
    by_contra h
    obtain ⟨hsource, htarget⟩ := not_or.mp h
    have hsource := Nat.not_le.mp hsource
    rw [UInt64.toNat_sub_of_le _ _ (UInt64.le_iff_toNat_le.mpr hsource.le)] at htarget
    exact hvalid ⟨hsource, Nat.not_le.mp htarget⟩

/-- The test of a mapping. -/
theorem refused_iff {spec : Spec} {mapping : Mapping} {rules : List NativeRule} (h : Sound rules) :
    (mapping.sourceEnd ≤ mapping.sourceStart ∨
      checkedAdd mapping.targetStart (mapping.sourceEnd - mapping.sourceStart) = none ∨
      rules.any (fun rule =>
        mapping.sourceStart < rule.sourceEnd && rule.sourceStart < mapping.sourceEnd) = true) ↔
      ¬Sound (rules ++ [spec.rule mapping]) := by
  rw [sound_append_singleton h, not_and_or, checkedAdd_eq_none, ← or_assoc]
  refine or_congr ?_ ?_
  · exact mapping_refused_iff
  · simp [NativeRule.Overlap, Intervals.Overlap, Spec.rule, UInt64.lt_iff_toNat_lt]

/-- The rules of a specification are added if they are sound with those before. -/
theorem addMappings_eq (spec : Spec) (mappings : List Mapping) {rules : List NativeRule}
    (h : Sound rules) :
    (Sound (rules ++ mappings.map spec.rule) ∧
      addMappings spec mappings rules = .ok (rules ++ mappings.map spec.rule)) ∨
    (¬Sound (rules ++ mappings.map spec.rule) ∧
      addMappings spec mappings rules = .error pbErrInvalidArgument) := by
  induction mappings generalizing rules with
  | nil =>
      rw [List.map_nil, List.append_nil]
      exact .inl ⟨h, rfl⟩
  | cons mapping mappings ih =>
      have happend : rules ++ (mapping :: mappings).map spec.rule =
          (rules ++ [spec.rule mapping]) ++ mappings.map spec.rule := by simp
      rw [addMappings, happend]
      split
      next hrefused =>
        exact .inr ⟨mt Sound.of_append ((refused_iff h).mp hrefused), rfl⟩
      next haccepted =>
        exact ih (not_not.mp (mt (refused_iff h).mpr haccepted))

/-- The rules of a specification. -/
def Spec.rules (spec : Spec) : List NativeRule := spec.mappings.map spec.rule

/-- The filters are in their bounds. -/
structure Spec.FiltersOk (spec : Spec) : Prop where
  operations_ne : spec.operations ≠ 0
  operations_known : spec.operations &&& ~~~opAll = 0
  threads : spec.threads.length ≤ maxThreads
  instructionRanges : spec.instructionRanges.length ≤ maxInstructionRanges

theorem addSpecs_eq (specs : List Spec) {rules : List NativeRule} (h : Sound rules) :
    ((∀ spec ∈ specs, spec.FiltersOk) ∧ Sound (rules ++ specs.flatMap Spec.rules) ∧
      addSpecs specs rules = .ok (rules ++ specs.flatMap Spec.rules)) ∨
    (¬((∀ spec ∈ specs, spec.FiltersOk) ∧ Sound (rules ++ specs.flatMap Spec.rules)) ∧
      addSpecs specs rules = .error pbErrInvalidArgument) := by
  induction specs generalizing rules with
  | nil =>
      rw [List.flatMap_nil, List.append_nil]
      exact .inl ⟨fun _ hspec => absurd hspec List.not_mem_nil, h, rfl⟩
  | cons spec specs ih =>
      rw [addSpecs, List.flatMap_cons, ← List.append_assoc, List.forall_mem_cons]
      split
      next hrefused =>
        refine .inr ⟨fun hall => ?_, rfl⟩
        obtain ⟨hne, hknown, hthreads, hranges⟩ := hall.1.1
        obtain hrefused | hrefused | hrefused | hrefused := hrefused
        · exact hne hrefused
        · exact hrefused hknown
        · exact Nat.not_lt.mpr hthreads hrefused
        · exact Nat.not_lt.mpr hranges hrefused
      next haccepted =>
        simp only [not_or, not_not, Nat.not_lt] at haccepted
        have hfilters : spec.FiltersOk :=
          ⟨haccepted.1, haccepted.2.1, haccepted.2.2.1, haccepted.2.2.2⟩
        obtain ⟨hsound, heq⟩ | ⟨hsound, heq⟩ := addMappings_eq spec spec.mappings h
        · rw [heq]
          obtain ⟨hrest, hall, hok⟩ | ⟨hrest, herror⟩ := ih hsound
          · exact .inl ⟨⟨hfilters, hrest⟩, hall, hok⟩
          · exact .inr ⟨fun hall => hrest ⟨hall.1.2, hall.2⟩, herror⟩
        · rw [heq]
          exact .inr ⟨fun hall => hsound hall.2.of_append, rfl⟩

/-! ## The snapshot -/

/-- What the running plugins have set can be published. -/
structure Acceptable (specs : List Spec) : Prop where
  count : (specs.map (·.mappings.length)).sum ≤ maxMappings
  filters : ∀ spec ∈ specs, spec.FiltersOk
  sound : Sound (specs.flatMap Spec.rules)

theorem Acceptable.perm {specs specs' : List Spec} (hperm : specs.Perm specs')
    (h : Acceptable specs) : Acceptable specs' where
  count := (hperm.map (·.mappings.length)).sum_eq ▸ h.count
  filters := fun spec hspec => h.filters spec (hperm.mem_iff.mpr hspec)
  sound := h.sound.perm (hperm.flatMap_right _)

/-- The rules are those of the running plugins, in some order, or none are accepted. -/
theorem collectRules_eq (plugins : List (Plugin Spec)) :
    (Acceptable (liveSpecs plugins) ∧ ∃ rules, collectRules plugins = .ok rules ∧ Sound rules ∧
      rules.Perm ((liveSpecs plugins).flatMap Spec.rules)) ∨
    (¬Acceptable (liveSpecs plugins) ∧ collectRules plugins = .error pbErrInvalidArgument) := by
  have hperm := runningSpecs_perm plugins
  have hiff : Acceptable (liveSpecs plugins) ↔ Acceptable (runningSpecs plugins) :=
    ⟨.perm hperm.symm, .perm hperm⟩
  rw [hiff, collectRules]
  split
  next hmany => exact .inr ⟨fun h => Nat.not_lt.mpr h.count hmany, rfl⟩
  next hfew =>
    obtain ⟨hfilters, hsound, hok⟩ | ⟨hnot, herror⟩ := addSpecs_eq (runningSpecs plugins)
      Sound.nil
    · refine .inl ⟨⟨Nat.not_lt.mp hfew, hfilters, hsound⟩, _, hok, hsound, ?_⟩
      exact hperm.flatMap_right _
    · exact .inr ⟨fun h => hnot ⟨h.filters, h.sound⟩, herror⟩

/-! ## Translation -/

instance (rule : NativeRule) (info : TransInfo) : Decidable (rule.Applies info) :=
  decidable_of_iff
    ((info.isFromPin = 0 ∨ rule.includePin = true) ∧
      rule.operations.toNat.testBit info.memoryOperation.toNat = true ∧
      (rule.threads = [] ∨ info.threadId ∈ rule.threads) ∧
      (rule.instructionRanges = [] ∨ ∃ range ∈ rule.instructionRanges,
        range.1 ≤ info.instructionPointer ∧ info.instructionPointer < range.2) ∧
      rule.sourceStart.toNat ≤ info.address.toNat ∧
      info.address.toNat + info.size.toNat ≤ rule.sourceEnd.toNat)
    ⟨fun ⟨h₁, h₂, h₃, h₄, h₅, h₆⟩ => ⟨h₁, h₂, h₃, h₄, h₅, h₆⟩,
      fun ⟨h₁, h₂, h₃, h₄, h₅, h₆⟩ => ⟨h₁, h₂, h₃, h₄, h₅, h₆⟩⟩

/-- An address is the one in the target of the only rule that applies to an access, without
wrapping, or that of the access if no rule applies. -/
def Exact (rules : List NativeRule) (info : TransInfo) (address : UInt64) : Prop :=
  match rules.filter (·.Applies info) with
  | [] => address = info.address
  | [rule] =>
      address.toNat = rule.targetStart.toNat + (info.address.toNat - rule.sourceStart.toNat)
  | _ => False

variable {rules rules' : List NativeRule} {info : TransInfo}

/-- At most one rule applies. -/
theorem Sound.length_filter_le_one (h : Sound rules) (hsize : 1 ≤ info.size.toNat) :
    (rules.filter (·.Applies info)).length ≤ 1 := by
  refine Intervals.length_filter_le_one h.apart fun a b hapart ha hb => hapart ?_
  exact (of_decide_eq_true ha).overlap (of_decide_eq_true hb) hsize

theorem Exact.perm {address : UInt64} (hperm : rules.Perm rules') (h : Exact rules info address) :
    Exact rules' info address := by
  have hfilter := hperm.filter (·.Applies info)
  have hone : (rules.filter (·.Applies info)).length ≤ 1 := by
    rw [Exact] at h
    split at h
    next heq => simp [heq]
    next heq => simp [heq]
    next => exact h.elim
  rwa [Exact, ← eq_of_perm_of_length_le_one hfilter hone]

theorem Exact.unique {a b : UInt64} (ha : Exact rules info a) (hb : Exact rules info b) :
    a = b := by
  rw [Exact] at ha hb
  split at ha
  next heq =>
    rw [heq] at hb
    exact ha.trans hb.symm
  next heq =>
    rw [heq] at hb
    exact UInt64.toNat_inj.mp (ha.trans hb.symm)
  next => exact ha.elim

/-- The first rule that has an address is the only one that applies. -/
theorem Sound.exact (h : Sound rules) (hsize : 1 ≤ info.size.toNat) :
    Exact rules info (onTranslate rules (some info)) := by
  have hfilter : rules.filter (fun rule => (rule.translate info).isSome) =
      rules.filter (·.Applies info) :=
    List.filter_congr fun rule hrule => Bool.eq_iff_iff.mpr
      ((rule.isSome_translate (h.valid rule hrule) info).trans decide_eq_true_iff.symm)
  have hone := h.length_filter_le_one hsize
  rw [Exact, onTranslate, findSome?_eq_bind, hfilter]
  match hmatch : rules.filter (·.Applies info) with
  | [] =>
      rw [hmatch]
      rfl
  | [rule] =>
      have hmem : rule ∈ rules.filter (·.Applies info) := hmatch ▸ List.mem_singleton_self rule
      obtain ⟨hrule, happlies⟩ := List.mem_filter.mp hmem
      obtain ⟨-, address, haddress, heq⟩ | ⟨hnot, -⟩ := rule.translate_eq (h.valid rule hrule) info
      · rw [hmatch, List.head?_cons, Option.bind_some, haddress]
        exact heq
      · exact absurd (of_decide_eq_true happlies) hnot
  | first :: second :: rest =>
      rw [hmatch] at hone
      simp at hone

/-! ## Publication -/

/-- The mappings of a specification in another order. -/
structure Spec.Same (a b : Spec) : Prop where
  mappings : a.mappings.Perm b.mappings
  threads : a.threads = b.threads
  instructionRanges : a.instructionRanges = b.instructionRanges
  operations : a.operations = b.operations
  includePin : a.includePin = b.includePin

/-- The running plugins and their mappings in another order, with any names. -/
def Reordered (plugins plugins' : List (Plugin Spec)) : Prop :=
  ∃ specs, (liveSpecs plugins).Perm specs ∧ List.Forall₂ Spec.Same specs (liveSpecs plugins')

theorem Spec.Same.symm {a b : Spec} (h : a.Same b) : b.Same a :=
  ⟨h.mappings.symm, h.threads.symm, h.instructionRanges.symm, h.operations.symm,
    h.includePin.symm⟩

theorem Spec.Same.perm_rules {a b : Spec} (h : a.Same b) : a.rules.Perm b.rules := by
  have hrule : a.rule = b.rule := by
    funext mapping
    simp only [Spec.rule, h.threads, h.instructionRanges, h.operations, h.includePin]
  rw [Spec.rules, Spec.rules, hrule]
  exact h.mappings.map _

theorem perm_of_same {specs specs' : List Spec} (h : List.Forall₂ Spec.Same specs specs') :
    (specs.flatMap Spec.rules).Perm (specs'.flatMap Spec.rules) := by
  induction h with
  | nil => exact .refl _
  | cons hspec _ ih =>
      rw [List.flatMap_cons, List.flatMap_cons]
      exact hspec.perm_rules.append ih

theorem Spec.Same.filtersOk {a b : Spec} (h : a.Same b) (ha : a.FiltersOk) : b.FiltersOk where
  operations_ne := h.operations ▸ ha.operations_ne
  operations_known := h.operations ▸ ha.operations_known
  threads := h.threads ▸ ha.threads
  instructionRanges := h.instructionRanges ▸ ha.instructionRanges

theorem filtersOk_of_same {specs specs' : List Spec} (h : List.Forall₂ Spec.Same specs specs')
    (hspecs : ∀ spec ∈ specs, spec.FiltersOk) : ∀ spec ∈ specs', spec.FiltersOk := by
  induction h with
  | nil => exact hspecs
  | cons hspec _ ih =>
      obtain ⟨hfirst, hrest⟩ := List.forall_mem_cons.mp hspecs
      exact List.forall_mem_cons.mpr ⟨hspec.filtersOk hfirst, ih hrest⟩

theorem Acceptable.of_same {specs specs' : List Spec} (h : List.Forall₂ Spec.Same specs specs')
    (hspecs : Acceptable specs) : Acceptable specs' where
  count := by
    have hcount : specs.map (·.mappings.length) = specs'.map (·.mappings.length) := by
      rw [← List.forall₂_eq_eq_eq, List.forall₂_map_left_iff, List.forall₂_map_right_iff]
      exact h.imp fun _ _ hspec => hspec.mappings.length_eq
    exact hcount ▸ hspecs.count
  filters := filtersOk_of_same h hspecs.filters
  sound := hspecs.sound.perm (perm_of_same h)

theorem Spec.Same.refl (a : Spec) : a.Same a := ⟨.refl _, rfl, rfl, rfl, rfl⟩

theorem Reordered.refl (plugins : List (Plugin Spec)) : Reordered plugins plugins :=
  ⟨_, .refl _, List.forall₂_same.mpr fun spec _ => .refl spec⟩

theorem Reordered.symm {plugins plugins' : List (Plugin Spec)} (h : Reordered plugins plugins') :
    Reordered plugins' plugins := by
  obtain ⟨specs, hperm, hsame⟩ := h
  obtain ⟨specs', hsame', hperm'⟩ := List.perm_comp_forall₂ hperm hsame
  exact ⟨specs', hperm'.symm, hsame'.flip.imp fun _ _ hspec => Spec.Same.symm hspec⟩

theorem Reordered.acceptable {plugins plugins' : List (Plugin Spec)}
    (h : Reordered plugins plugins') (hspecs : Acceptable (liveSpecs plugins)) :
    Acceptable (liveSpecs plugins') := by
  obtain ⟨specs, hperm, hsame⟩ := h
  exact (hspecs.perm hperm).of_same hsame

theorem Reordered.perm_rules {plugins plugins' : List (Plugin Spec)} (h : Reordered plugins plugins') :
    ((liveSpecs plugins).flatMap Spec.rules).Perm ((liveSpecs plugins').flatMap Spec.rules) := by
  obtain ⟨specs, hperm, hsame⟩ := h
  exact (hperm.flatMap_right _).trans (perm_of_same hsame)

/-- A refused publication changes nothing, any other one puts the rules of the running plugins
in force. -/
theorem publish_rules (native : Native) (s : State) (plugins : List (Plugin Spec)) :
    (Acceptable (liveSpecs plugins) ∧ Sound (publish native s plugins).2.rules ∧
      (publish native s plugins).2.rules.Perm ((liveSpecs plugins).flatMap Spec.rules)) ∨
    (¬Acceptable (liveSpecs plugins) ∧
      publish native s plugins = (.error pbErrInvalidArgument, s)) := by
  obtain ⟨haccept, rules, hrules, hsound, hperm⟩ | ⟨hnot, herror⟩ := collectRules_eq plugins
  · have hstate : (publish native s plugins).2.rules = rules := by
      simp only [publish, hrules, apply_ite Prod.snd, ite_self]
    rw [hstate]
    exact .inl ⟨haccept, hsound, hperm⟩
  · refine .inr ⟨hnot, ?_⟩
    rw [publish, herror]

/-- The access of a rewritten operand. -/
def TransInfo.ofRewrite (instructionAddress : UInt64) (threadId : UInt32) (memoryAddress : UInt64)
    (size memoryOperation : UInt32) : TransInfo where
  address := memoryAddress
  size := size.toUInt64
  instructionPointer := instructionAddress
  threadId
  memoryOperation
  isFromPin := 0

/-- Both callbacks send every nonempty access where the rules say. -/
structure State.Translates (s : State) (rules : List NativeRule) : Prop where
  translate : ∀ info : TransInfo, 1 ≤ info.size.toNat →
    Exact rules info (onTranslate s.rules (some info))
  rewrite : ∀ (instructionAddress : UInt64) (threadId : UInt32) (memoryAddress : UInt64)
    (size memoryOperation : UInt32), 1 ≤ size.toNat →
    Exact rules (.ofRewrite instructionAddress threadId memoryAddress size memoryOperation)
      (onRewrite s.rules instructionAddress threadId memoryAddress size memoryOperation)

theorem Sound.translates {s : State} (h : Sound s.rules) (hperm : s.rules.Perm rules) :
    s.Translates rules where
  translate := fun info hsize => (h.exact hsize).perm hperm
  rewrite := fun instructionAddress threadId memoryAddress size memoryOperation hsize => by
    have hsize' : 1 ≤ (TransInfo.ofRewrite instructionAddress threadId memoryAddress size
        memoryOperation).size.toNat := by
      rw [TransInfo.ofRewrite, UInt32.toNat_toUInt64]
      exact hsize
    exact (h.exact hsize').perm hperm

/-- When the mappings of the running plugins are published, an access goes to the target of the
only mapping that applies to it, or to its own address, whatever the order of the plugins and
of their mappings.  When they are refused, nothing changes. -/
theorem translation_exact (native : Native) (s : State) (plugins : List (Plugin Spec)) :
    (Acceptable (liveSpecs plugins) →
      ∀ plugins', Reordered plugins plugins' →
        (publish native s plugins').2.Translates ((liveSpecs plugins).flatMap Spec.rules)) ∧
    (¬Acceptable (liveSpecs plugins) →
      ∀ plugins', Reordered plugins plugins' →
        publish native s plugins' = (.error pbErrInvalidArgument, s)) ∧
    ∀ (info : TransInfo) (a b : UInt64), Exact ((liveSpecs plugins).flatMap Spec.rules) info a →
      Exact ((liveSpecs plugins).flatMap Spec.rules) info b → a = b := by
  refine ⟨fun haccept plugins' hre => ?_, fun hnot plugins' hre => ?_, fun _ _ _ => Exact.unique⟩
  · obtain ⟨-, hsound, hperm⟩ | ⟨hnot, -⟩ := publish_rules native s plugins'
    · exact hsound.translates (hperm.trans hre.symm.perm_rules)
    · exact absurd (hre.acceptable haccept) hnot
  · obtain ⟨haccept, -⟩ | ⟨-, herror⟩ := publish_rules native s plugins'
    · exact absurd (hre.symm.acceptable haccept) hnot
    · exact herror

/-- Two pages, for loads of one thread by some instructions. -/
def pagesSpec : Spec where
  mappings := [⟨0x1000, 0x2000, 0x4000⟩, ⟨0x2000, 0x3000, 0x8000⟩]
  threads := [3]
  instructionRanges := [(0x100, 0x200)]
  operations := opLoad
  includePin := false
  threads_sorted := (List.pairwise_singleton _ _).sortedLT

/-- A plugin that maps the pages. -/
def pages : Plugin Spec := ⟨"pages", stateRunning, some pagesSpec⟩

theorem acceptable_pages : Acceptable (liveSpecs [pages]) := by
  have hrunning : runningSpecs [pages] = [pagesSpec] := by
    simp [runningSpecs, namedSpecs, pages]
  have hok : (collectRules [pages]).isOk = true := by
    rw [collectRules, hrunning]
    decide
  obtain ⟨haccept, -⟩ | ⟨-, herror⟩ := collectRules_eq [pages]
  · exact haccept
  · rw [herror] at hok
    cases hok

theorem translation_exact_pages :
    (publish ⟨pbOk, fun _ _ => pbOk⟩ ⟨[], 1⟩ [pages]).2.Translates
      ((liveSpecs [pages]).flatMap Spec.rules) :=
  (translation_exact _ _ [pages]).1 acceptable_pages [pages] (.refl _)

end PinBridge.MemoryTranslation
