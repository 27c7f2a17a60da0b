import PinBridge.Client.Rows
import PinBridge.Query.FrameFit

/-!
# Decoding any body

Whatever the body of a reply is, a decoder of the client returns a value or an error, and a value
has as many rows as the body announces.  A decoder reserves room for as many rows as it is told,
though, before it has seen one of them.  `replies_total` says that it keeps to what the body can
hold exactly when the counts of the body do.

A `usize` of 32 bits adds three ways to fail: the lengths in a row of `disasm` and the rows of
`entry_stop_status` can add up beyond it, and the length of the data of `read_memory` can be cut.
-/

namespace PinBridge.Client

open Lanes (HookLogRecord)
open Layouts (Layout Request Walk End)
open Query (MemoryRegion maxFrame maxBody)
open Scripts (ScriptDecisionBinding ScriptInventory OutputLine describe)
open Utf8 (Text)

variable {α β : Type} {w : ℕ} {body : List UInt8}

/-! ## Whole bodies -/

/-- The decoder answers as the walk over the body does, from whichever position the reader of an
earlier call has been left in. -/
def Answers (w : ℕ) (body : List UInt8) (d : Decode α) (walk : List UInt8 → Walk)
    (R : α → List ℕ → Prop) : Prop :=
  ∃ outcome m', d w ⟨[], 0, []⟩ = (outcome, m') ∧ m'.requests = (walk body).requests ∧
    match (walk body).last with
    | .rest _ => (∃ a, outcome = .ok a ∧ R a (walk body).counts) ∨
        ∃ message, outcome = .error (.error message)
    | .refused => ∃ message, outcome = .error (.error message)
    | .overflow => outcome = .error .fault ∨ ∃ a, outcome = .ok a ∧ ¬ R a (walk body).counts

section

variable {d : Decode α} {walk : List UInt8 → Walk} {R : α → List ℕ → Prop}

/-- A reader over the body. -/
theorem Follows.answers (h : Follows true w d walk R) (hbody : body.length ≤ maxFrame.toNat) :
    Answers w body (newReader body >>= fun _ => d) walk R := by
  have hnew : newReader body w ⟨[], 0, []⟩ = (.ok (), ⟨body, 0, []⟩) := rfl
  obtain ⟨outcome, m', hrun, hrequests, hagree⟩ := h (m := ⟨body, 0, []⟩) ⟨Nat.zero_le _, hbody⟩
  have hrest : Machine.rest ⟨body, 0, []⟩ = body := rfl
  rw [hrest] at hrequests hagree
  refine ⟨outcome, m', (bind_ok hnew).trans hrun, hrequests, ?_⟩
  cases hlast : (walk body).last with
  | rest bytes =>
      rw [hlast] at hagree
      exact hagree.imp (fun ⟨a, ha, hR, _⟩ => ⟨a, ha, hR⟩) fun h => h.2
  | refused =>
      rw [hlast] at hagree
      exact hagree
  | overflow =>
      rw [hlast] at hagree
      exact hagree.imp_right fun h => h.2

/-- A body that is too short. -/
theorem answers_short {message : String} (hwalk : walk body = .ending .refused) :
    Answers w body (refuse message) walk R := by
  refine ⟨.error (.error message), ⟨[], 0, []⟩, rfl, ?_, ?_⟩
  · rw [hwalk]
    rfl
  · rw [hwalk]
    exact ⟨message, rfl⟩

/-- What is computed before a reader is made. -/
theorem Answers.bind {k : β → Decode α} {e : Decode β} {b : β}
    (he : e w ⟨[], 0, []⟩ = (.ok b, ⟨[], 0, []⟩)) (hk : Answers w body (k b) walk R) :
    Answers w body (e >>= k) walk R := by
  obtain ⟨outcome, m', hrun, hagree⟩ := hk
  exact ⟨outcome, m', (bind_ok he).trans hrun, hagree⟩

/-- Only the walk over the body counts. -/
theorem Answers.congr {walk' : List UInt8 → Walk} (h : Answers w body d walk R)
    (hwalk : walk' body = walk body) : Answers w body d walk' R := by
  rw [Answers, hwalk]
  exact h

/-- The first bytes of a body that has them. -/
theorem walk_behind {n : ℕ} {layouts : List Layout} (hn : n ≤ body.length) :
    (Layout.all (.fixed n :: layouts)).walk w body = (Layout.all layouts).walk w (body.drop n) := by
  rw [walk_all_fixed]
  exact if_neg (Nat.not_lt.mpr hn)

theorem index_apply {bytes : List UInt8} {i : ℕ} (h : i < bytes.length) (m : Machine) :
    index bytes i w m = (.ok bytes[i], m) := by
  rw [index, List.getElem?_eq_getElem h]
  rfl

/-- A reader over the body behind its first bytes. -/
theorem Follows.answers_behind {n : ℕ} (h : Follows true w d walk R)
    (hbody : body.length ≤ maxFrame.toNat) (hn : n ≤ body.length) :
    Answers w body
      (slice body n body.length >>= fun rest => newReader rest >>= fun _ => d)
      (fun bytes => walk (bytes.drop n)) R := by
  have hslice : slice body n body.length w ⟨[], 0, []⟩ = (.ok (body.drop n), ⟨[], 0, []⟩) := by
    rw [slice_apply hn (Nat.le_refl _), List.take_length]
  have hdrop : (body.drop n).length ≤ maxFrame.toNat := by
    rw [List.length_drop]
    omega
  obtain ⟨outcome, m', hrun, hagree⟩ := h.answers hdrop
  exact ⟨outcome, m', (bind_ok hslice).trans hrun, hagree⟩

/-- A number that may be missing at the end of the body. -/
theorem follows_optional {n : ℕ} (hw : 32 ≤ w) (hn : n ≤ 8) {k : Option ℕ → Decode α}
    (hk : ∀ v, Follows true w (k v) (fun bytes => .ending (.rest bytes)) R) :
    Follows true w (word n >>= k) (fun bytes => .ending (.rest bytes)) R := by
  intro m hm
  have hword := hm.word hw hn
  split at hword
  next hshort =>
    obtain ⟨outcome, m', hrun, hagree⟩ := hk none hm
    exact ⟨outcome, m', (bind_ok hword).trans hrun, hagree⟩
  next hlong =>
    obtain ⟨outcome, m', hrun, hrequests, hagree⟩ := hk _ (hm.advance hlong).1
    refine ⟨outcome, m', (bind_ok hword).trans hrun, hrequests, ?_⟩
    exact hagree.imp_left fun ⟨a, ha, hR, _⟩ => ⟨a, ha, hR, fun h => nomatch h⟩

end

/-- The rows of an inventory, in the order of the body. -/
def inventoryRows (inventory : ScriptInventory) : List ℕ :=
  [inventory.scripts.length, inventory.breakpoints.length, inventory.decisions.length] ++
    inventory.decisions.flatMap fun decision => codeCounts decision.codes

/-- The rows of a memory map, in the order of the body. -/
def memoryMapRows (map : MemoryMap) : List ℕ :=
  [map.regions.length, map.heaps.length, map.modules.length] ++
    map.modules.map fun mapModule => mapModule.sections.length

/-! ## The methods -/

/-- The methods of `Client` that look into the body of their reply. -/
inductive Method where
  | pingFull
  | counters
  | priorityNewest
  | hookEventsWindow
  | syscallEventsWindow
  | ringPage
  | stop
  | resume
  | readMemory
  | writeMemory
  | bpSet
  | bpList
  | entryStopStatus
  | bpRemove
  | modules
  | threads
  | contextGet
  | excPolicyGet
  | step
  | disasm
  | resolve
  | resolveName
  | scriptLoad
  | scriptStatus
  | scriptInventory
  | scriptOutput
  | exports
  | hookSet
  | hookSetBatch
  | hookRange
  | hookList
  | hookFunctionList
  | hookSignatureSet
  | hookRuleSet
  | traceStart
  | traceStartSpec
  | memoryRegion
  | memoryMap
  | traceStop
  | traceStatusDetail
  deriving DecidableEq

namespace Method

/-- What a method returns. -/
def Result : Method → Type
  | .pingFull => PingInfo
  | .counters => UInt64 × UInt64 × UInt64 × List UInt64
  | .priorityNewest | .ringPage => UInt64 × UInt64 × UInt64 × List Event
  | .hookEventsWindow | .syscallEventsWindow => UInt64 × UInt64 × UInt64 × List HookLogRecord
  | .stop | .resume | .step | .hookSet | .hookSignatureSet | .hookRuleSet => Bool
  | .readMemory => List UInt8
  | .writeMemory | .resolveName => UInt64
  | .bpSet | .bpRemove | .scriptLoad => UInt32
  | .bpList => Bool × UInt32 × UInt64 × UInt64 × List (UInt32 × UInt64 × UInt64)
  | .entryStopStatus => Bool × UInt32 × UInt64 × Option UInt64
  | .modules => List (UInt64 × UInt64 × Bool × Text)
  | .threads => List UInt32
  | .contextGet => List (UInt32 × UInt64)
  | .excPolicyGet => Bool × UInt32 × Bool
  | .disasm => List (UInt64 × UInt32 × UInt32 × Text × List UInt8 × UInt64)
  | .resolve => List Resolution
  | .scriptStatus => ScriptStatus
  | .scriptInventory => ScriptInventory
  | .scriptOutput => UInt64 × List OutputLine
  | .exports => List (UInt64 × Text)
  | .hookSetBatch => UInt32 × UInt32 × Bool
  | .hookRange => HookRangeResult
  | .hookList | .hookFunctionList => List UInt64
  | .traceStart | .traceStartSpec => Unit
  | .memoryRegion => Option MemoryRegion
  | .memoryMap => MemoryMap
  | .traceStop => UInt64 × UInt64
  | .traceStatusDetail => TraceStatus

/-- What a method does with the body of its reply. -/
def decode : (method : Method) → List UInt8 → Decode method.Result
  | .pingFull => Client.pingFull
  | .counters => Client.counters
  | .priorityNewest => Client.priorityNewest
  | .hookEventsWindow => Client.hookEventsWindow
  | .syscallEventsWindow => Client.syscallEventsWindow
  | .ringPage => Client.ringPage
  | .stop => Client.firstFlag
  | .resume => Client.firstFlag
  | .readMemory => Client.readMemory
  | .writeMemory => Client.oneU64
  | .bpSet => Client.oneU32
  | .bpList => Client.bpList
  | .entryStopStatus => Client.entryStopStatus
  | .bpRemove => Client.oneU32
  | .modules => Client.modules
  | .threads => Client.threads
  | .contextGet => Client.contextGet
  | .excPolicyGet => Client.excPolicyGet
  | .step => Client.firstFlag
  | .disasm => Client.disasm
  | .resolve => Client.resolve
  | .resolveName => Client.oneU64
  | .scriptLoad => Client.oneU32
  | .scriptStatus => Client.scriptStatus
  | .scriptInventory => Client.scriptInventory
  | .scriptOutput => Client.scriptOutput
  | .exports => Client.exports
  | .hookSet => Client.oneFlag
  | .hookSetBatch => Client.hookSetBatch
  | .hookRange => Client.hookRange
  | .hookList => Client.hookList
  | .hookFunctionList => Client.hookList
  | .hookSignatureSet => Client.oneFlag
  | .hookRuleSet => Client.oneFlag
  | .traceStart => Client.traceStart
  | .traceStartSpec => Client.traceStart
  | .memoryRegion => Client.memoryRegion
  | .memoryMap => Client.memoryMap
  | .traceStop => Client.traceStop
  | .traceStatusDetail => Client.traceStatusDetail

/-- The layout of the body. -/
def layout : Method → Layout
  | .pingFull => pingLayout
  | .counters => countersLayout
  | .priorityNewest | .ringPage => recordLayout eventWireLen
  | .hookEventsWindow | .syscallEventsWindow => recordLayout hookLogWireLen
  | .stop | .resume | .step => .fixed 0
  | .readMemory => readMemoryLayout
  | .writeMemory | .resolveName => .all [.fixed 8]
  | .bpSet | .bpRemove | .scriptLoad | .hookSet | .hookSignatureSet | .hookRuleSet
  | .traceStart | .traceStartSpec => .all [.fixed 4]
  | .bpList => bpListLayout
  | .entryStopStatus => entryStopLayout
  | .modules => countedLayout moduleRow
  | .threads => countedLayout (.fixed 4)
  | .contextGet => countedLayout registerRow
  | .excPolicyGet => .fixed 6
  | .disasm => countedLayout disasmRow
  | .resolve => countedLayout resolveRow
  | .scriptStatus => scriptStatusLayout
  | .scriptInventory => inventoryLayout
  | .scriptOutput => outputLayout
  | .exports => countedLayout exportRow
  | .hookSetBatch => .all [.fixed 4, .fixed 4, .fixed 4]
  | .hookRange => hookRangeLayout
  | .hookList | .hookFunctionList => countedLayout (.fixed 8)
  | .memoryRegion => memoryRegionLayout
  | .memoryMap => memoryMapLayout
  | .traceStop => .all [.fixed 8, .fixed 8]
  | .traceStatusDetail => .all [.fixed 1, .fixed 8, .fixed 8]

/-- The numbers of the rows that a method returns. -/
def rows : (method : Method) → method.Result → List ℕ
  | .priorityNewest => fun page => [page.2.2.2.length]
  | .hookEventsWindow => fun page => [page.2.2.2.length]
  | .syscallEventsWindow => fun page => [page.2.2.2.length]
  | .ringPage => fun page => [page.2.2.2.length]
  | .readMemory => fun data => [data.length]
  | .bpList => fun list => [list.2.2.2.2.length]
  | .modules => fun rows => [rows.length]
  | .threads => fun rows => [rows.length]
  | .contextGet => fun rows => [rows.length]
  | .disasm => fun rows => [rows.length]
  | .resolve => fun rows => [rows.length]
  | .scriptInventory => inventoryRows
  | .scriptOutput => fun output => [output.2.length]
  | .exports => fun rows => [rows.length]
  | .hookRange => fun result => [result.addresses.length]
  | .hookList => fun rows => [rows.length]
  | .hookFunctionList => fun rows => [rows.length]
  | .memoryMap => memoryMapRows
  | _ => fun _ => []

end Method

/-! ## Answers -/

/-- A description is added to a decision, whose codes stay. -/
theorem map_codes_describe (row : UInt64 × UInt64 × Text) :
    ∀ decisions : List ScriptDecisionBinding,
      (describe decisions row).map ScriptDecisionBinding.codes =
        decisions.map ScriptDecisionBinding.codes
  | [] => rfl
  | decision :: decisions => by
      rw [describe]
      split
      next => rfl
      next =>
        rw [List.map_cons, List.map_cons, map_codes_describe row decisions]

theorem map_codes_foldl (metadata : List (UInt64 × UInt64 × Text)) :
    ∀ decisions : List ScriptDecisionBinding,
      (metadata.foldl describe decisions).map ScriptDecisionBinding.codes =
        decisions.map ScriptDecisionBinding.codes := by
  induction metadata with
  | nil => exact fun _ => rfl
  | cons row metadata ih =>
      intro decisions
      rw [List.foldl_cons, ih, map_codes_describe]

section

variable (hw : 32 ≤ w) (hbody : body.length ≤ maxFrame.toNat)
include hw hbody

theorem answers_pingFull :
    Answers w body (pingFull body) (pingLayout.walk w) fun _ cs => [] = cs := by
  refine Follows.answers ?_ hbody
  refine (reads_u32 hw).field fun _ => (reads_u32 hw).field fun _ => (reads_u32 hw).field fun _ =>
    (reads_u64 hw).field fun _ => ?_
  rw [walk_all_nil]
  exact follows_optional hw (by decide) fun _ => follows_optional hw (by decide) fun _ =>
    follows_pure rfl

theorem answers_counters :
    Answers w body (counters body) (countersLayout.walk w) fun _ cs => [] = cs := by
  refine Follows.answers ?_ hbody
  refine (reads_u64 hw).field fun _ => (reads_u64 hw).field fun _ => (reads_u64 hw).field fun _ =>
    ?_
  have hkinds : Follows false w (times u64OrErr 8) ((Layout.fixed (8 * 8)).walk w)
      fun _ cs => cs = [] := by
    have htimes := follows_times (follows_u64Row hw) 8
    rw [funext (times_fixed w 8 8)] at htimes
    exact htimes.mono fun kinds cs hcs =>
      hcs.2.symm.trans (List.flatMap_eq_nil_iff.mpr fun _ _ => rfl)
  exact hkinds.field fun _ => follows_return rfl

theorem answers_recordPage {n : ℕ} {record : List UInt8 → Decode (Option α)} {message : String}
    (hrecord : RecordOf w n record) :
    Answers w body (recordPage n record message body) ((recordLayout n).walk w)
      fun page cs => [page.2.2.2.length] = cs :=
  (follows_recordPage message hw hrecord).answers hbody

theorem answers_oneU64 :
    Answers w body (oneU64 body) ((Layout.all [.fixed 8]).walk w) fun _ cs => [] = cs := by
  rw [walk_all_single]
  exact ((follows_u64Row hw).mono fun _ _ h => h).answers hbody

theorem answers_oneU32 :
    Answers w body (oneU32 body) ((Layout.all [.fixed 4]).walk w) fun _ cs => [] = cs := by
  rw [walk_all_single]
  exact ((follows_u32Row hw).mono fun _ _ h => h).answers hbody

theorem answers_oneFlag :
    Answers w body (oneFlag body) ((Layout.all [.fixed 4]).walk w) fun _ cs => [] = cs :=
  Follows.answers ((reads_u32 hw).field fun _ => follows_return rfl) hbody

theorem answers_traceStart :
    Answers w body (traceStart body) ((Layout.all [.fixed 4]).walk w) fun _ cs => [] = cs := by
  refine Follows.answers ((reads_u32 hw).field fun ok => ?_) hbody
  rw [walk_all_nil]
  split
  next => exact fun m _ => ⟨_, m, rfl, (List.append_nil _).symm, .inr ⟨rfl, _, rfl⟩⟩
  next => exact follows_pure rfl

theorem answers_countedRows {row : Decode α} {layout : Layout} {least : ℕ}
    (hrow : Follows false w row (layout.walk w) fun _ cs => [] = cs)
    (hleast : layout.least = least) :
    Answers w body (countedRows least row body) ((countedLayout layout).walk w)
      fun rows cs => [rows.length] = cs := by
  rw [countedLayout, walk_all_single]
  refine Follows.answers ((follows_rows hw hrow hleast).mono fun rows cs hcs => ?_) hbody
  rw [← hcs, List.flatMap_eq_nil_iff.mpr fun _ _ => rfl]

theorem answers_scriptOutput :
    Answers w body (scriptOutput body) (outputLayout.walk w)
      fun output cs => [output.2.length] = cs := by
  refine Follows.answers ((reads_u64 hw).field fun next => ?_) hbody
  refine field_rows hw (follows_outputEntry hw) rfl fun lines => follows_return ?_
  rw [List.flatMap_eq_nil_iff.mpr fun _ _ => rfl]
  rfl

/-- Three numbers lie between the count of `hook_range` and its addresses. -/
theorem answers_hookRange :
    Answers w body (hookRange body) (hookRangeLayout.walk w)
      fun result cs => [result.addresses.length] = cs := by
  refine Follows.answers ((reads_u64 hw).field fun decoded => (reads_u64 hw).field fun matched =>
    ?_) hbody
  have hwalk : (Layout.all [.rows 4 none 12 (.fixed 8)]).walk w = fun bytes =>
      Layout.next 4 bytes fun count rest => Layout.next 4 rest fun _ rest =>
      Layout.next 4 rest fun _ rest => Layout.next 4 rest fun _ rest =>
        (Walk.times ((Layout.fixed 8).walk w) count rest).counting count
          [⟨count % 2 ^ w, 8, rest.length⟩] := by
    rw [walk_all_rows]
    funext bytes
    simp only [walk_all_nil, Walk.andThen_ending, pass_add_andThen 4 8, pass_add_andThen 4 4,
      pass_add_andThen 4 0, pass_zero_andThen]
    rfl
  rw [hwalk]
  refine (reads_u32 hw).follows fun count => (reads_u32 hw).follows fun _ =>
    (reads_u32 hw).follows fun _ => (reads_u32 hw).follows fun flags => ?_
  refine (follows_vec (follows_u64Row hw) rfl count.toNat).map fun addresses cs hcs => ?_
  rw [← hcs, List.flatMap_eq_nil_iff.mpr fun _ _ => rfl]

theorem answers_hookSetBatch :
    Answers w body (hookSetBatch body) ((Layout.all [.fixed 4, .fixed 4, .fixed 4]).walk w)
      fun _ cs => [] = cs :=
  Follows.answers ((reads_u32 hw).field fun _ => (reads_u32 hw).field fun _ =>
    (reads_u32 hw).field fun _ => follows_return rfl) hbody

theorem answers_traceStop :
    Answers w body (traceStop body) ((Layout.all [.fixed 8, .fixed 8]).walk w)
      fun _ cs => [] = cs :=
  Follows.answers ((reads_u64 hw).field fun _ => (reads_u64 hw).field fun _ =>
    follows_return rfl) hbody

theorem answers_scriptInventory :
    Answers w body (scriptInventory body) (inventoryLayout.walk w)
      fun inventory cs => inventoryRows inventory = cs := by
  refine Follows.answers ?_ hbody
  refine field_rows hw (follows_scriptEntry hw) rfl fun scripts => ?_
  refine (follows_tailRows (follows_rows hw (follows_bindingEntry hw) rfl) rfl).bind
    fun breakpoints cs hcs => ?_
  refine (follows_tailRows (follows_rows hw (follows_decisionEntry hw) rfl) rfl).bind
    fun decisions cs' hcs' => ?_
  refine (follows_metadata hw).bind fun metadata cs'' hcs'' => follows_return ?_
  subst hcs hcs' hcs''
  have hcodes := map_codes_foldl metadata decisions
  have hlength := congrArg List.length hcodes
  have hcounts := congrArg (List.flatMap codeCounts) hcodes
  rw [List.length_map, List.length_map] at hlength
  rw [List.flatMap_map, List.flatMap_map] at hcounts
  rw [inventoryRows, hlength, hcounts, List.flatMap_eq_nil_iff.mpr fun _ _ => rfl,
    List.flatMap_eq_nil_iff.mpr fun _ _ => rfl]
  simp

theorem answers_memoryMap :
    Answers w body (memoryMap body) (memoryMapLayout.walk w)
      fun map cs => memoryMapRows map = cs := by
  refine Follows.answers ?_ hbody
  refine (follows_limitedVec hw _ _ (follows_regionEntry hw) rfl).bind fun regions cs hcs => ?_
  refine (follows_limitedVec hw _ _ (follows_u64Row hw) rfl).bind fun heaps cs' hcs' => ?_
  refine (follows_limitedVec hw _ _ (follows_mapModuleEntry hw) rfl).bind
    fun modules cs'' hcs'' => follows_return ?_
  subst hcs hcs' hcs''
  rw [memoryMapRows, List.map_eq_flatMap, List.flatMap_eq_nil_iff.mpr fun _ _ => rfl,
    List.flatMap_eq_nil_iff.mpr fun _ _ => rfl]
  simp

/-- A length that is cut is accepted when there is as much data. -/
theorem answers_readMemory :
    Answers w body (readMemory body) (readMemoryLayout.walk w)
      fun data cs => [data.length] = cs := by
  refine Follows.answers ((reads_u64 hw).field fun address => ?_) hbody
  rw [walk_all_single]
  refine (reads_u64 hw).follows fun copied m hm => ?_
  have hsize : asUsize copied.toNat w m = (.ok (copied.toNat % 2 ^ w), m) := rfl
  rw [bind_ok hm.remaining, bind_ok hsize]
  split
  next hshort => exact ⟨_, m, rfl, (List.append_nil _).symm, _, rfl⟩
  next hlong =>
    have hslice := slice_apply (w := w) (m := m) (Nat.zero_le _) (Nat.not_lt.mp hlong)
    have hlength : ((m.rest.take (copied.toNat % 2 ^ w)).drop 0).length = copied.toNat % 2 ^ w := by
      rw [List.drop_zero, List.length_take]
      omega
    refine ⟨_, m, hslice, (List.append_nil _).symm, ?_⟩
    by_cases hcut : 2 ^ w ≤ copied.toNat
    · rw [if_pos hcut]
      refine .inr ⟨rfl, _, rfl, fun h => ?_⟩
      have hlt := Nat.mod_lt copied.toNat (Nat.two_pow_pos w)
      rw [hlength] at h
      have heq := (List.cons.inj h).1
      omega
    · rw [if_neg hcut]
      refine .inl ⟨_, rfl, ?_, fun h => nomatch h⟩
      rw [hlength, Nat.mod_eq_of_lt (Nat.not_le.mp hcut)]

theorem answers_bpList :
    Answers w body (bpList body) (bpListLayout.walk w)
      fun list cs => [list.2.2.2.2.length] = cs := by
  rw [bpList]
  split
  next hshort =>
    exact answers_short (walk_all_short w [.rows 4 none 0 bpRow] [1, 4, 8, 8] hshort)
  next hlong =>
    refine Answers.bind (index_apply (by omega) _) ?_
    refine Answers.congr (Follows.answers_behind ?_ hbody (by omega)) (walk_behind (by omega))
    refine (reads_u32 hw).field fun hitTid => (reads_u64 hw).field fun hitAddr =>
      (reads_u64 hw).field fun stopGen => ?_
    refine field_rows hw (follows_bpEntry hw) rfl fun entries => follows_return ?_
    rw [List.flatMap_eq_nil_iff.mpr fun _ _ => rfl]
    rfl

omit hw hbody in
theorem answers_excPolicyGet :
    Answers w body (excPolicyGet body) ((Layout.fixed 6).walk w) fun _ cs => [] = cs := by
  have hwalk : (Layout.fixed 6).walk w body = .ending (Layout.pass 6 body) := rfl
  rw [excPolicyGet, Answers, hwalk, Layout.pass]
  split
  next hshort => exact ⟨_, _, rfl, rfl, _, rfl⟩
  next hlong =>
    have hcode : slice body 1 5 w ⟨[], 0, []⟩ = (.ok ((body.take 5).drop 1), ⟨[], 0, []⟩) :=
      slice_apply (by decide) (by omega)
    rw [bind_ok (index_apply (by omega) _), bind_ok hcode, bind_ok (index_apply (by omega) _)]
    exact ⟨_, _, rfl, rfl, .inl ⟨_, rfl, rfl⟩⟩

omit hw hbody in
theorem answers_firstFlag :
    Answers w body (firstFlag body) ((Layout.fixed 0).walk w) fun _ cs => [] = cs := by
  have hwalk : (Layout.fixed 0).walk w body = .ending (Layout.pass 0 body) := rfl
  rw [Answers, hwalk, Layout.pass, if_neg (Nat.not_lt_zero _)]
  exact ⟨_, _, rfl, rfl, .inl ⟨_, rfl, rfl⟩⟩

theorem answers_scriptStatus :
    Answers w body (scriptStatus body) (scriptStatusLayout.walk w) fun _ cs => [] = cs := by
  rw [scriptStatus]
  split
  next hshort =>
    refine answers_short ?_
    by_cases hfields : body.length < 18
    · exact walk_all_short w [.block 2] [1, 1, 8, 8] hfields
    · have hlength : ∀ n, n ≤ 18 → n ≤ body.length := fun n hn => by omega
      rw [scriptStatusLayout, walk_behind (hlength 1 (by decide)),
        walk_behind (by rw [List.length_drop]; omega), walk_behind (by simp; omega),
        walk_behind (by simp; omega), walk_all_single]
      exact if_pos (by simp; omega)
  next hlong =>
    refine Answers.bind (index_apply (by omega) _) ?_
    refine Answers.bind (index_apply (by omega) _) ?_
    have hwalk : scriptStatusLayout.walk w body =
        (Layout.all [.fixed 8, .fixed 8, .block 2]).walk w (body.drop 2) := by
      rw [scriptStatusLayout, walk_behind (by omega), walk_behind (by rw [List.length_drop]; omega),
        List.drop_drop]
    refine Answers.congr (Follows.answers_behind ?_ hbody (by omega)) hwalk
    refine (reads_u64 hw).field fun delivered => (reads_u64 hw).field fun dropped => ?_
    rw [walk_all_single]
    refine (reads_u16 hw).follows fun nameLen m hm => ?_
    rw [bind_ok hm.remaining, Layout.pass]
    split
    next hshort => exact ⟨_, m, rfl, (List.append_nil _).symm, _, rfl⟩
    next hname =>
      rw [bind_ok (slice_apply (Nat.zero_le _) (Nat.not_lt.mp hname))]
      exact ⟨_, m, rfl, (List.append_nil _).symm, .inl ⟨_, rfl, rfl, fun h => (by cases h)⟩⟩

theorem answers_memoryRegion :
    Answers w body (memoryRegion body) (memoryRegionLayout.walk w) fun _ cs => [] = cs := by
  have hwalk : memoryRegionLayout.walk w body =
      if body.headD 0 = 0 then .ending (.rest body)
      else Layout.next 1 body fun _ rest => regionRow.walk w rest := rfl
  have hnone : body.headD 0 = 0 → Answers w body (pure none : Decode (Option MemoryRegion))
      (memoryRegionLayout.walk w) fun _ cs => [] = cs := fun hzero => by
    rw [Answers, hwalk, if_pos hzero]
    exact ⟨_, _, rfl, rfl, .inl ⟨none, rfl, rfl⟩⟩
  rw [memoryRegion]
  cases body with
  | nil => exact hnone rfl
  | cons flag rest =>
      refine Answers.bind (index_apply (Nat.succ_pos _) _) ?_
      rw [List.getElem_cons_zero]
      split
      next hzero => exact hnone hzero
      next hflag =>
        have hregion : Follows true w (regionEntry >>= fun region => pure (some region))
            (regionRow.walk w) fun _ cs => [] = cs :=
          (follows_regionEntry hw).map fun _ _ hcs => hcs
        refine Answers.congr (hregion.answers_behind hbody (Nat.succ_pos _)) ?_
        rw [hwalk, List.headD_cons, if_neg hflag]
        exact if_neg (Nat.not_lt.mpr (Nat.succ_pos _))

theorem answers_traceStatusDetail :
    Answers w body (traceStatusDetail body) ((Layout.all [.fixed 1, .fixed 8, .fixed 8]).walk w)
      fun _ cs => [] = cs := by
  rw [traceStatusDetail]
  cases body with
  | nil => exact answers_short (walk_all_short w [] [1, 8, 8] (by decide))
  | cons flag rest =>
      refine Answers.bind (index_apply (Nat.succ_pos _) _) ?_
      refine Answers.congr (Follows.answers_behind ?_ hbody (Nat.succ_pos _))
        (walk_behind (Nat.succ_pos _))
      refine (reads_u64 hw).field fun recorded => (reads_u64 hw).field fun dropped => ?_
      rw [walk_all_nil]
      intro m hm
      have hstate := hm.u8 hw
      split at hstate
      next => exact ⟨_, _, bind_ok hstate, (List.append_nil _).symm,
        .inl ⟨_, rfl, rfl, fun h => nomatch h⟩⟩
      next => exact ⟨_, _, bind_ok hstate, (List.append_nil _).symm,
        .inl ⟨_, rfl, rfl, fun h => nomatch h⟩⟩

omit hbody in
/-- The next number of a reader that has it. -/
theorem number_apply {n : ℕ} (hn : n ≤ 8) {m : Machine} (hm : m.Ok) (hlong : n ≤ m.rest.length) :
    orErr (word n) "short payload" w m =
        (.ok (LittleEndian.decode (m.rest.take n)), { m with pos := m.pos + n }) ∧
      Machine.Ok { m with pos := m.pos + n } ∧
      Machine.rest { m with pos := m.pos + n } = m.rest.drop n := by
  have hword := hm.word hw hn
  rw [if_neg (Nat.not_lt.mpr hlong)] at hword
  exact ⟨orErr_some hword, hm.advance (Nat.not_lt.mpr hlong)⟩

omit hbody in
/-- The rows of `entry_stop_status`, which begin at the position 24. -/
theorem span_apply {f : Option ℕ → α} {m : Machine} (hm : m.Ok) (hpos : m.pos = 20) :
    ∃ outcome m', (do
        let count ← u32OrErr
        let rowsLen ← orErr (checkedMul count.toNat 20) "bp list count overflow"
        orErr (skip rowsLen) "short bp list entries"
        let entry ← word 8
        return f entry : Decode α) w m = (outcome, m') ∧ m'.requests = m.requests ∧
      match ((Layout.span 24 20).walk w m.rest).last with
      | .rest _ => ∃ a, outcome = .ok a
      | .refused => ∃ message, outcome = .error (.error message)
      | .overflow => outcome = .error .fault := by
  have hwalk : (Layout.span 24 20).walk w m.rest =
      Layout.next 4 m.rest fun count rest =>
        if 2 ^ w ≤ count * 20 then .ending .refused
        else if 2 ^ w ≤ 24 + count * 20 then .ending .overflow
        else .ending (Layout.pass (count * 20) rest) := rfl
  rw [hwalk, Layout.next, u32OrErr, bind_map_left]
  by_cases hshort : m.rest.length < 4
  · have hword := hm.word hw (n := 4) (by decide)
    rw [if_pos hshort] at hword ⊢
    exact ⟨_, m, bind_error (orErr_none hword), rfl, _, rfl⟩
  · obtain ⟨hcount, hok, hrest⟩ := number_apply hw (by decide) hm (Nat.not_lt.mp hshort)
    have hlt := LittleEndian.decode_lt (m.rest.take 4)
    rw [List.length_take, Nat.min_eq_left (Nat.not_lt.mp hshort)] at hlt
    rw [if_neg hshort, bind_ok hcount, UInt32.toNat_ofNat_of_lt' hlt]
    generalize LittleEndian.decode (m.rest.take 4) = count
    generalize hmachine : ({ m with pos := m.pos + 4 } : Machine) = m₁ at hok hrest
    have hpos₁ : m₁.pos = 24 := by
      rw [← hmachine]
      exact congrArg (· + 4) hpos
    have hrequests : m₁.requests = m.requests := by rw [← hmachine]
    have hmul : checkedMul count 20 w m₁ =
        (.ok (if 2 ^ w ≤ count * 20 then none else some (count * 20)), m₁) := rfl
    rw [← hrest, ← hrequests]
    by_cases hover : 2 ^ w ≤ count * 20
    · rw [if_pos hover] at hmul ⊢
      rw [bind_error (orErr_none hmul)]
      exact ⟨_, m₁, rfl, rfl, _, rfl⟩
    · rw [if_neg hover] at hmul ⊢
      rw [bind_ok (orErr_some hmul)]
      by_cases hword : 2 ^ w ≤ 24 + count * 20
      · have hadd := add_fault (w := w) (m := m₁) (a := m₁.pos) (b := count * 20)
          (by rw [hpos₁]; exact hword)
        have hget : (get : Decode Machine) w m₁ = (.ok m₁, m₁) := rfl
        have hread : readBytes (count * 20) w m₁ = (.error .fault, m₁) := by
          rw [readBytes, bind_ok hget, bind_error hadd]
        have hskip : skip (count * 20) w m₁ = (.error .fault, m₁) := bind_error hread
        rw [if_pos hword]
        exact ⟨_, m₁, bind_error (bind_error hskip), rfl, rfl⟩
      · have hread := hok.readBytes (w := w) (n := count * 20) (by rw [hpos₁]; omega)
        rw [if_neg hword, Layout.pass]
        by_cases hrows : m₁.rest.length < count * 20
        · rw [if_pos hrows] at hread ⊢
          have hskip : skip (count * 20) w m₁ = (.ok none, m₁) := by
            rw [skip, bind_ok hread]
            rfl
          exact ⟨_, m₁, bind_error (orErr_none hskip), rfl, _, rfl⟩
        · rw [if_neg hrows] at hread ⊢
          have hskip : skip (count * 20) w m₁ =
              (.ok (some ()), { m₁ with pos := m₁.pos + count * 20 }) := by
            rw [skip, bind_ok hread]
            rfl
          have hentry := (hok.advance hrows).1.word hw (n := 8) (by decide)
          rw [bind_ok (orErr_some hskip)]
          split at hentry
          next => exact ⟨_, _, bind_ok hentry, rfl, _, rfl⟩
          next => exact ⟨_, _, bind_ok hentry, rfl, _, rfl⟩

omit hw hbody in
/-- Rows that are passed at once leave no counts and no requests. -/
theorem span_ending (head length : ℕ) (bytes : List UInt8) :
    ∃ last, (Layout.span head length).walk w bytes = .ending last := by
  rw [Layout.walk, Layout.next]
  split
  next => exact ⟨_, rfl⟩
  next =>
    split
    next => exact ⟨_, rfl⟩
    next =>
      split
      next => exact ⟨_, rfl⟩
      next => exact ⟨_, rfl⟩

theorem answers_entryStopStatus :
    Answers w body (entryStopStatus body) (entryStopLayout.walk w) fun _ cs => [] = cs := by
  rw [entryStopStatus]
  split
  next hshort => exact answers_short (walk_all_short w [.span 24 20] [1, 4, 8, 8] hshort)
  next hlong =>
    have hwalk : entryStopLayout.walk w body = (Layout.span 24 20).walk w (body.drop 21) := by
      rw [entryStopLayout, walk_behind (by omega), walk_behind (by simp; omega),
        walk_behind (by simp; omega), walk_behind (by simp; omega), walk_all_single,
        List.drop_drop, List.drop_drop, List.drop_drop]
    have hdrop : (body.drop 1).length = body.length - 1 := List.length_drop ..
    have hbehind : slice body 1 body.length w ⟨[], 0, []⟩ = (.ok (body.drop 1), ⟨[], 0, []⟩) := by
      rw [slice_apply (by omega) (Nat.le_refl _), List.take_length]
    have hnew : newReader (body.drop 1) w ⟨[], 0, []⟩ = (.ok (), ⟨body.drop 1, 0, []⟩) := rfl
    have hok : Machine.Ok ⟨body.drop 1, 0, []⟩ := ⟨Nat.zero_le _, by dsimp only; omega⟩
    have hrest : Machine.rest ⟨body.drop 1, 0, []⟩ = body.drop 1 := rfl
    -- The three numbers before the count are there.
    obtain ⟨hread₁, hok₁, hrest₁⟩ := number_apply hw (n := 4) (by decide) hok (by rw [hrest]; omega)
    rw [hrest, List.drop_drop] at hrest₁
    obtain ⟨hread₂, hok₂, hrest₂⟩ := number_apply hw (n := 8) (by decide) hok₁
      (by rw [hrest₁, List.length_drop]; omega)
    rw [hrest₁, List.drop_drop] at hrest₂
    obtain ⟨hread₃, hok₃, hrest₃⟩ := number_apply hw (n := 8) (by decide) hok₂
      (by rw [hrest₂, List.length_drop]; omega)
    rw [hrest₂, List.drop_drop] at hrest₃
    obtain ⟨outcome, m', hrun, hrequests, hagree⟩ := span_apply hw (w := w)
      (f := fun entry => (decide (body[0] ≠ 0), UInt32.ofNat _, UInt64.ofNat _,
        entry.map UInt64.ofNat)) hok₃ rfl
    obtain ⟨last, hlast⟩ := span_ending (w := w) 24 20 (body.drop 21)
    rw [hrest₃, hlast] at hagree
    refine Answers.bind (index_apply (by omega) _) ?_
    rw [Answers, hwalk, hlast, bind_ok hbehind, bind_ok hnew, u32OrErr, bind_map_left,
      bind_ok hread₁, u64OrErr, bind_map_left, bind_ok hread₂, bind_map_left, bind_ok hread₃]
    refine ⟨outcome, m', hrun, hrequests, ?_⟩
    cases last with
    | rest bytes =>
        obtain ⟨a, ha⟩ := hagree
        exact .inl ⟨a, ha, rfl⟩
    | refused => exact hagree
    | overflow => exact .inl hagree

end

/-! ## Totality -/

/-- What a method comes to on a body, and its reader at the end. -/
def Method.run (method : Method) (w : ℕ) (body : List UInt8) :
    Except Stop method.Result × Machine :=
  method.decode body w ⟨[], 0, []⟩

/-- The method returns a value or an error, it reserves room for no more rows than the bytes that
are left can hold, and a value has as many rows as the body announces. -/
structure Method.Total (method : Method) (w : ℕ) (body : List UInt8) : Prop where
  returns : (method.run w body).1 ≠ .error .fault
  allocates : ∀ request ∈ (method.run w body).2.requests, request.Fits
  rows : ∀ result, (method.run w body).1 = .ok result →
    method.rows result = (method.layout.walk w body).counts

/-- A method is total on the bodies that are sound for its layout. -/
theorem Answers.total_iff {method : Method}
    (h : Answers w body (method.decode body) (method.layout.walk w)
      fun a cs => method.rows a = cs) :
    method.Total w body ↔ method.layout.Sound w body := by
  obtain ⟨outcome, m', hrun, hrequests, hagree⟩ := h
  have hrun : method.run w body = (outcome, m') := hrun
  constructor
  · intro htotal
    have hreturns := htotal.returns
    have hallocates := htotal.allocates
    have hrows := htotal.rows
    rw [hrun] at hreturns hallocates hrows
    refine ⟨hrequests ▸ hallocates, fun hover => ?_⟩
    rw [hover] at hagree
    rcases hagree with hfault | ⟨a, ha, hne⟩
    · exact hreturns hfault
    · exact hne (hrows a ha)
  · intro hsound
    cases hlast : (method.layout.walk w body).last with
    | rest bytes =>
        rw [hlast] at hagree
        refine ⟨?_, ?_, ?_⟩
        · rw [hrun]
          rintro rfl
          rcases hagree with ⟨a, ha, _⟩ | ⟨message, hmessage⟩
          · exact nomatch ha
          · exact nomatch hmessage
        · rw [hrun, hrequests]
          exact hsound.1
        · rw [hrun]
          rintro result rfl
          rcases hagree with ⟨a, ha, hrows⟩ | ⟨message, hmessage⟩
          · exact Except.ok.inj ha ▸ hrows
          · exact nomatch hmessage
    | refused =>
        rw [hlast] at hagree
        obtain ⟨message, rfl⟩ := hagree
        refine ⟨?_, ?_, ?_⟩
        · rw [hrun]
          exact nofun
        · rw [hrun, hrequests]
          exact hsound.1
        · rw [hrun]
          exact nofun
    | overflow => exact absurd hlast hsound.2

/-- Every method answers as its layout says. -/
theorem Method.answers (method : Method) (hw : 32 ≤ w) (hbody : body.length ≤ maxBody) :
    Answers w body (method.decode body) (method.layout.walk w)
      fun a cs => method.rows a = cs := by
  have hframe : body.length ≤ maxFrame.toNat := hbody.trans (Nat.sub_le _ _)
  cases method with
  | pingFull => exact answers_pingFull hw hframe
  | counters => exact answers_counters hw hframe
  | priorityNewest => exact answers_recordPage hw hframe recordOf_decodeEvent
  | hookEventsWindow => exact answers_recordPage hw hframe recordOf_decodeHookLog
  | syscallEventsWindow => exact answers_recordPage hw hframe recordOf_decodeHookLog
  | ringPage => exact answers_recordPage hw hframe recordOf_decodeEvent
  | stop => exact answers_firstFlag
  | resume => exact answers_firstFlag
  | readMemory => exact answers_readMemory hw hframe
  | writeMemory => exact answers_oneU64 hw hframe
  | bpSet => exact answers_oneU32 hw hframe
  | bpList => exact answers_bpList hw hframe
  | entryStopStatus => exact answers_entryStopStatus hw hframe
  | bpRemove => exact answers_oneU32 hw hframe
  | modules => exact answers_countedRows hw hframe (follows_moduleEntry hw) rfl
  | threads => exact answers_countedRows hw hframe (follows_u32Row hw) rfl
  | contextGet => exact answers_countedRows hw hframe (follows_registerEntry hw) rfl
  | excPolicyGet => exact answers_excPolicyGet
  | step => exact answers_firstFlag
  | disasm => exact answers_countedRows hw hframe (follows_disasmEntry hw) rfl
  | resolve => exact answers_countedRows hw hframe (follows_resolveEntry hw) rfl
  | resolveName => exact answers_oneU64 hw hframe
  | scriptLoad => exact answers_oneU32 hw hframe
  | scriptStatus => exact answers_scriptStatus hw hframe
  | scriptInventory => exact answers_scriptInventory hw hframe
  | scriptOutput => exact answers_scriptOutput hw hframe
  | exports => exact answers_countedRows hw hframe (follows_exportEntry hw) rfl
  | hookSet => exact answers_oneFlag hw hframe
  | hookSetBatch => exact answers_hookSetBatch hw hframe
  | hookRange => exact answers_hookRange hw hframe
  | hookList => exact answers_countedRows hw hframe (follows_u64Row hw) rfl
  | hookFunctionList => exact answers_countedRows hw hframe (follows_u64Row hw) rfl
  | hookSignatureSet => exact answers_oneFlag hw hframe
  | hookRuleSet => exact answers_oneFlag hw hframe
  | traceStart => exact answers_traceStart hw hframe
  | traceStartSpec => exact answers_traceStart hw hframe
  | memoryRegion => exact answers_memoryRegion hw hframe
  | memoryMap => exact answers_memoryMap hw hframe
  | traceStop => exact answers_traceStop hw hframe
  | traceStatusDetail => exact answers_traceStatusDetail hw hframe

/-- A method is total on a body exactly when the body has room for the rows it announces, and no
length in it exceeds a `usize`. -/
theorem replies_total (hw : 32 ≤ w) (hbody : body.length ≤ maxBody) (method : Method) :
    method.Total w body ↔ method.layout.Sound w body :=
  (method.answers hw hbody).total_iff

/-- Two scripts, a breakpoint, a decision for two codes and a description of it. -/
def inventoryBody : List UInt8 :=
  [2, 0, 0, 0] ++
    ([1, 0, 97] ++ 1 :: List.replicate 16 0) ++ ([1, 0, 98] ++ 0 :: List.replicate 16 0) ++
  [1, 0, 0, 0] ++
    ([7, 0, 0, 0, 1, 0, 97, 1, 0, 99, 0, 0, 1, 255, 255, 255, 255] ++ List.replicate 14 0) ++
  [1, 0, 0, 0] ++
    (9 :: List.replicate 7 0 ++ [1, 0, 97, 0, 0, 0, 0, 0, 255, 255, 255, 255] ++
      [1, 2, 0, 0, 0, 3, 0, 0, 0, 4, 0, 0, 0] ++ List.replicate 12 0) ++
  [1, 0, 0, 0] ++ (9 :: List.replicate 7 0 ++ 16 :: List.replicate 7 0 ++ [1, 0, 100])

theorem replies_total_inventory : Method.scriptInventory.Total 64 inventoryBody ∧
    (Method.scriptInventory.layout.walk 64 inventoryBody).counts = [2, 1, 1, 2] :=
  ⟨(replies_total (by decide) (by decide +kernel) .scriptInventory).mpr (by decide +kernel),
    by decide +kernel⟩

/-- A body that holds what it announces, up to the end of the layout, is no trouble. -/
theorem total_of_complete {rest : List UInt8} (hw : 32 ≤ w) (hbody : body.length ≤ maxBody)
    (method : Method) (h : (method.layout.walk w body).last = .rest rest) :
    method.Total w body :=
  (method.answers hw hbody).total_iff.mpr (Layout.sound_of_rest h)

/-- A page that announces as many records as it can, and has none. -/
def emptyPage : List UInt8 := List.replicate 24 0 ++ List.replicate 8 255

/-- Room for all of them is reserved. -/
theorem reserves_for_emptyPage :
    ¬ ∀ method : Method, ∀ body : List UInt8, body.length ≤ maxBody → method.Total 64 body := by
  intro h
  have hallocates := (h .ringPage emptyPage (by decide)).allocates
  have hrequests : (Method.ringPage.run 64 emptyPage).2.requests = [⟨2 ^ 64 - 1, 88, 0⟩] := by
    decide +kernel
  rw [hrequests] at hallocates
  exact absurd (hallocates _ List.mem_cons_self) (by decide)

end PinBridge.Client
