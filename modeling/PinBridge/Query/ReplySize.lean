import PinBridge.Query.Server

/-!
# The size of replies

The images of fields have fixed lengths, and rows add up (`length_rows`).  A lane page has at most
as many records as were asked for.  `BoundedBy n handler` says that no body of the handler has more
than `n` bytes, and there is one bound for each handler whose reply is bounded by its capacities.
-/

namespace PinBridge.Query

open Lanes (HookLogRecord Sequenced pageInto pageFirst wrap)
open Scripts
open Utf8 Wire

/-! ## Lengths of images -/

@[simp] theorem length_putU32 (value : UInt32) : (putU32 value).length = 4 := by simp [putU32]

@[simp] theorem length_putU64 (value : UInt64) : (putU64 value).length = 8 := by simp [putU64]

@[simp] theorem length_putCount (n : Nat) : (putCount n).length = 4 := by simp [putCount]

@[simp] theorem length_putBool (value : Bool) : (putBool value).length = 1 := by simp [putBool]

@[simp] theorem length_putShort (text : Text) : (putShort text).length = 2 + size text := by
  simp [putShort]

@[simp] theorem length_putLong (text : Text) : (putLong text).length = 4 + size text := by
  simp [putLong]

/-- The length of rows is the sum of the lengths of the rows. -/
theorem length_rows {β : Type} {image : β → List UInt8} {rowSize : β → Nat}
    (h : ∀ row, (image row).length = rowSize row) (rows : List β) :
    (rows.flatMap image).length = (rows.map rowSize).sum := by
  rw [List.length_flatMap]
  exact congrArg List.sum (List.map_congr_left fun row _ => h row)

theorem length_rows_const {β : Type} {f : β → List UInt8} {n : Nat}
    (h : ∀ row, (f row).length = n) (rows : List β) :
    (rows.flatMap f).length = rows.length * n := by
  rw [length_rows h, List.map_const', List.sum_replicate_nat]

theorem length_rows_le {β : Type} {image : β → List UInt8} {n : Nat}
    (h : ∀ row, (image row).length ≤ n) (rows : List β) :
    (rows.flatMap image).length ≤ rows.length * n := by
  induction rows with
  | nil => simp
  | cons row rows ih =>
      have hrow := h row
      rw [List.flatMap_cons, List.length_append, List.length_cons, Nat.succ_mul]
      omega

@[simp] theorem length_regionImage (region : MemoryRegion) : (regionImage region).length = 40 := by
  simp [regionImage]

/-! ## Pages of a lane -/

section Lanes

variable {α : Type} [Sequenced α] {cap : ℕ+}

omit [Sequenced α] in
/-- A page has at most as many records as were asked for, also where its sums overflow. -/
theorem length_pageInto_le (r : BoundedLog.Ring α cap) (after limit : Nat) (h : limit < 2 ^ 64) :
    (pageInto r after limit).2.length ≤ limit := by
  unfold pageInto
  dsimp only
  split
  · have hfirst : 0 < pageFirst r after := by
      unfold pageFirst
      omega
    rw [List.length_map, List.length_range']
    unfold wrap
    omega
  · exact Nat.zero_le limit

omit [Sequenced α] in
theorem length_tryPage_le (lane : LaneState α cap) (after limit : Nat) (h : limit < 2 ^ 64) :
    ((lane.tryPage after limit).getD (0, [])).2.length ≤ limit := by
  unfold LaneState.tryPage
  split
  · exact Nat.zero_le limit
  · exact length_pageInto_le lane.ring after limit h

omit [Sequenced α] in
theorem length_pageImage {encode : α → List UInt8} {n : Nat} (h : ∀ e, (encode e).length = n)
    (first second next : Nat) (events : List α) :
    (pageImage encode first second next events).length = 32 + events.length * n := by
  simp only [pageImage, List.length_append, LittleEndian.length_encode, length_rows_const h]

theorem length_newest_le {encode : α → List UInt8} {n : Nat} (hn : ∀ e, (encode e).length = n)
    (lane : LaneState α cap) (after : Nat) {limit b : Nat} (hlimit : limit ≤ b)
    (hbound : b < 2 ^ 64) (keep : α → Bool) :
    (newest lane encode after limit keep).length ≤ 32 + b * n := by
  have hpage := length_tryPage_le lane after limit (by omega)
  have hkeep := List.length_filter_le keep ((lane.tryPage after limit).getD (0, [])).2
  rw [newest, length_pageImage hn]
  exact Nat.add_le_add_left (Nat.mul_le_mul_right n (by omega)) 32

end Lanes

theorem clampLimit_le (limit : UInt64) {bound : Nat} (h : 0 < bound) :
    clampLimit limit bound ≤ bound := by
  unfold clampLimit
  omega

@[simp] theorem length_encodeHookLog (r : HookLogRecord) : (encodeHookLog r).length = 168 := by
  rw [encodeHookLog, LittleEndian.length_pack]
  · rfl
  · simp [hookLogLayout]

/-! ## Replies with a bound -/

/-- A body of at most `n` bytes, whatever the payload. -/
def BoundedBy (n : Nat) (handler : Handler) : Prop := Yields handler fun body => body.length ≤ n

theorem length_respond_le {handler : Handler} {n : Nat} (h : BoundedBy n handler)
    (payload : List UInt8) : (respond handler payload).2.length ≤ n := by
  unfold respond
  split
  · rename_i body rest hrun
    exact h payload body rest hrun
  · exact Nat.zero_le n

theorem BoundedBy.pure {n : Nat} {body : List UInt8} (h : body.length ≤ n) :
    BoundedBy n (Pure.pure body) := Yields.pure h

theorem BoundedBy.bind {β : Type} {n : Nat} {p : Reader UInt8 β} {f : β → Handler}
    (h : ∀ b, BoundedBy n (f b)) : BoundedBy n (p >>= f) := Yields.bind h

theorem BoundedBy.lift_error (n : Nat) (code : UInt8) : BoundedBy n (lift (.error code)) :=
  fun _ _ _ hrun => nomatch hrun

theorem handlePing_le (agent : Agent) : (handlePing agent).length ≤ 28 := by simp [handlePing]

theorem handleCounters_le (agent : Agent) : (handleCounters agent).length ≤ 88 := by
  simp [handleCounters]

theorem handleStop_le (agent : Agent) : (handleStop agent).length ≤ 1 := by
  unfold handleStop
  split <;> simp

theorem handleResume_le (agent : Agent) : (handleResume agent).length ≤ 1 := by
  unfold handleResume
  split <;> simp

theorem handleExcPolicyGet_le (agent : Agent) : (handleExcPolicyGet agent).length ≤ 6 := by
  simp [handleExcPolicyGet]

theorem handleTraceStop_le (agent : Agent) : (handleTraceStop agent).length ≤ 16 := by
  simp [handleTraceStop]

theorem handleTraceStatus_le (agent : Agent) : (handleTraceStatus agent).length ≤ 18 := by
  simp [handleTraceStatus]

theorem handleRingPage_le (agent : Agent) : BoundedBy 180256 (handleRingPage agent) := by
  refine .bind fun after => .bind fun limit => .pure ?_
  have hpage := length_tryPage_le agent.ring after.toNat (min limit.toNat ringPageMaxLimit)
    (Nat.lt_of_le_of_lt (Nat.min_le_right _ _) (by decide))
  have hlimit : min limit.toNat ringPageMaxLimit ≤ 2048 := Nat.min_le_right _ _
  rw [length_pageImage Event.length_encode, eventWireLen]
  omega

theorem handlePriorityNewest_le (agent : Agent) :
    BoundedBy 90144 (handlePriorityNewest agent) := by
  refine .bind fun limit => .pure ?_
  exact length_newest_le (n := eventWireLen) (b := 1024) Event.length_encode agent.priority _
    (clampLimit_le limit (by decide)) (by decide) _

theorem handleNewestBefore_le {cap : ℕ+} (lane : LaneState HookLogRecord cap) :
    BoundedBy 688160 (handleNewestBefore lane) := by
  refine .bind fun limit => .bind fun rest => .pure ?_
  exact length_newest_le (b := 4096) length_encodeHookLog lane _
    (clampLimit_le limit (by decide)) (by decide) _

theorem handleReadMem_le (agent : Agent) : BoundedBy 65552 (handleReadMem agent) := by
  refine .bind fun address => .bind fun size => Yields.seq (Yields.check _ _) fun _ hsize => .pure ?_
  have hle : size.toNat ≤ 65536 := by
    rw [Bool.and_eq_true] at hsize
    exact of_decide_eq_true hsize.2
  have hcopied := List.length_take_le size.toNat (agent.safeCopy address size)
  simp only [List.length_append, length_putU64, readMemory]
  omega

theorem handleMemoryRegion_le (agent : Agent) : BoundedBy 41 (handleMemoryRegion agent) := by
  refine .bind fun address => ?_
  split
  · exact .pure (by simp)
  · exact .pure (by simp)

theorem handleWriteMem_le (agent : Agent) : BoundedBy 8 (handleWriteMem agent) :=
  .bind fun _ => .bind fun _ => .bind fun _ => .bind fun _ => .bind fun _ => .pure (by simp)

theorem handleModules_le (agent : Agent) : (handleModules agent).length ≤ 796160 := by
  have hrow (entry : ModuleLayout) : (putU64 entry.low ++ putU64 entry.high
      ++ putBool entry.isMain ++ putLong entry.name.text).length ≤ 1554 := by
    have hname := entry.name.size_text_le
    simp only [List.length_append, length_putU64, length_putBool, length_putLong]
    omega
  have hrows := length_rows_le hrow agent.modules.1
  have hcount := agent.modules.2
  rw [handleModules, List.length_append, length_putCount]
  omega

theorem handleBpSet_le (agent : Agent) : BoundedBy 4 (handleBpSet agent) := by
  refine .bind fun address => ?_
  split
  · exact .pure (by simp)
  · exact .lift_error _ _

theorem handleBpList_le (agent : Agent) : (handleBpList agent).length ≤ 1313 := by
  have hrows := length_rows_const (n := 20)
    (f := fun row : UInt32 × UInt64 × UInt64 => putU32 row.1 ++ putU64 row.2.1 ++ putU64 row.2.2)
    (fun row => by simp) agent.bpList.1
  have hcount := agent.bpList.2
  simp only [handleBpList, List.length_append, length_putBool, length_putU32, length_putU64,
    length_putCount, hrows]
  omega

theorem handleBpRemove_le (agent : Agent) : BoundedBy 4 (handleBpRemove agent) :=
  .bind fun _ => .bind fun _ => .pure (by simp)

theorem handleContextGet_le (agent : Agent) : BoundedBy 220 (handleContextGet agent) := by
  refine .bind fun tid => ?_
  split
  · exact .lift_error _ _
  · rename_i registers _
    have hrows := length_rows_const (n := 12)
      (f := fun row : UInt32 × UInt64 => putU32 row.1 ++ putU64 row.2) (fun row => by simp)
      registers.1
    have hcount := registers.2
    refine .pure ?_
    rw [List.length_append, length_putCount, hrows]
    omega

theorem handleContextSet_le (agent : Agent) : BoundedBy 0 (handleContextSet agent) :=
  .bind fun _ => .bind fun _ => .bind fun _ => .bind fun _ => .pure (by simp)

theorem handleEngineSet_le (agent : Agent) : BoundedBy 0 (handleEngineSet agent) :=
  .bind fun _ => .bind fun _ => .bind fun _ => .pure (by simp)

theorem handleExcPolicySet_le : BoundedBy 0 handleExcPolicySet :=
  .bind fun _ => .bind fun _ => .pure (by simp)

theorem handleStep_le (agent : Agent) : BoundedBy 1 (handleStep agent) :=
  .bind fun _ => .bind fun _ => .bind fun _ => .bind fun _ => .pure (by simp)

theorem handleDisasm_le (agent : Agent) : BoundedBy 30340 (handleDisasm agent) := by
  have hrow (row : DisasmRow) : (disasmImage row).length ≤ 237 := by
    have htext := row.text.size_text_le
    have hbytes := row.bytes.2
    simp only [disasmImage, List.length_append, length_putU64, length_putU32, length_putLong]
    omega
  refine .bind fun address => .bind fun count =>
    Yields.seq (Q := fun rows => rows.length ≤ 128) (Yields.lift fun rows hrows => ?_)
      fun rows hcount => .pure ?_
  · unfold disassembleLocal at hrows
    split at hrows
    · cases hrows
    · rename_i hcount
      simp only [Bool.or_eq_true, decide_eq_true_eq, not_or, Nat.not_lt] at hcount
      cases hread : agent.disassemble address count with
      | error code =>
          rw [hread] at hrows
          cases hrows
      | ok decoded =>
          rw [hread] at hrows
          cases hrows
          exact (List.length_take_le _ _).trans hcount.2
  · have hrows := length_rows_le hrow rows
    rw [List.length_append, length_putCount]
    omega

theorem handleResolveName_le (agent : Agent) : BoundedBy 8 (handleResolveName agent) :=
  .bind fun _ => .bind fun _ => .pure (by simp)

theorem handleSyscallFilter_le : BoundedBy 0 handleSyscallFilter :=
  .bind fun _ => .bind fun _ => .bind fun _ => .bind fun _ => .bind fun _ => .bind fun _ =>
    .bind fun _ => .bind fun _ => .bind fun _ => .pure (by simp)

theorem handleHookSet_le (agent : Agent) : BoundedBy 4 (handleHookSet agent) :=
  .bind fun _ => .pure (by simp)

theorem handleHookSetBatch_le (agent : Agent) : BoundedBy 12 (handleHookSetBatch agent) :=
  .bind fun _ => .bind fun _ => .bind fun _ => .bind fun _ => .pure (by simp [batchImage])

theorem handleHookRange_le (agent : Agent) : BoundedBy 262176 (handleHookRange agent) := by
  refine .bind fun _ => .bind fun _ => .bind fun _ => .bind fun _ => .bind fun _ => .bind fun _ =>
    .bind fun scan => .pure ?_
  have hrows := length_rows_const length_putU64 scan.addresses.1
  have hcount : scan.addresses.1.length ≤ 32768 := scan.addresses.2
  simp only [List.length_append, length_putU64, length_putU32, length_putCount, hrows]
  omega

theorem handleHookRemove_le : BoundedBy 0 handleHookRemove := .bind fun _ => .pure (by simp)

theorem addressesImage_le (addresses : Capped UInt64 maxHookPoints) :
    (addressesImage addresses).length ≤ 262148 := by
  have hrows := length_rows_const length_putU64 addresses.1
  have hcount : addresses.1.length ≤ 32768 := addresses.2
  rw [addressesImage, List.length_append, length_putCount, hrows]
  omega

theorem handleHookSignatureSet_le (agent : Agent) : BoundedBy 4 (handleHookSignatureSet agent) :=
  .bind fun _ => .bind fun _ => .bind fun _ => .bind fun _ => .bind fun _ => .pure (by simp)

theorem handleHookSignatureRemove_le : BoundedBy 0 handleHookSignatureRemove :=
  .bind fun _ => .pure (by simp)

theorem handleHookRuleSet_le (agent : Agent) : BoundedBy 4 (handleHookRuleSet agent) :=
  .bind fun _ => .bind fun _ => .bind fun _ => .bind fun _ => .bind fun _ => .bind fun _ =>
    .bind fun _ => .bind fun _ => .pure (by simp)

end PinBridge.Query
