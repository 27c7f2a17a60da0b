import PinBridge.Query.ReplySize

/-!
# Replies and the frame limit

`write_frame` refuses a body of more than `maxBody` bytes, and `serve_client` then drops the
connection.  Most replies have a bound of their own.  The others grow with the state of the agent:
the memory map, the stopped threads, resolved names, exports, the plugin listing, the output lines
and the texts of failures.  Their sizes are computed exactly, and `AnswerSmall` compares them with
the limit.

A client that pages the output lines takes the next cursor from the reply.  The cursor moves if and
only if the client asks for at least one line (`lt_next_iff`).  `served_iff_small` puts both
together.
-/

namespace PinBridge.Query

open Scripts
open Utf8 Wire
open scoped Sizes

/-! ## Exact sizes -/

/-- The longest body that fits a frame, behind its two header bytes. -/
def maxBody : Nat := maxFrame.toNat - 2

def shortSize (text : Text) : Nat := 2 + size text

def memoryMapSize (agent : Agent) : Nat :=
  12 + 40 * agent.regions.1.length + 8 * agent.heaps.length
    + (agent.modules.1.map fun entry => 45 + size entry.name.text
        + (entry.sections.1.map fun s => 25 + size s.name.text).sum).sum

def threadsSize (agent : Agent) : Nat := 4 + 4 * agent.threads.length

def resolveSize (agent : Agent) (addresses : List UInt64) : Nat :=
  4 + (addresses.map fun address => 17 + shortSize (agent.resolve address).moduleName
    + shortSize (agent.resolve address).symbol).sum

def exportsSize (entries : List ExportEntry) : Nat :=
  4 + ((entries.take maxHookPoints).map fun entry => 8 + shortSize entry.name).sum

def bindingSize (row : Text × BreakpointBindingInfo) : Nat :=
  17 + shortSize row.1 + shortSize (shortWireText row.2.callbackName)
    + shortSize (shortWireText row.2.description)
    + shortSize (shortWireText (row.2.lastAction.getD []))
    + shortSize (shortWireText (row.2.lastReturn.getD []))
    + shortSize (shortWireText (row.2.lastError.getD []))

def codesSize : Option (List UInt32) → Nat
  | none => 1
  | some codes => 5 + 4 * codes.length

def decisionSize (row : Text × DecisionBindingInfo) : Nat :=
  21 + shortSize row.1 + shortSize (shortWireText row.2.selector.name)
    + shortSize (shortWireText row.2.callbackName) + codesSize row.2.codes
    + shortSize (shortWireText (row.2.lastReturn.getD []))
    + shortSize (shortWireText (row.2.lastError.getD []))

def metadataSize (row : Text × DecisionBindingInfo) : Nat :=
  16 + shortSize (shortWireText row.2.description)

def scriptListSize (entries : List PluginInfo) : Nat :=
  16 + (entries.map fun entry => 17 + shortSize entry.name).sum
    + ((breakpointsOf entries).map bindingSize).sum
    + ((decisionsOf entries).map decisionSize).sum + ((decisionsOf entries).map metadataSize).sum

def outputSize (page : List OutputEntry) : Nat :=
  12 + (page.map fun entry => 8 + shortSize (entry.plugin.take 65535)
    + shortSize (entry.line.take 65535)).sum

theorem length_handleMemoryMap (agent : Agent) :
    (handleMemoryMap agent).length = memoryMapSize agent := by
  have hsection (s : ModuleSection) : (sectionImage s).length = 25 + size s.name.text := by
    simp only [sectionImage, List.length_append, length_putU64, length_putU32, length_putLong,
      List.length_singleton]
    omega
  have hmodule (entry : ModuleLayout) : (moduleImage entry).length = 45 + size entry.name.text
      + (entry.sections.1.map fun s => 25 + size s.name.text).sum := by
    simp only [moduleImage, List.length_append, length_putU64, length_putU32, length_putBool,
      length_putLong, length_putCount, length_rows hsection]
    omega
  simp only [handleMemoryMap, memoryMapSize, List.length_append, length_putCount,
    length_rows_const length_regionImage, length_rows_const length_putU64, length_rows hmodule]
  omega

theorem length_handleThreads (agent : Agent) :
    (handleThreads agent).length = threadsSize agent := by
  simp only [handleThreads, threadsSize, List.length_append, length_putCount,
    length_rows_const length_putU32]
  omega

theorem length_resolveReply (agent : Agent) (addresses : List UInt64) :
    (resolveReply agent addresses).length = resolveSize agent addresses := by
  have hrow (address : UInt64) : (resolutionImage (agent.resolve address)).length
      = 17 + shortSize (agent.resolve address).moduleName
        + shortSize (agent.resolve address).symbol := by
    simp only [resolutionImage, List.length_append, length_putU64, length_putShort,
      List.length_singleton, shortSize]
  rw [resolveReply, resolveSize, List.length_append, length_putCount, length_rows hrow]

theorem length_exportsReply (request : UInt64 × List ExportEntry) :
    (exportsReply request).length = exportsSize request.2 := by
  have hrow (entry : ExportEntry) :
      (exportImage request.1 entry).length = 8 + shortSize entry.name := by
    simp [exportImage, shortSize]
  rw [exportsReply, exportsSize, List.length_append, length_putCount, length_rows hrow]

theorem length_rowsImage {β : Type} {image : β → List UInt8} {rowSize : β → Nat}
    (h : ∀ row, (image row).length = rowSize row) (rows : List β) :
    (rowsImage image rows).length = 4 + (rows.map rowSize).sum := by
  rw [rowsImage, List.length_append, length_putCount, length_rows h]

theorem length_codesImage (codes : Option (List UInt32)) :
    (codesImage codes).length = codesSize codes := by
  cases codes with
  | none => rfl
  | some codes =>
      simp only [codesImage, codesSize, List.length_append, length_putCount,
        length_rows_const length_putU32, List.length_singleton]
      omega

theorem length_handleScriptList (entries : List PluginInfo) :
    (handleScriptList entries).length = scriptListSize entries := by
  have hscript (entry : PluginInfo) : (scriptRow entry).length = 17 + shortSize entry.name := by
    simp only [scriptRow, List.length_append, length_putShort, length_putU64,
      List.length_singleton, shortSize]
    omega
  have hbinding (row) : (bindingRow row).length = bindingSize row := by
    simp only [bindingRow, bindingSize, List.length_append, length_putShort, length_putU64,
      length_putU32, length_putBool, shortSize]
    omega
  have hdecision (row) : (decisionRow row).length = decisionSize row := by
    simp only [decisionRow, decisionSize, List.length_append, length_putShort, length_putU64,
      length_putU32, length_putBool, length_codesImage, shortSize]
    omega
  have hmetadata (row) : (metadataRow row).length = metadataSize row := by
    simp only [metadataRow, metadataSize, List.length_append, length_putShort, length_putU64,
      shortSize]
  simp only [handleScriptList, scriptListSize, List.length_append, length_rowsImage hscript,
    length_rowsImage hbinding, length_rowsImage hdecision, length_rowsImage hmetadata]
  omega

/-! ## Output pages -/

/-- What a `SCRIPT_OUTPUT` request asks for: a cursor and a limit. -/
def outputAsked : Reader UInt8 (UInt64 × Nat) := do
  let after ← u64
  let limit ← word statusBadRequest 4
  return (after, limit)

/-- The page that the request gets. -/
def pageAsked (agent : Agent) (asked : UInt64 × Nat) : UInt64 × List OutputEntry :=
  outputPage agent.output asked.1 (min asked.2 outputPageMax.toNat)

theorem pure_apply {β : Type} (value : β) (bytes : List UInt8) :
    (pure value : Reader UInt8 β) bytes = .ok (value, bytes) := rfl

theorem handleScriptOutput_eq (entries : List OutputEntry) (payload : List UInt8) :
    handleScriptOutput entries payload = match outputAsked payload with
      | .ok (asked, _) =>
        let page := outputPage entries asked.1 (min asked.2 outputPageMax.toNat)
        .ok (putU64 page.1 ++ rowsImage outputRow page.2)
      | .error code => .error code := by
  unfold handleScriptOutput outputAsked u64
  rw [map_eq_pure_bind]
  cases hafter : word statusBadRequest 8 payload with
  | error code => simp [bind, StateT.bind, Except.bind, hafter]
  | ok after =>
      cases hlimit : word statusBadRequest 4 after.2 with
      | error code =>
          simp [bind, StateT.bind, Except.bind, hafter, hlimit, pure_apply]
      | ok limit =>
          simp only [bind, StateT.bind, Except.bind, hafter, hlimit, pure_apply]
          rfl

/-- There is an output line after the cursor. -/
def HasNewer (agent : Agent) (after : UInt64) : Prop := ∃ entry ∈ agent.output, after < entry.seq

/-- A page of at least one line moves the cursor. -/
theorem lt_next_iff (agent : Agent) (asked : UInt64 × Nat) (hnewer : HasNewer agent asked.1) :
    asked.1 < (pageAsked agent asked).1 ↔ asked.2 ≠ 0 := by
  obtain ⟨after, limit⟩ := asked
  obtain ⟨entry, hentry, hlt⟩ := hnewer
  have hmem : entry ∈ agent.output.filter fun entry => after < entry.seq :=
    List.mem_filter.mpr ⟨hentry, decide_eq_true hlt⟩
  unfold pageAsked outputPage
  dsimp only
  constructor
  · rintro hnext rfl
    rw [Nat.zero_min, List.take_zero] at hnext
    exact absurd hnext (UInt64.lt_irrefl after)
  · intro hlimit
    have hpos : 0 < min limit outputPageMax.toNat :=
      Nat.lt_min.mpr ⟨Nat.pos_of_ne_zero hlimit, by decide⟩
    cases hlast : ((agent.output.filter fun entry => after < entry.seq).take
        (min limit outputPageMax.toNat)).getLast? with
    | none =>
        rw [List.getLast?_eq_none_iff, List.take_eq_nil_iff] at hlast
        rcases hlast with hzero | hnil
        · omega
        · rw [hnil] at hmem
          exact absurd hmem List.not_mem_nil
    | some last =>
        have hin := List.mem_of_mem_take (List.mem_of_getLast? hlast)
        exact of_decide_eq_true (List.mem_filter.mp hin).2

/-! ## The condition -/

/-- A text that a failing operation sends fits a frame. -/
def TextFits (result : Except Text α) : Prop :=
  ∀ message, result = .error message → size message ≤ maxBody

/-- What an operation needs so that its answer fits a frame.  All operations that are not listed
have a bound of their own. -/
def AnswerSmall (agent : Agent) (op : Op) (payload : List UInt8) : Prop :=
  match op with
  | .memoryMap => memoryMapSize agent ≤ maxBody
  | .threads => threadsSize agent ≤ maxBody
  | .resolve => ∀ addresses rest, resolveRequest payload = .ok (addresses, rest) →
      resolveSize agent addresses ≤ maxBody
  | .exports => ∀ request rest, exportsRequest agent payload = .ok (request, rest) →
      exportsSize request.2 ≤ maxBody
  | .traceStart => ∀ spec rest, traceStartRequest payload = .ok (spec, rest) →
      TextFits (agent.traceStart spec)
  | .traceStartSpec => ∀ spec rest, traceStartSpecRequest payload = .ok (spec, rest) →
      TextFits (agent.traceStart spec)
  | .traceExtend => ∀ ranges rest, rangesRequest payload = .ok (ranges, rest) →
      TextFits (agent.traceExtend ranges)
  | .scriptLoad => ∀ script rest, scriptLoadRequest payload = .ok (script, rest) →
      TextFits (agent.load script.1 script.2)
  | .scriptUnload => ∀ name rest, scriptUnloadRequest payload = .ok (name, rest) →
      TextFits (agent.unload name)
  | .scriptList => scriptListSize agent.plugins ≤ maxBody
  | .scriptOutput => ∀ asked rest, outputAsked payload = .ok (asked, rest) →
      outputSize (pageAsked agent asked).2 ≤ maxBody
  | _ => True

/-- A request whose answer fits a frame, and that asks for a line where it pages the output. -/
structure Small (agent : Agent) (op : Op) (payload : List UInt8) : Prop where
  answer : (agent.probeMode && op.requiresJit) = false → AnswerSmall agent op payload
  limit : op = .scriptOutput → ∀ asked rest, outputAsked payload = .ok (asked, rest) →
    HasNewer agent asked.1 → asked.2 ≠ 0

/-- The reply fits a frame and is written, and a client that pages the output lines gets on. -/
structure Served (agent : Agent) (op : Op) (payload : List UInt8) : Prop where
  fits : (reply agent op payload).2.length + 2 ≤ maxFrame.toNat
  written : (serve agent op payload).isSome
  progress : op = .scriptOutput → ∀ asked rest, outputAsked payload = .ok (asked, rest) →
    HasNewer agent asked.1 → asked.1.toNat < LittleEndian.decode ((reply agent op payload).2.take 8)

theorem isSome_writeFrame {payload : List UInt8} (h : payload.length + 2 ≤ maxFrame.toNat)
    (opCode status : UInt8) : (writeFrame opCode status payload).isSome := by
  have hmax : maxFrame.toNat = 1048576 := rfl
  have hlen : (UInt32.ofNat (payload.length + 2)).toNat = payload.length + 2 :=
    UInt32.toNat_ofNat_of_lt' (by rw [UInt32.size]; omega)
  have hle : ¬ UInt32.ofNat (payload.length + 2) > maxFrame := by
    intro hgt
    have hnat := UInt32.lt_iff_toNat_lt.mp hgt
    omega
  unfold writeFrame
  dsimp only
  rw [if_neg hle]
  rfl

/-! ## Replies after a request -/

theorem length_respond_le_iff {β : Type} {p : Reader UInt8 β} {build : β → List UInt8}
    {payload : List UInt8} {n : Nat} :
    (respond (p >>= fun request => pure (build request)) payload).2.length ≤ n ↔
      ∀ request rest, p payload = .ok (request, rest) → (build request).length ≤ n := by
  cases hread : p payload with
  | error code =>
      simp [respond, bind, StateT.bind, Except.bind, hread]
  | ok read =>
      obtain ⟨request, rest⟩ := read
      simp [respond, bind, StateT.bind, Except.bind, hread, pure_apply]

theorem length_respondText_le_iff {β : Type} {p : Reader UInt8 β} {bad : Text}
    {f : β → Except Text (List UInt8)} {payload : List UInt8} {n : Nat} (hbad : size bad ≤ n)
    (hok : ∀ request body, f request = .ok body → body.length ≤ n) :
    (respondText bad (p >>= fun request => pure (f request)) payload).2.length ≤ n ↔
      ∀ request rest, p payload = .ok (request, rest) →
        ∀ message, f request = .error message → size message ≤ n := by
  cases hread : p payload with
  | error code =>
      simp [respondText, bind, StateT.bind, Except.bind, hread, hbad]
  | ok read =>
      obtain ⟨request, rest⟩ := read
      cases hf : f request with
      | error message =>
          simp [respondText, bind, StateT.bind, Except.bind, hread, pure_apply, hf]
      | ok body =>
          simp [respondText, bind, StateT.bind, Except.bind, hread, pure_apply, hf,
            hok _ _ hf]

theorem map_eq_error_iff {β γ : Type} {result : Except Text β} {f : β → γ} {message : Text} :
    result.map f = .error message ↔ result = .error message := by
  cases result with
  | error text =>
      exact ⟨fun h => congrArg _ (Except.error.inj h), fun h => congrArg _ (Except.error.inj h)⟩
  | ok value => exact ⟨fun h => (nomatch h), fun h => (nomatch h)⟩

/-- The operations that answer with the text of a failure. -/
theorem length_respondText_map_le_iff {β γ : Type} {p : Reader UInt8 β} {bad : Text}
    {call : β → Except Text γ} {build : γ → List UInt8} {payload : List UInt8}
    (hbad : size bad ≤ maxBody) (hok : ∀ value, (build value).length ≤ maxBody) :
    (respondText bad (p >>= fun request => pure ((call request).map build)) payload).2.length
        ≤ maxBody ↔
      ∀ request rest, p payload = .ok (request, rest) → TextFits (call request) := by
  rw [length_respondText_le_iff hbad]
  · exact forall_congr' fun request => forall_congr' fun rest => imp_congr_right fun _ =>
      forall_congr' fun message => imp_congr_left map_eq_error_iff
  · intro request body hbody
    cases hcall : call request with
    | error message =>
        rw [hcall] at hbody
        cases hbody
    | ok value =>
        rw [hcall] at hbody
        cases hbody
        exact hok value

theorem length_handleScriptLoad_le_iff (agent : Agent) (payload : List UInt8) :
    (handleScriptLoad agent.load payload).2.length ≤ maxBody ↔
      ∀ script rest, scriptLoadRequest payload = .ok (script, rest) →
        TextFits (agent.load script.1 script.2) := by
  unfold handleScriptLoad
  cases hread : scriptLoadRequest payload with
  | error code =>
      refine ⟨fun _ _ _ h => (nomatch h), fun _ => ?_⟩
      rw [length_encode]
      decide
  | ok read =>
      obtain ⟨script, rest⟩ := read
      cases hload : agent.load script.1 script.2 with
      | error message => simp [TextFits, hload]
      | ok id =>
          have hid : 4 ≤ maxBody := by decide
          simp [TextFits, hload, hid]

theorem scriptOutputReply_le_iff (agent : Agent) (payload : List UInt8) :
    (scriptOutputReply agent payload).2.length ≤ maxBody ↔
      ∀ asked rest, outputAsked payload = .ok (asked, rest) →
        outputSize (pageAsked agent asked).2 ≤ maxBody := by
  have hrow (entry : OutputEntry) : (outputRow entry).length
      = 8 + shortSize (entry.plugin.take 65535) + shortSize (entry.line.take 65535) := by
    simp only [outputRow, List.length_append, length_putU64, length_putShort, shortSize]
  unfold scriptOutputReply
  rw [handleScriptOutput_eq]
  cases hread : outputAsked payload with
  | error code => simp
  | ok read =>
      obtain ⟨asked, rest⟩ := read
      simp only [List.length_append, length_putU64, length_rowsImage hrow]
      constructor
      · rintro hle _ _ ⟨⟩
        rw [outputSize]
        unfold pageAsked
        omega
      · intro hle
        have hsize := hle asked rest rfl
        unfold outputSize pageAsked at hsize
        omega

/-! ## Every reply -/

theorem respond_fits {handler : Handler} {n : Nat} (h : BoundedBy n handler) (hn : n ≤ maxBody)
    (payload : List UInt8) : (respond handler payload).2.length ≤ maxBody ↔ True :=
  iff_true_intro (Nat.le_trans (length_respond_le h payload) hn)

theorem body_fits {body : List UInt8} {n : Nat} (h : body.length ≤ n) (hn : n ≤ maxBody) :
    body.length ≤ maxBody ↔ True :=
  iff_true_intro (Nat.le_trans h hn)

theorem length_answer_le_iff (agent : Agent) (op : Op) (payload : List UInt8) :
    (answer agent op payload).2.length ≤ maxBody ↔ AnswerSmall agent op payload := by
  cases op with
  | ping => exact body_fits (handlePing_le agent) (by decide)
  | counters => exact body_fits (handleCounters_le agent) (by decide)
  | ringPage => exact respond_fits (handleRingPage_le agent) (by decide) payload
  | priorityNewest => exact respond_fits (handlePriorityNewest_le agent) (by decide) payload
  | stop => exact body_fits (handleStop_le agent) (by decide)
  | resume => exact body_fits (handleResume_le agent) (by decide)
  | readMem => exact respond_fits (handleReadMem_le agent) (by decide) payload
  | writeMem => exact respond_fits (handleWriteMem_le agent) (by decide) payload
  | bpSet => exact respond_fits (handleBpSet_le agent) (by decide) payload
  | bpList => exact body_fits (handleBpList_le agent) (by decide)
  | bpRemove => exact respond_fits (handleBpRemove_le agent) (by decide) payload
  | modules => exact body_fits (handleModules_le agent) (by decide)
  | threads => exact iff_of_eq (congrArg (· ≤ maxBody) (length_handleThreads agent))
  | contextGet => exact respond_fits (handleContextGet_le agent) (by decide) payload
  | contextSet => exact respond_fits (handleContextSet_le agent) (by decide) payload
  | engineSet => exact respond_fits (handleEngineSet_le agent) (by decide) payload
  | excPolicySet => exact respond_fits handleExcPolicySet_le (by decide) payload
  | excPolicyGet => exact body_fits (handleExcPolicyGet_le agent) (by decide)
  | step => exact respond_fits (handleStep_le agent) (by decide) payload
  | memoryRegion => exact respond_fits (handleMemoryRegion_le agent) (by decide) payload
  | memoryMap => exact iff_of_eq (congrArg (· ≤ maxBody) (length_handleMemoryMap agent))
  | disasm => exact respond_fits (handleDisasm_le agent) (by decide) payload
  | resolve =>
      refine length_respond_le_iff.trans (forall_congr' fun addresses => ?_)
      rw [length_resolveReply]
  | resolveName => exact respond_fits (handleResolveName_le agent) (by decide) payload
  | exports =>
      refine length_respond_le_iff.trans (forall_congr' fun request => ?_)
      rw [length_exportsReply]
  | syscallFilter => exact respond_fits handleSyscallFilter_le (by decide) payload
  | traceStart => exact length_respondText_map_le_iff (by decide) fun _ => by simp; decide
  | traceStop => exact body_fits (handleTraceStop_le agent) (by decide)
  | traceStatus => exact body_fits (handleTraceStatus_le agent) (by decide)
  | traceStartSpec => exact length_respondText_map_le_iff (by decide) fun _ => by simp; decide
  | traceExtend => exact length_respondText_map_le_iff (by decide) fun _ => Nat.zero_le _
  | scriptLoad => exact length_handleScriptLoad_le_iff agent payload
  | scriptUnload => exact length_respondText_map_le_iff (by decide) fun _ => Nat.zero_le _
  | scriptList =>
      exact iff_of_eq (congrArg (· ≤ maxBody) (length_handleScriptList agent.plugins))
  | scriptOutput => exact scriptOutputReply_le_iff agent payload
  | hookSet => exact respond_fits (handleHookSet_le agent) (by decide) payload
  | hookRemove => exact respond_fits handleHookRemove_le (by decide) payload
  | hookClear => exact iff_true_intro (Nat.zero_le _)
  | hookList => exact body_fits (addressesImage_le agent.hookList) (by decide)
  | hookRuleSet => exact respond_fits (handleHookRuleSet_le agent) (by decide) payload
  | hookRuleClear => exact iff_true_intro (Nat.zero_le _)
  | hookSetBatch => exact respond_fits (handleHookSetBatch_le agent) (by decide) payload
  | hookFunctionList => exact body_fits (addressesImage_le agent.functionList) (by decide)
  | hookEventsNewest =>
      exact respond_fits (handleNewestBefore_le agent.hookEvents) (by decide) payload
  | hookSignatureSet => exact respond_fits (handleHookSignatureSet_le agent) (by decide) payload
  | hookSignatureRemove => exact respond_fits handleHookSignatureRemove_le (by decide) payload
  | hookRange => exact respond_fits (handleHookRange_le agent) (by decide) payload
  | syscallEventsNewest =>
      exact respond_fits (handleNewestBefore_le agent.syscallEvents) (by decide) payload
  | unknown code => exact iff_true_intro (Nat.zero_le _)

theorem length_reply_le_iff (agent : Agent) (op : Op) (payload : List UInt8) :
    (reply agent op payload).2.length ≤ maxBody ↔
      ((agent.probeMode && op.requiresJit) = false → AnswerSmall agent op payload) := by
  unfold reply
  split
  · rename_i hprobe
    refine iff_of_true ?_ fun hno => absurd hprobe (by simp [hno])
    rw [length_encode]
    decide
  · rename_i hprobe
    rw [length_answer_le_iff]
    exact ⟨fun h _ => h, fun h => h (by simpa using hprobe)⟩

/-- The first word of an output page is the next cursor. -/
theorem decode_take_output (agent : Agent) {payload : List UInt8} {asked : UInt64 × Nat}
    {rest : List UInt8} (h : outputAsked payload = .ok (asked, rest)) :
    LittleEndian.decode ((reply agent .scriptOutput payload).2.take 8)
      = (pageAsked agent asked).1.toNat := by
  have hreply : (reply agent .scriptOutput payload).2
      = putU64 (pageAsked agent asked).1 ++ rowsImage outputRow (pageAsked agent asked).2 := by
    have hoff : (agent.probeMode && Op.scriptOutput.requiresJit) = false := by
      simp [Op.requiresJit]
    simp only [reply, hoff, answer, scriptOutputReply, handleScriptOutput_eq, h]
    rfl
  rw [hreply, List.take_left' (length_putU64 _), putU64,
    LittleEndian.decode_encode_of_lt (pageAsked agent asked).1.toNat_lt]

/-- Every reply fits its frame, and the paging of output gets on, exactly for small requests. -/
theorem served_iff_small (agent : Agent) (op : Op) (payload : List UInt8) :
    Served agent op payload ↔ Small agent op payload := by
  have hmax : maxFrame.toNat = maxBody + 2 := rfl
  have hlen := length_reply_le_iff agent op payload
  constructor
  · intro h
    have hfits := h.fits
    refine ⟨hlen.mp (by omega), fun hop asked rest hasked hnewer => ?_⟩
    have hprogress := h.progress hop asked rest hasked hnewer
    subst hop
    rw [decode_take_output agent hasked] at hprogress
    exact (lt_next_iff agent asked hnewer).mp (UInt64.lt_iff_toNat_lt.mpr hprogress)
  · intro h
    have hfits : (reply agent op payload).2.length + 2 ≤ maxFrame.toNat := by
      have hle := hlen.mpr h.answer
      omega
    refine ⟨hfits, isSome_writeFrame hfits _ _, fun hop asked rest hasked hnewer => ?_⟩
    have hnext := (lt_next_iff agent asked hnewer).mpr (h.limit hop asked rest hasked hnewer)
    subst hop
    rw [decode_take_output agent hasked]
    exact UInt64.lt_iff_toNat_lt.mp hnext

/-! ## Long lines -/

/-- An agent without plugins whose calls all fail. -/
def quiet : Agent where
  probeMode := false
  pid := 0
  wireId := 1
  pointerWidth := 8
  ring := ⟨Lanes.newRing _ _, false, 0⟩
  totalSeq := 0
  kindCount := fun _ => 0
  priority := ⟨Lanes.newRing _ _, false, 0⟩
  hookEvents := ⟨Lanes.newRing _ _, false, 0⟩
  syscallEvents := ⟨Lanes.newRing _ _, false, 0⟩
  isStopped := false
  controlCommand := false
  safeCopy := fun _ _ => []
  writeMemory := fun _ _ => 0
  memoryRegion := fun _ => none
  regions := ⟨[], Nat.zero_le _⟩
  heaps := []
  modules := ⟨[], Nat.zero_le _⟩
  bpSet := fun _ => none
  bpRemove := fun _ => false
  bpList := ⟨[], Nat.zero_le _⟩
  lastHit := (0xFFFFFFFF, 0)
  stopGen := 0
  entryBpAddress := 0
  threads := []
  context := fun _ => none
  contextSet := fun _ _ _ => .error statusBadRequest
  setEngineEnabled := fun _ _ => false
  policy := (false, 0, false)
  step := fun _ _ => .error statusBadRequest
  disassemble := fun _ _ => .error statusBadRequest
  resolverModules := []
  exportsOf := fun _ => none
  resolve := fun _ => ⟨0, 0, 0, [], []⟩
  resolveName := fun _ => none
  traceStart := fun _ => .error "empty path".toList
  traceExtend := fun _ => .error "not recording".toList
  traceStop := (0, 0)
  traceStatus := (false, 0, 0)
  sessionState := 0
  load := fun _ _ => .error "scripting host not running".toList
  unload := fun _ => .error "scripting host not running".toList
  plugins := []
  output := []
  hookSet := fun _ => false
  hookSetBatch := fun _ => (0, 0, false)
  hookSetPlainBatch := fun _ => (0, 0, false)
  scanRange := fun _ _ _ => .error statusBadRequest
  hookList := ⟨[], Nat.zero_le _⟩
  functionList := ⟨[], Nat.zero_le _⟩
  setFunctionSignature := fun _ => false
  setRule := fun _ => false

/-- A plugin has printed `n` lines of 65535 letters. -/
def verbose (n : Nat) : Agent :=
  { quiet with output := (List.range n).map fun k =>
      ⟨UInt64.ofNat (k + 1), "p".toList, List.replicate 65535 'a'⟩ }

theorem size_replicate (n : Nat) : size (List.replicate n 'a') = n := by
  have hone : 'a'.utf8Size = 1 := rfl
  rw [size, List.map_replicate, hone, List.sum_replicate_nat, Nat.mul_one]

theorem outputSize_verbose {n : Nat} (hn : n ≤ 1024) :
    outputSize (pageAsked (verbose n) (0, 1024)).2 = 12 + n * 65548 := by
  have hfilter : (verbose n).output.filter (fun entry => 0 < entry.seq) = (verbose n).output := by
    refine List.filter_eq_self.mpr fun entry hentry => decide_eq_true ?_
    obtain ⟨k, hk, rfl⟩ := List.mem_map.mp hentry
    rw [List.mem_range] at hk
    have hseq : (UInt64.ofNat (k + 1)).toNat = k + 1 :=
      UInt64.toNat_ofNat_of_lt' (by rw [UInt64.size]; omega)
    exact UInt64.lt_iff_toNat_lt.mpr (by rw [hseq]; exact Nat.succ_pos k)
  have hlen : (verbose n).output.length = n := by
    show ((List.range n).map _).length = n
    rw [List.length_map, List.length_range]
  have hpage : (pageAsked (verbose n) (0, 1024)).2 = (verbose n).output := by
    show (((verbose n).output.filter fun entry => 0 < entry.seq).take (min 1024 1024)) = _
    rw [hfilter, List.take_of_length_le (by omega)]
  have hline : shortSize ((List.replicate 65535 'a').take 65535) = 65537 := by
    rw [List.take_of_length_le (by rw [List.length_replicate]), shortSize, size_replicate]
  have hname : shortSize ("p".toList.take 65535) = 3 := rfl
  rw [hpage, outputSize, verbose]
  simp only [List.map_map, Function.comp_def, hline, hname, List.map_const', List.length_range,
    List.sum_replicate_nat]

/-- Seventeen long lines close the connection of every client that asks for them. -/
theorem long_lines_not_served :
    ¬ Served (verbose 17) .scriptOutput (outputRequest 0 1024) := by
  intro h
  have hfits : (reply (verbose 17) .scriptOutput (outputRequest 0 1024)).2.length ≤ maxBody :=
    Nat.le_of_add_le_add_right h.fits
  have hasked : outputAsked (outputRequest 0 1024) = .ok ((0, 1024), []) := rfl
  have hsize : outputSize (pageAsked (verbose 17) (0, 1024)).2 ≤ maxBody :=
    (length_reply_le_iff _ _ _).mp hfits rfl (0, 1024) [] hasked
  rw [outputSize_verbose (by omega)] at hsize
  exact absurd hsize (by decide)

end PinBridge.Query
