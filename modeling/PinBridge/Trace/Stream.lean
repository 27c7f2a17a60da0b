import PinBridge.Trace.Skipping

/-!
# The streaming reader

`iter_records` of `pbtrace.py` yields the records of a file while it reads blocks of
1 MiB.  The bytes of a block that do not fill a record are carried over to the next
one.  `load` asks for one record at a time.  Blocks and carry make no difference to
the records that are cut (`iterChunks_eq`), and record by record the two loops keep
the same previous record and hand out the same records (`IterState.Agrees`).

The readers differ in what they do with the metadata.  `load` copies it when the file
has scope-add markers, and `iter_records` drops it.
-/

namespace PinBridge

/-! ## The loop -/

/-- The local `previous` of `iter_records`, with the records yielded so far. -/
structure IterState where
  previous : Option Record
  yielded : List Record

def IterState.init : IterState := ⟨none, []⟩

/-- The body of the inner loop for one unpacked record. -/
def iterStep (skipUnknown expandRepeats : Bool) (st : IterState) (rec : Record) : IterState :=
  if skipUnknown && !kindKnown rec.kind then st
  else
    match st.previous, (if expandRepeats && rec.kind == kindRepeat then
        repeatCount st.previous rec else none) with
    | some p, some count => { st with yielded := st.yielded ++ expandRepeat p count }
    | _, _ =>
        { yielded := st.yielded ++ [rec]
          previous := if rec.kind != kindRepeat then some rec else st.previous }

/-- `1 << 20`. -/
def readLen : Nat := 2 ^ 20

/-- The outer loop: a block, the records in it and in what was carried over, and the
new carry. -/
def iterChunks (skipUnknown expandRepeats : Bool) (st : IterState) (carry body : List UInt8) :
    IterState :=
  let chunk := body.take readLen
  if chunk.isEmpty && carry.isEmpty then st
  else
    let buf := carry ++ chunk
    let st := ((LittleEndian.chunks recordLen buf).map Record.unpack).foldl
      (iterStep skipUnknown expandRepeats) st
    if _h : chunk.isEmpty then st
    else iterChunks skipUnknown expandRepeats st (LittleEndian.chunkTail recordLen buf)
      (body.drop readLen)
termination_by body.length
decreasing_by
  rw [List.length_drop]
  have hbody : body ≠ [] := by
    rintro rfl
    exact _h rfl
  have := List.length_pos_iff.mpr hbody
  have : 0 < readLen := by decide
  omega

/-- `iter_records`, run to its end. -/
def iterRecords (loads : List UInt8 → MetaBlob) (skipUnknown expandRepeats : Bool)
    (file : List UInt8) : Except ReadError (List Record) :=
  match readHeaderMeta loads file with
  | .error e => .error e
  | .ok (_, body) => .ok (iterChunks skipUnknown expandRepeats IterState.init [] body).yielded

/-! ## Blocks and carry -/

/-- The blocks are read as if they were one. -/
theorem iterChunks_eq (skipUnknown expandRepeats : Bool) (st : IterState)
    (carry body : List UInt8) :
    iterChunks skipUnknown expandRepeats st carry body =
      ((LittleEndian.chunks recordLen (carry ++ body)).map Record.unpack).foldl
        (iterStep skipUnknown expandRepeats) st := by
  have hempty : ∀ body : List UInt8, (body.take readLen).isEmpty = true → body = [] := by
    intro body h
    have hlen : 0 < readLen := by decide
    cases body with
    | nil => rfl
    | cons b body =>
        rw [List.isEmpty_iff, List.take_eq_nil_iff] at h
        obtain h | h := h
        · omega
        · cases h
  induction st, carry, body using iterChunks.induct skipUnknown expandRepeats with
  | case1 st carry body chunk h =>
      rw [Bool.and_eq_true] at h
      obtain rfl := hempty body h.1
      obtain rfl := List.isEmpty_iff.mp h.2
      rw [iterChunks]
      rfl
  | case2 st carry body chunk h hchunk =>
      obtain rfl := hempty body hchunk
      rw [iterChunks, if_neg h, dif_pos hchunk]
      rfl
  | case3 st carry body chunk h buf st' hchunk ih =>
      have hcut := LittleEndian.chunks_append_tail (by decide : 0 < recordLen)
        (carry ++ body.take readLen) (body.drop readLen)
      rw [List.append_assoc, List.take_append_drop] at hcut
      rw [iterChunks, if_neg h, dif_neg hchunk, hcut.1, List.map_append, List.foldl_append]
      exact ih

/-! ## Record by record -/

/-- The two loops remember the same record and have handed out the same records. -/
structure IterState.Agrees (it : IterState) (st : LoadState) : Prop where
  previous : it.previous = st.previous
  yielded : it.yielded = st.records

/-- The options of `load` that the streaming reader has. -/
def streamOptions (skipUnknown expandRepeats : Bool) : LoadOptions :=
  ⟨none, skipUnknown, expandRepeats, true⟩

theorem kindKnown_repeat : kindKnown kindRepeat = true := by decide

theorem skip_known_repeat (skipUnknown : Bool) {rec : Record} (hkind : rec.kind = kindRepeat) :
    (skipUnknown && !kindKnown rec.kind) = false := by
  rw [hkind, kindKnown_repeat]
  exact Bool.and_false _

/-- The streaming reader passes over an unknown record. -/
theorem iterStep_skip {skipUnknown expandRepeats : Bool} {it : IterState} {rec : Record}
    (h : (skipUnknown && !kindKnown rec.kind) = true) :
    iterStep skipUnknown expandRepeats it rec = it := if_pos h

/-- Without a valid marker a record is yielded, and remembered if it is no marker. -/
theorem iterStep_yield {skipUnknown expandRepeats : Bool} {it : IterState} {rec : Record}
    (h : (skipUnknown && !kindKnown rec.kind) = false)
    (hcount : (if expandRepeats && rec.kind == kindRepeat then
      repeatCount it.previous rec else none) = none) :
    iterStep skipUnknown expandRepeats it rec =
      ⟨if rec.kind != kindRepeat then some rec else it.previous, it.yielded ++ [rec]⟩ := by
  rw [iterStep, h, hcount]
  cases it.previous <;> rfl

/-- A valid marker yields the records it stands for. -/
theorem iterStep_expand {skipUnknown : Bool} {it : IterState} {rec p : Record} {count : Nat}
    (hkind : rec.kind = kindRepeat) (hprev : it.previous = some p)
    (hcount : repeatCount (some p) rec = some count) :
    iterStep skipUnknown true it rec = ⟨some p, it.yielded ++ expandRepeat p count⟩ := by
  obtain ⟨previous, yielded⟩ := it
  obtain rfl : previous = some p := hprev
  have hsame : (true && rec.kind == kindRepeat) = true := by rw [hkind]; rfl
  simp only [iterStep, skip_known_repeat skipUnknown hkind, hsame, if_true, hcount]
  rfl

section

variable (skipUnknown expandRepeats : Bool) (st : LoadState) {rec : Record}

theorem plainRecord_records (rec : Record) :
    (st.plainRecord (streamOptions skipUnknown expandRepeats) rec).records =
      if skipUnknown && !kindKnown rec.kind then st.records else st.records ++ [rec] := by
  rw [LoadState.plainRecord, Bool.and_comm skipUnknown]
  show LoadState.records (if (!kindKnown rec.kind && skipUnknown) = true then _ else _) = _
  split
  · rfl
  · rfl

theorem validRepeat_records {p : Record} (count : Nat) (hkind : rec.kind = kindRepeat)
    (hp : (skipUnknown && !kindKnown p.kind) = false) :
    (st.validRepeat (streamOptions skipUnknown expandRepeats) rec p count).records =
      if expandRepeats then st.records ++ expandRepeat p count else st.records ++ [rec] := by
  cases expandRepeats with
  | true => simp [LoadState.validRepeat, streamOptions, hp, LoadOptions.wants]
  | false =>
      simp [LoadState.validRepeat, streamOptions, hkind, kindKnown_repeat, LoadOptions.wants]

theorem invalidRepeat_records (hkind : rec.kind = kindRepeat) :
    (st.invalidRepeat (streamOptions skipUnknown expandRepeats) rec).records =
      st.records ++ [rec] := by
  simp [LoadState.invalidRepeat, streamOptions, hkind, kindKnown_repeat, LoadOptions.wants]

end

theorem IterState.Agrees.step {skipUnknown expandRepeats : Bool} {it : IterState} {st : LoadState}
    (h : it.Agrees st) (hknown : skipUnknown = true → RemembersKnown st) (rec : Record) :
    (iterStep skipUnknown expandRepeats it rec).Agrees
      (loadStep (streamOptions skipUnknown expandRepeats) st rec) := by
  obtain ⟨previous, yielded⟩ := it
  obtain ⟨rfl, rfl⟩ := h
  obtain ⟨hkind, hstep⟩ | ⟨p, count, hkind, hprev, hcount, hstep⟩ | ⟨hkind, hcount, hstep⟩ :=
    loadStep_cases (streamOptions skipUnknown expandRepeats) st rec
  · have hprevious : (loadStep (streamOptions skipUnknown expandRepeats) st rec).previous =
        if skipUnknown && !kindKnown rec.kind then st.previous else some rec := by
      rw [loadStep_previous _ st hkind, Bool.and_comm]
      rfl
    have hrecords := plainRecord_records skipUnknown expandRepeats (st.notePhysical rec) rec
    rw [← hstep] at hrecords
    cases hsk : skipUnknown && !kindKnown rec.kind with
    | true =>
        rw [hsk] at hprevious hrecords
        rw [iterStep_skip hsk]
        exact ⟨hprevious.symm, hrecords.symm⟩
    | false =>
        rw [hsk] at hprevious hrecords
        rw [iterStep_yield hsk (by rw [kindKnown_ne_repeat hkind, Bool.and_false]; rfl),
          bne_iff_ne.mpr hkind]
        exact ⟨hprevious.symm, hrecords.symm⟩
  · have hp : (skipUnknown && !kindKnown p.kind) = false := by
      cases skipUnknown with
      | false => rfl
      | true => rw [hknown rfl p hprev]; rfl
    have hprevious := loadStep_marker_previous (streamOptions skipUnknown expandRepeats) st hkind
    have hrecords := validRepeat_records skipUnknown expandRepeats (st.noteMarker rec)
      count hkind hp
    rw [← hstep] at hrecords
    cases expandRepeats with
    | true =>
        rw [iterStep_expand hkind hprev hcount]
        exact ⟨hprev.symm.trans hprevious.symm, hrecords.symm⟩
    | false =>
        rw [iterStep_yield (skip_known_repeat skipUnknown hkind) rfl, hkind]
        exact ⟨hprevious.symm, hrecords.symm⟩
  · have hprevious := loadStep_marker_previous (streamOptions skipUnknown expandRepeats) st hkind
    have hrecords := invalidRepeat_records skipUnknown expandRepeats (st.noteMarker rec) hkind
    rw [← hstep] at hrecords
    rw [iterStep_yield (skip_known_repeat skipUnknown hkind) (by rw [hcount, ite_self]), hkind]
    exact ⟨hprevious.symm, hrecords.symm⟩

theorem IterState.Agrees.records {skipUnknown expandRepeats : Bool} {it : IterState}
    {st : LoadState} (h : it.Agrees st) (hknown : skipUnknown = true → RemembersKnown st)
    (records : List Record) :
    (records.foldl (iterStep skipUnknown expandRepeats) it).Agrees
      (loadRecords (streamOptions skipUnknown expandRepeats) st records) := by
  induction records generalizing it st with
  | nil => exact h
  | cons rec records ih =>
      refine ih (h.step hknown rec) fun hskip => ?_
      exact (hknown hskip).step hskip rec

/-! ## The readers -/

/-- `rec.kind == KIND_MARKER and rec.arg0 == MARKER_SCOPE_ADD`. -/
def Record.isScopeAdd (rec : Record) : Bool :=
  rec.kind == kindMarker && rec.arg0 == markerScopeAdd

theorem loadStep_scopeAdditions (o : LoadOptions) (st : LoadState) (rec : Record) :
    (loadStep o st rec).scopeAdditions =
      if rec.isScopeAdd then st.scopeAdditions ++ [(rec.arg1, rec.arg2)]
      else st.scopeAdditions := by
  obtain ⟨-, h⟩ | ⟨p, count, -, -, -, h⟩ | ⟨-, -, h⟩ := loadStep_cases o st rec
  · rw [h, LoadState.plainRecord]
    show LoadState.scopeAdditions (if (!kindKnown rec.kind && o.skipUnknown) = true then _ else _) = _
    split
    · rfl
    · rfl
  · rw [h]
    rfl
  · rw [h]
    rfl

/-- The scope list is empty if and only if no record adds to it. -/
theorem loadRecords_scopeAdditions (o : LoadOptions) (st : LoadState) (records : List Record) :
    (loadRecords o st records).scopeAdditions = [] ↔
      st.scopeAdditions = [] ∧ ∀ rec ∈ records, rec.isScopeAdd = false := by
  induction records generalizing st with
  | nil => simp [loadRecords]
  | cons rec records ih =>
      have hcons : loadRecords o st (rec :: records) =
        loadRecords o (loadStep o st rec) records := rfl
      rw [hcons, ih, loadStep_scopeAdditions, List.forall_mem_cons]
      cases rec.isScopeAdd with
      | true => simp
      | false => simp

/-- The streaming reader raises the error that `load` raises, or yields its records. -/
def ReadersAgree (loads : List UInt8 → MetaBlob) (skipUnknown expandRepeats : Bool)
    (file : List UInt8) : Prop :=
  (∃ e, iterRecords loads skipUnknown expandRepeats file = .error e ∧
      loadFile loads (streamOptions skipUnknown expandRepeats) file = .error e) ∨
    ∃ trace, loadFile loads (streamOptions skipUnknown expandRepeats) file = .ok trace ∧
      iterRecords loads skipUnknown expandRepeats file = .ok trace.records

/-- The records of a body. -/
def bodyRecords (body : List UInt8) : List Record :=
  (LittleEndian.chunks recordLen body).map Record.unpack

/-- The streaming reader yields the records `load` collects. -/
theorem iterChunks_records (skipUnknown expandRepeats : Bool) (body : List UInt8) :
    (iterChunks skipUnknown expandRepeats IterState.init [] body).yielded =
      (loadRecords (streamOptions skipUnknown expandRepeats) LoadState.init
        (bodyRecords body)).records := by
  have hinit : IterState.init.Agrees LoadState.init := ⟨rfl, rfl⟩
  have hknown : skipUnknown = true → RemembersKnown LoadState.init := fun _ _ h => by cases h
  rw [iterChunks_eq, List.nil_append]
  exact (hinit.records hknown _).yielded

/-- `load` on a file with a header: it collects the records of the body, and raises in
the end if the metadata is to be copied and is no mapping. -/
theorem loadFile_of_header {loads : List UInt8 → MetaBlob} {o : LoadOptions} {file : List UInt8}
    {meta' : Json} {body : List UInt8} (h : readHeaderMeta loads file = .ok (meta', body)) :
    ∃ trace : Trace, trace.records = (loadRecords o LoadState.init (bodyRecords body)).records ∧
      loadFile loads o file =
        if dictAccepts meta' = true ∨ ∀ rec ∈ bodyRecords body, rec.isScopeAdd = false then
          .ok trace
        else .error .metaNotDict := by
  have hfile := h
  unfold readHeaderMeta at h
  split at h
  · cases h
  next metaRaw body' hraw =>
  split at h
  · cases h
  next meta₂ hmeta =>
  cases h
  let st := loadRecords o LoadState.init (bodyRecords body)
  let trace : Trace := ⟨metaRaw, st.scopeAdditions, st.records,
    { st.stats with truncatedTail := (LittleEndian.chunkTail recordLen body).length }⟩
  have hload : loadLoop o file = .ok trace := by
    rw [loadLoop, hraw]
    rfl
  have hscope : trace.scopeAdditions = [] ↔ ∀ rec ∈ bodyRecords body, rec.isScopeAdd = false := by
    show st.scopeAdditions = [] ↔ _
    rw [loadRecords_scopeAdditions]
    exact and_iff_right rfl
  refine ⟨trace, rfl, ?_⟩
  rw [loadFile, hfile]
  simp only [hload]
  split
  · next hcopy =>
      rw [Bool.and_eq_true, Bool.not_eq_true', Bool.not_eq_true', List.isEmpty_eq_false_iff] at hcopy
      rw [if_neg]
      rintro (haccepts | hnone)
      · rw [haccepts] at hcopy
        cases hcopy.2
      · exact hcopy.1 (hscope.mpr hnone)
  · next hcopy =>
      rw [if_pos]
      rw [Bool.and_eq_true, Bool.not_eq_true', Bool.not_eq_true', List.isEmpty_eq_false_iff,
        not_and_or, not_ne_iff, Bool.not_eq_false] at hcopy
      exact hcopy.symm.imp_right hscope.mp

/-- The readers agree on a file unless its metadata is a value that `dict` refuses and one
of its records is a scope-add marker. -/
theorem readersAgree_iff (loads : List UInt8 → MetaBlob) (skipUnknown expandRepeats : Bool)
    (file : List UInt8) :
    ReadersAgree loads skipUnknown expandRepeats file ↔
      ∀ meta' body, readHeaderMeta loads file = .ok (meta', body) →
        dictAccepts meta' = true ∨ ∀ rec ∈ bodyRecords body, rec.isScopeAdd = false := by
  cases hhead : readHeaderMeta loads file with
  | error e =>
      have hiter : iterRecords loads skipUnknown expandRepeats file = .error e := by
        rw [iterRecords, hhead]
      have hload : loadFile loads (streamOptions skipUnknown expandRepeats) file = .error e := by
        rw [loadFile, hhead]
      exact ⟨fun _ _ _ h => (by cases h), fun _ => .inl ⟨e, hiter, hload⟩⟩
  | ok head =>
      obtain ⟨meta', body⟩ := head
      obtain ⟨trace, hrecords, hload⟩ :=
        loadFile_of_header (o := streamOptions skipUnknown expandRepeats) hhead
      have hiter : iterRecords loads skipUnknown expandRepeats file = .ok trace.records := by
        rw [iterRecords, hhead, hrecords]
        exact congrArg Except.ok (iterChunks_records skipUnknown expandRepeats body)
      constructor
      · rintro hagree meta₁ body₁ heq
        cases heq
        obtain ⟨e, herror, -⟩ | ⟨trace', hok, -⟩ := hagree
        · rw [hiter] at herror
          cases herror
        · by_contra hbad
          rw [hload, if_neg hbad] at hok
          cases hok
      · intro h
        rw [if_pos (h meta' body rfl)] at hload
        exact .inr ⟨trace, hload, hiter⟩

/-- `json.loads` on the blob `5`. -/
def loadsFive (blob : List UInt8) : MetaBlob :=
  if blob = [0x35] then .value (.number "5") else .invalid

/-- A file with the metadata `5` and a scope-add marker. -/
def scopedFive : List UInt8 :=
  traceFile [0x35] [⟨1, 11, 0, 0, 3, 0x1000, 0x2000, 0, 0, 0, 0, 0⟩]

/-- On that file `load` raises, and the streaming reader yields the marker. -/
theorem readers_differ_on_scope :
    loadFile loadsFive (streamOptions true true) scopedFive = .error .metaNotDict ∧
      (∃ records, iterRecords loadsFive true true scopedFive = .ok records) ∧
      ¬ReadersAgree loadsFive true true scopedFive := by
  have hload : loadFile loadsFive (streamOptions true true) scopedFive = .error .metaNotDict := rfl
  have hhead : readHeaderMeta loadsFive scopedFive =
      .ok (.number "5", scopedFive.drop 17) := rfl
  have hiter : ∃ records, iterRecords loadsFive true true scopedFive = .ok records := by
    rw [iterRecords, hhead]
    exact ⟨_, rfl⟩
  refine ⟨hload, hiter, ?_⟩
  obtain ⟨records, hiter⟩ := hiter
  rintro (⟨e, herror, -⟩ | ⟨trace, hok, -⟩)
  · rw [hiter] at herror
    cases herror
  · rw [hload] at hok
    cases hok

end PinBridge
