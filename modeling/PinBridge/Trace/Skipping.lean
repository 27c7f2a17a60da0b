import PinBridge.Trace.Load

/-!
# Skipping unknown kinds

`load(skip_unknown=True)` should be `load(skip_unknown=False)` with the records of
unknown kinds taken out, and its statistics should not depend on the switch.  The
two readers are followed side by side over the runs of a file (`Parallel`).

They agree as long as no run of an unknown kind repeats (`parallel_runs`).  The
skipping reader leaves its loop before it remembers the record, so the marker of
such a run meets an older record, is taken for invalid, and stays among the records
(`skips_invalid`).  The other reader finds every marker valid (`keeps_valid`).
-/

namespace PinBridge

open RunLength (Run runs)

/-- `load(skip_unknown=True)` and `load(skip_unknown=False)`. -/
def skipping (skipUnknown : Bool) : LoadOptions :=
  { LoadOptions.default with skipUnknown := skipUnknown }

/-! ## Side by side -/

/-- The two readers differ only in the unknown records kept and in the record they
remember. -/
structure Parallel (skip keep : LoadState) : Prop where
  stats : skip.stats = keep.stats
  prevSeq : skip.prevSeq = keep.prevSeq
  records : skip.records = keep.records.filter fun r => kindKnown r.kind

/-- The number of unknown records of a list. -/
def unknownCount (es : List Record) : Nat := es.countP fun r => !kindKnown r.kind

/-- The gap check touches neither the unknown kinds nor the invalid markers. -/
theorem TraceStats.noteGap_counts (s : TraceStats) (prevSeq : Option Nat) (sequence : Nat) :
    (s.noteGap prevSeq sequence).unknownKinds = s.unknownKinds ∧
      (s.noteGap prevSeq sequence).invalidRepeats = s.invalidRepeats := by
  unfold TraceStats.noteGap
  split
  · split
    · exact ⟨rfl, rfl⟩
    · exact ⟨rfl, rfl⟩
  · exact ⟨rfl, rfl⟩

theorem LoadState.plainRecord_invalidRepeats (o : LoadOptions) (st : LoadState) (rec : Record) :
    (st.plainRecord o rec).stats.invalidRepeats = st.stats.invalidRepeats := by
  have hgap : (st.stats.noteGap st.prevSeq rec.sequence).invalidRepeats =
    st.stats.invalidRepeats := (TraceStats.noteGap_counts _ _ _).2
  unfold LoadState.plainRecord
  dsimp only
  split
  · split
    · exact hgap
    · exact hgap
  · split
    · exact hgap
    · exact hgap

theorem LoadState.invalidRepeat_invalidRepeats (o : LoadOptions) (st : LoadState) (rec : Record) :
    (st.invalidRepeat o rec).stats.invalidRepeats = st.stats.invalidRepeats + 1 :=
  (TraceStats.noteGap_counts _ _ _).2

theorem Parallel.plain {skip keep : LoadState} (h : Parallel skip keep) {rec : Record}
    (hkind : rec.kind ≠ kindRepeat) :
    Parallel (loadStep (skipping true) skip rec) (loadStep (skipping false) keep rec) ∧
      (loadStep (skipping false) keep rec).stats.unknownKinds =
        keep.stats.unknownKinds + unknownCount [rec] := by
  have hgap : ((keep.notePhysical rec).stats.noteGap (keep.notePhysical rec).prevSeq
      rec.sequence).unknownKinds = keep.stats.unknownKinds :=
    (TraceStats.noteGap_counts _ _ _).1
  rw [loadStep_plainRecord _ _ hkind, loadStep_plainRecord _ _ hkind]
  cases hknown : kindKnown rec.kind with
  | true =>
      refine ⟨⟨?_, ?_, ?_⟩, ?_⟩
      · simp [LoadState.plainRecord, LoadState.notePhysical, hknown, h.stats, h.prevSeq]
      · simp [LoadState.plainRecord, hknown]
      · simp [LoadState.plainRecord, LoadState.notePhysical, hknown, h.records, skipping,
          LoadOptions.default, LoadOptions.wants]
      · simp only [LoadState.plainRecord, hknown, unknownCount, TraceStats.noteLogical]
        simpa [hknown] using hgap
  | false =>
      refine ⟨⟨?_, ?_, ?_⟩, ?_⟩
      · simp [LoadState.plainRecord, LoadState.notePhysical, hknown, h.stats, h.prevSeq, skipping]
      · simp [LoadState.plainRecord, hknown, skipping]
      · simp [LoadState.plainRecord, LoadState.notePhysical, hknown, h.records, skipping,
          LoadOptions.default, LoadOptions.wants]
      · simp only [LoadState.plainRecord, hknown, unknownCount, TraceStats.noteLogical]
        simpa [hknown, skipping] using hgap

/-- A known record is remembered, and without the switch every record. -/
theorem loadStep_previous (o : LoadOptions) (st : LoadState) {rec : Record}
    (hkind : rec.kind ≠ kindRepeat) :
    (loadStep o st rec).previous =
      if !kindKnown rec.kind && o.skipUnknown then st.previous else some rec := by
  rw [loadStep_plainRecord _ _ hkind, LoadState.plainRecord]
  show LoadState.previous (if (!kindKnown rec.kind && o.skipUnknown) = true then _ else _) = _
  split
  · rfl
  · rfl

/-- Both readers expand the marker of a known run. -/
theorem Parallel.marker {skip keep : LoadState} (h : Parallel skip keep) {b : Record} {k : Nat}
    (hk : k > 0) (hknown : kindKnown b.kind = true) (hskip : skip.previous = some b)
    (hkeep : keep.previous = some b) :
    Parallel (loadStep (skipping true) skip (TraceWriter.repeatRecord b k))
        (loadStep (skipping false) keep (TraceWriter.repeatRecord b k)) ∧
      (loadStep (skipping false) keep (TraceWriter.repeatRecord b k)).stats.unknownKinds =
        keep.stats.unknownKinds := by
  have hall : (expandRepeat b k).filter (fun r => kindKnown r.kind) = expandRepeat b k := by
    refine List.filter_eq_self.mpr fun r hr => ?_
    obtain ⟨offset, -, rfl⟩ := List.mem_map.mp hr
    exact hknown
  rw [loadStep_marker _ hk hskip, loadStep_marker _ hk hkeep]
  refine ⟨⟨?_, rfl, ?_⟩, rfl⟩
  · simp [LoadState.validRepeat, LoadState.noteMarker, LoadState.notePhysical, h.stats]
  · simp [LoadState.validRepeat, LoadState.noteMarker, LoadState.notePhysical, h.records, skipping,
      LoadOptions.default, LoadOptions.wants, hknown, hall]

/-- The known records of a run. -/
theorem unknownCount_expand {b : Record} {k : Nat} (hknown : kindKnown b.kind = true) :
    unknownCount ((Run.mk b k).expand Record.nth) = 0 := by
  refine List.countP_eq_zero.mpr fun r hr => ?_
  obtain ⟨offset, -, rfl⟩ := List.mem_map.mp hr
  show ¬(!kindKnown b.kind) = true
  simp [hknown]

/-- The readers stay side by side over a run that is known or does not repeat. -/
theorem Parallel.run {skip keep : LoadState} (h : Parallel skip keep) {r : Run Record}
    (hkind : r.base.kind ≠ kindRepeat) (hrun : kindKnown r.base.kind = true ∨ r.repeats = 0) :
    Parallel (loadRecords (skipping true) skip (TraceWriter.flushRecords r.base r.repeats))
        (loadRecords (skipping false) keep (TraceWriter.flushRecords r.base r.repeats)) ∧
      (loadRecords (skipping false) keep
          (TraceWriter.flushRecords r.base r.repeats)).stats.unknownKinds =
        keep.stats.unknownKinds + unknownCount (r.expand Record.nth) := by
  obtain ⟨b, k⟩ := r
  obtain ⟨hbase, hcount⟩ := h.plain hkind
  unfold TraceWriter.flushRecords
  split
  · next hk =>
      have hknown : kindKnown b.kind = true := hrun.resolve_right (Nat.pos_iff_ne_zero.mp hk)
      have hprev : ∀ skipUnknown st,
          (loadStep (skipping skipUnknown) st b).previous = some b := by
        intro skipUnknown st
        rw [loadStep_previous _ st hkind, hknown]
        rfl
      obtain ⟨hmarker, hcount'⟩ := hbase.marker hk hknown (hprev true skip) (hprev false keep)
      refine ⟨hmarker, ?_⟩
      rw [unknownCount_expand hknown]
      show (loadStep _ _ (TraceWriter.repeatRecord b k)).stats.unknownKinds = _
      rw [hcount', hcount]
      simp [unknownCount, hknown]
  · next hk =>
      obtain rfl : k = 0 := Nat.eq_zero_of_not_pos hk
      exact ⟨hbase, hcount⟩

theorem loadRecords_cons_run (o : LoadOptions) (st : LoadState) (r : Run Record)
    (rs : List (Run Record)) :
    loadRecords o st (flushRecordRuns (r :: rs)) =
      loadRecords o (loadRecords o st (TraceWriter.flushRecords r.base r.repeats))
        (flushRecordRuns rs) := by
  simp [loadRecords, flushRecordRuns]

/-- The readers stay side by side over runs that are known or do not repeat. -/
theorem parallel_runs {rs : List (Run Record)} (hkinds : ∀ r ∈ rs, r.base.kind ≠ kindRepeat)
    (hruns : ∀ r ∈ rs, kindKnown r.base.kind = true ∨ r.repeats = 0) {skip keep : LoadState}
    (h : Parallel skip keep) :
    Parallel (loadRecords (skipping true) skip (flushRecordRuns rs))
        (loadRecords (skipping false) keep (flushRecordRuns rs)) ∧
      (loadRecords (skipping false) keep (flushRecordRuns rs)).stats.unknownKinds =
        keep.stats.unknownKinds + unknownCount (RunLength.expand Record.nth rs) := by
  induction rs generalizing skip keep with
  | nil => exact ⟨h, rfl⟩
  | cons r rs ih =>
      obtain ⟨hrun, hcount⟩ :=
        h.run (hkinds r List.mem_cons_self) (hruns r List.mem_cons_self)
      obtain ⟨hrest, hcount'⟩ := ih (fun r hr => hkinds r (List.mem_cons_of_mem _ hr))
        (fun r hr => hruns r (List.mem_cons_of_mem _ hr)) hrun
      rw [loadRecords_cons_run, loadRecords_cons_run]
      refine ⟨hrest, ?_⟩
      rw [hcount', hcount, RunLength.expand_cons, unknownCount, unknownCount, unknownCount,
        List.countP_append, Nat.add_assoc]

/-! ## The marker of an unknown run -/

/-- The keeping reader finds every marker valid. -/
theorem keeps_valid {rs : List (Run Record)} (hkinds : ∀ r ∈ rs, r.base.kind ≠ kindRepeat)
    (st : LoadState) :
    (loadRecords (skipping false) st (flushRecordRuns rs)).stats.invalidRepeats =
      st.stats.invalidRepeats := by
  induction rs generalizing st with
  | nil => rfl
  | cons r rs ih =>
      have hkind := hkinds r List.mem_cons_self
      rw [loadRecords_cons_run, ih fun r hr => hkinds r (List.mem_cons_of_mem _ hr)]
      have hbase : (loadStep (skipping false) st r.base).stats.invalidRepeats =
          st.stats.invalidRepeats := by
        rw [loadStep_plainRecord _ _ hkind]
        exact LoadState.plainRecord_invalidRepeats _ _ _
      unfold TraceWriter.flushRecords
      split
      · next hk =>
          have hprev : (loadStep (skipping false) st r.base).previous = some r.base := by
            rw [loadStep_previous _ st hkind]
            show (if (!kindKnown r.base.kind && false) = true then _ else _) = _
            rw [Bool.and_false]
            rfl
          simp only [loadRecords, List.foldl_cons, List.foldl_nil]
          rw [loadStep_marker _ hk hprev]
          exact hbase
      · exact hbase

/-- A skipping reader remembers known records only. -/
def RemembersKnown (st : LoadState) : Prop := ∀ p ∈ st.previous, kindKnown p.kind = true

/-- A marker changes nothing about the record remembered. -/
theorem loadStep_marker_previous (o : LoadOptions) (st : LoadState) {rec : Record}
    (hkind : rec.kind = kindRepeat) : (loadStep o st rec).previous = st.previous := by
  obtain ⟨hne, -⟩ | ⟨p, count, -, -, -, h⟩ | ⟨-, -, h⟩ := loadStep_cases o st rec
  · exact absurd hkind hne
  · rw [h]
    rfl
  · rw [h]
    rfl

theorem RemembersKnown.step {o : LoadOptions} (ho : o.skipUnknown = true) {st : LoadState}
    (h : RemembersKnown st) (rec : Record) : RemembersKnown (loadStep o st rec) := by
  intro p hp
  by_cases hkind : rec.kind = kindRepeat
  · rw [loadStep_marker_previous _ _ hkind] at hp
    exact h p hp
  · rw [loadStep_previous o st hkind, ho, Bool.and_true] at hp
    split at hp
    · exact h p hp
    · next hknown =>
        cases hp
        simpa using hknown

theorem RemembersKnown.records {o : LoadOptions} (ho : o.skipUnknown = true) {st : LoadState}
    (h : RemembersKnown st) (records : List Record) :
    RemembersKnown (loadRecords o st records) := by
  induction records generalizing st with
  | nil => exact h
  | cons rec records ih => exact ih (h.step ho rec)

/-- No record takes an invalid marker back. -/
theorem loadStep_invalidRepeats_le (o : LoadOptions) (st : LoadState) (rec : Record) :
    st.stats.invalidRepeats ≤ (loadStep o st rec).stats.invalidRepeats := by
  obtain ⟨-, h⟩ | ⟨p, count, -, -, -, h⟩ | ⟨-, -, h⟩ := loadStep_cases o st rec
  · rw [h, LoadState.plainRecord_invalidRepeats]
    rfl
  · rw [h]
    exact le_rfl
  · rw [h, LoadState.invalidRepeat_invalidRepeats]
    exact Nat.le_succ _

theorem loadRecords_invalidRepeats_le (o : LoadOptions) (st : LoadState) (records : List Record) :
    st.stats.invalidRepeats ≤ (loadRecords o st records).stats.invalidRepeats := by
  induction records generalizing st with
  | nil => exact le_rfl
  | cons rec records ih => exact (loadStep_invalidRepeats_le o st rec).trans (ih _)

/-- The marker of an unknown run matches no known record. -/
theorem repeatCount_unknown {st : LoadState} (h : RemembersKnown st) {b : Record} {k : Nat}
    (hunknown : kindKnown b.kind = false) :
    repeatCount st.previous (TraceWriter.repeatRecord b k) = none := by
  cases hprev : st.previous with
  | none => rfl
  | some p =>
      have hne : b.kind ≠ p.kind := by
        intro heq
        rw [heq, h p hprev] at hunknown
        cases hunknown
      simp [repeatCount, TraceWriter.repeatRecord, Record.arg1, hne]

/-- The skipping reader finds the marker of an unknown run invalid. -/
theorem skips_invalid {rs : List (Run Record)} (hkinds : ∀ r ∈ rs, r.base.kind ≠ kindRepeat)
    (hruns : ∃ r ∈ rs, kindKnown r.base.kind = false ∧ r.repeats > 0) {st : LoadState}
    (h : RemembersKnown st) :
    st.stats.invalidRepeats <
      (loadRecords (skipping true) st (flushRecordRuns rs)).stats.invalidRepeats := by
  induction rs generalizing st with
  | nil =>
      obtain ⟨r, hr, -⟩ := hruns
      exact absurd hr List.not_mem_nil
  | cons r rs ih =>
      rw [loadRecords_cons_run]
      obtain ⟨r', hr', hunknown, hk⟩ := hruns
      obtain rfl | hr' := List.mem_cons.mp hr'
      · have hbase := loadStep_invalidRepeats_le (skipping true) st r'.base
        have hcount : repeatCount (loadStep (skipping true) st r'.base).previous
            (TraceWriter.repeatRecord r'.base r'.repeats) = none :=
          repeatCount_unknown (h.step rfl r'.base) hunknown
        have hmarker := loadStep_invalid (skipping true) rfl hcount
        have hrest := loadRecords_invalidRepeats_le (skipping true)
          (loadStep (skipping true) (loadStep (skipping true) st r'.base)
            (TraceWriter.repeatRecord r'.base r'.repeats)) (flushRecordRuns rs)
        rw [hmarker, LoadState.invalidRepeat_invalidRepeats] at hrest
        rw [TraceWriter.flushRecords, if_pos hk]
        simp only [loadRecords, List.foldl_cons, List.foldl_nil]
        rw [hmarker]
        exact hbase.trans_lt hrest
      · have hrun := loadRecords_invalidRepeats_le (skipping true) st
          (TraceWriter.flushRecords r.base r.repeats)
        exact hrun.trans_lt (ih (fun r hr => hkinds r (List.mem_cons_of_mem _ hr))
          ⟨r', hr', hunknown, hk⟩ (h.records rfl _))

/-! ## Files -/

/-- What skipping unknown kinds should mean for the traces of the two readers. -/
structure SkipLaw (events : List Event) (skip keep : Trace) : Prop where
  records : skip.records = keep.records.filter fun r => kindKnown r.kind
  logicalRecords : skip.stats.logicalRecords = keep.stats.logicalRecords
  invalidRepeats : skip.stats.invalidRepeats = keep.stats.invalidRepeats
  counts : skip.stats.counts = keep.stats.counts
  unknownKinds : skip.stats.unknownKinds = keep.stats.unknownKinds
  unknownWeighted : keep.stats.unknownKinds = events.countP fun e => !kindKnown e.kind.toNat
  gapRecords : skip.stats.gapRecords = keep.stats.gapRecords

/-- Consecutive sequence numbers increase. -/
theorem pairwise_of_consecutive {events : List Event} {s : Nat}
    (h : events.map (fun e => e.sequence.toNat) = List.range' s events.length) :
    events.Pairwise fun e f => e.sequence.toNat < f.sequence.toNat := by
  have hpw : (events.map fun e => e.sequence.toNat).Pairwise (· < ·) := by
    rw [h]
    exact List.pairwise_lt_range'
  exact List.pairwise_map.mp hpw

/-- Skipping is lawful on the file of a recording if and only if no run of an unknown kind
has more than one event. -/
theorem load_skipLaw_iff {loads : List UInt8 → MetaBlob} {metaRaw : List UInt8}
    (hmeta : metaRaw.length < 2 ^ 32) {value : Json} (hvalue : readMeta loads metaRaw = .ok value)
    (haccepts : dictAccepts value = true) {events : List Event} {s : Nat}
    (hseq : events.map (fun e => e.sequence.toNat) = List.range' s events.length)
    (hkinds : ∀ e ∈ events, e.kind ≠ eventRepeat) :
    ∃ skip keep,
      loadFile loads (skipping true) (traceFile metaRaw (drainRecords events)) = .ok skip ∧
      loadFile loads (skipping false) (traceFile metaRaw (drainRecords events)) = .ok keep ∧
      (SkipLaw events skip keep ↔
        ∀ r ∈ runs Event.continues events, kindKnown r.base.kind.toNat = true ∨ r.repeats = 0) := by
  have heq : (drainRecords events).map Event.toRecord =
      flushRecordRuns (runs Record.continues (events.map Event.toRecord)) := by
    rw [drainRecords_toRecord (pairwise_of_consecutive hseq), writerRecords_eq]
  have hruns := RunLength.runs_map Event.continues_toRecord events
  have hexpand := RunLength.expand_runs Record.nth_zero Record.eq_nth_of_continues
    (events.map Event.toRecord)
  have hbases : ∀ r ∈ runs Record.continues (events.map Event.toRecord),
      r.base.kind ≠ kindRepeat := by
    intro r hr
    have hmem := Record.nth_mem_of_mem_runs hr (Nat.zero_le r.repeats)
    obtain ⟨e, he, hbase⟩ := List.mem_map.mp hmem
    rw [Record.nth_zero] at hbase
    rw [← hbase]
    exact fun h => hkinds e he (UInt32.toNat_inj.mp h)
  refine ⟨_, _, loadFile_traceFile (skipping true) hmeta hvalue haccepts _,
    loadFile_traceFile (skipping false) hmeta hvalue haccepts _, ?_⟩
  rw [heq]
  constructor
  · intro h r hr
    by_contra hbad
    obtain ⟨hunknown, hk⟩ := not_or.mp hbad
    have hbad' : ∃ r ∈ runs Record.continues (events.map Event.toRecord),
        kindKnown r.base.kind = false ∧ r.repeats > 0 := by
      rw [hruns]
      exact ⟨r.map Event.toRecord, List.mem_map_of_mem hr, (Bool.not_eq_true _).mp hunknown,
        Nat.pos_of_ne_zero hk⟩
    have hnone : RemembersKnown LoadState.init := fun _ hp => by cases hp
    have hskip := skips_invalid hbases hbad' hnone
    have hkeep := keeps_valid hbases LoadState.init
    have hlaw := h.invalidRepeats
    simp only at hlaw
    rw [hlaw, hkeep] at hskip
    exact lt_irrefl _ hskip
  · intro h
    have hclean : ∀ r ∈ runs Record.continues (events.map Event.toRecord),
        kindKnown r.base.kind = true ∨ r.repeats = 0 := by
      rw [hruns]
      intro r hr
      obtain ⟨r', hr', rfl⟩ := List.mem_map.mp hr
      exact h r' hr'
    have hinit : Parallel LoadState.init LoadState.init := ⟨rfl, rfl, rfl⟩
    obtain ⟨hpar, hcount⟩ := parallel_runs hbases hclean hinit
    rw [hexpand] at hcount
    refine ⟨hpar.records, ?_, ?_, ?_, ?_, ?_, ?_⟩
    · simp only [hpar.stats]
    · simp only [hpar.stats]
    · simp only [hpar.stats]
    · simp only [hpar.stats]
    · simp only [hcount, unknownCount, List.countP_map]
      show 0 + _ = _
      rw [Nat.zero_add]
      rfl
    · simp only [hpar.stats]

/-- An exec, an unknown event and another exec. -/
def execsAroundUnknown : List Event :=
  [⟨1, 3, 7, 0x1000, 4, 0, 0, 0, 0, 0, 0, 0⟩, ⟨2, 99, 7, 0x1000, 4, 0, 0, 0, 0, 0, 0, 0⟩,
    ⟨3, 3, 7, 0x1000, 4, 0, 0, 0, 0, 0, 0, 0⟩]

theorem load_skipLaw_execs :
    ∃ skip keep,
      loadFile loadsEmpty (skipping true) (traceFile [0x7b, 0x7d]
        (drainRecords execsAroundUnknown)) = .ok skip ∧
      loadFile loadsEmpty (skipping false) (traceFile [0x7b, 0x7d]
        (drainRecords execsAroundUnknown)) = .ok keep ∧
      SkipLaw execsAroundUnknown skip keep := by
  obtain ⟨skip, keep, hskip, hkeep, hlaw⟩ := @load_skipLaw_iff loadsEmpty [0x7b, 0x7d] (by decide)
    (.object []) rfl rfl execsAroundUnknown 1 (by decide) (by decide)
  exact ⟨skip, keep, hskip, hkeep, hlaw.mpr (by decide)⟩

/-- Two unknown events that form a run. -/
def unknownPair : List Event :=
  [⟨1, 99, 7, 0x1000, 4, 0, 0, 0, 0, 0, 0, 0⟩, ⟨2, 99, 7, 0x1000, 4, 0, 0, 0, 0, 0, 0, 0⟩]

/-- Skipping keeps the marker of the run and calls it invalid. -/
theorem load_skips_run_invalid :
    ∃ skip keep,
      loadFile loadsEmpty (skipping true) (traceFile [0x7b, 0x7d] (drainRecords unknownPair)) =
        .ok skip ∧
      loadFile loadsEmpty (skipping false) (traceFile [0x7b, 0x7d] (drainRecords unknownPair)) =
        .ok keep ∧
      skip.records.map Record.kind = [kindRepeat] ∧
      (keep.records.filter fun r => kindKnown r.kind) = [] ∧
      skip.stats.invalidRepeats = 1 ∧ keep.stats.invalidRepeats = 0 ∧
      ¬SkipLaw unknownPair skip keep := by
  refine ⟨_, _, loadFile_traceFile (skipping true) (by decide) rfl rfl _,
    loadFile_traceFile (skipping false) (by decide) rfl rfl _, by decide +kernel, by decide +kernel,
    by decide +kernel, by decide +kernel, ?_⟩
  intro h
  exact absurd h.invalidRepeats (by decide +kernel)

end PinBridge
