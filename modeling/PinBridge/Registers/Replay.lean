import PinBridge.Registers.Joining

/-!
# Register tables of the frames

The last pass of `frames` applies the contexts in the order of the output.  For the frames of a
thread this replays the log of its attempts: an attempt is complete if and only if its frame ends
up complete, and the table of the thread is the content of the last complete attempt.

`frames_restore` is the result.  It is about frames that a header opened, and about sessions in
which the counter of frames does not come around to zero.  Without these two conditions it fails
(`frames_lose`).
-/

namespace PinBridge.Registers

open Transition

/-! ## The last pass -/

/-- The table of a thread after the contexts of some frames. -/
def tableOf (stamps : List (Nat × Context)) (t : Nat) (old : Nat → Option (List UInt8)) :
    Nat → Option (List UInt8) :=
  stamps.foldl (fun table p =>
    if p.1 = t ∧ p.2.frameId ≠ 0 then p.2.applyTable table else table) old

theorem tableOf_append (l l' : List (Nat × Context)) (t : Nat)
    (old : Nat → Option (List UInt8)) : tableOf (l ++ l') t old = tableOf l' t (tableOf l t old) :=
  List.foldl_append

/-- The reader after the first frames of the last pass. -/
def Reader.pass (r : Reader) (k : Nat) : Reader := (List.range k).foldl Reader.applyContext r

theorem Reader.pass_succ (r : Reader) (k : Nat) :
    r.pass (k + 1) = (r.pass k).applyContext k := by
  rw [Reader.pass, List.range_succ, List.foldl_append]
  rfl

/-- A frame after the last pass has come to it. -/
def TraceFrame.final (f : TraceFrame) (table : Nat → Option (List UInt8)) : TraceFrame :=
  if f.context.frameId = 0 then f else f.apply table

theorem TraceFrame.stamp_final (f : TraceFrame) (table : Nat → Option (List UInt8)) :
    (f.final table).stamp = f.stamp := by
  rw [TraceFrame.final]
  split
  · rfl
  · exact f.stamp_apply table

theorem Reader.pass_spec (r : Reader) {k : Nat} (hk : k ≤ r.output.length) :
    (∀ t, (r.pass k).registerState t = tableOf (r.stamps.take k) t (r.registerState t)) ∧
      ∀ j, (r.pass k).output[j]? = (r.output[j]?).map fun f =>
        if j < k then f.final (tableOf (r.stamps.take j) f.threadId (r.registerState f.threadId))
        else f := by
  induction k with
  | zero =>
      refine ⟨fun t => rfl, fun j => ?_⟩
      simp only [Nat.not_lt_zero, if_false]
      exact Option.map_id'.symm
  | succ k ih =>
      obtain ⟨hstate, houtput⟩ := ih (Nat.le_of_succ_le hk)
      obtain ⟨f, hf⟩ : ∃ f, r.output[k]? = some f := ⟨_, List.getElem?_eq_getElem hk⟩
      have hpass : (r.pass k).output[k]? = some f := by
        rw [houtput, hf, Option.map_some, if_neg (Nat.lt_irrefl k)]
      have hstamps : r.stamps.take (k + 1) = r.stamps.take k ++ [f.stamp] := by
        rw [Reader.stamps, List.take_add_one, List.getElem?_map, hf]
        rfl
      rw [Reader.pass_succ]
      refine ⟨fun t => ?_, fun j => ?_⟩
      · rw [hstamps, tableOf_append, ← hstate, Reader.applyContext, hpass]
        dsimp only
        rw [tableOf, List.foldl_cons, List.foldl_nil, TraceFrame.stamp]
        dsimp only
        by_cases hid : f.context.frameId = 0
        · rw [if_pos hid, if_neg fun h => h.2 hid]
        · rw [if_neg hid]
          dsimp only
          by_cases ht : f.threadId = t
          · rw [if_pos ⟨ht, hid⟩, ← ht, Function.update_self]
          · rw [if_neg fun h => ht h.1, Function.update_of_ne (Ne.symm ht)]
      · rw [Reader.output_applyContext]
        by_cases hjk : k = j
        · subst hjk
          rw [List.getElem?_modify_eq, hpass, hf, Option.map_some, if_pos (Nat.lt_succ_self k),
            ← hstate]
          rfl
        · rw [List.getElem?_modify_ne _ _ hjk, houtput]
          have hiff : j < k + 1 ↔ j < k := by omega
          simp only [hiff]

/-- What `frames` returns. -/
theorem frames_getElem? (tid : Option Nat) (records : List Record) (i : Nat) :
    (frames tid records)[i]? = ((readRecords tid records).output[i]?).map fun f =>
      f.final (tableOf ((readRecords tid records).stamps.take i) f.threadId
        ((readRecords tid records).registerState f.threadId)) := by
  have hpass := ((readRecords tid records).pass_spec (Nat.le_refl _)).2 i
  rw [frames]
  refine hpass.trans ?_
  cases hi : (readRecords tid records).output[i]? with
  | none => rfl
  | some f =>
      rw [Option.map_some, Option.map_some, if_pos (List.getElem?_eq_some_iff.mp hi).1]

/-! ## Frames of snapshots -/

variable {m : Machine} {tid : Option Nat} {start : UInt64} {s : State} {t : ThreadId}
  {f : TraceFrame} {i : Nat}

/-- The table of a thread before a frame. -/
def State.tableAt (tid : Option Nat) (s : State) (i t : Nat) : Nat → Option (List UInt8) :=
  tableOf ((s.reader tid).stamps.take i) t ((s.reader tid).registerState t)

/-- What the last pass leaves of a frame of a snapshot. -/
structure Final (tid : Option Nat) (s : State) (i : Nat) (f : TraceFrame) : Prop where
  stamp : (s.reader tid).stamps[i]? = some f.stamp
  complete : f.contextComplete = true ↔ f.context.Ok
  registers : f.context.Ok → f.registers = fun reg =>
    (f.context.table (s.tableAt tid i f.threadId) reg).map fromBytes
  changes : f.context.Ok → ∀ reg data, f.context.changes reg = some data →
    f.registerChanges reg = some (fromBytes data)

theorem Joint.final (h : Joint m tid s)
    (hf : (frames tid (s.records.map Event.toRecord))[i]? = some f)
    (hid : f.context.frameId ≠ 0) : Final tid s i f := by
  rw [frames_getElem?] at hf
  obtain ⟨g, hg, rfl⟩ := Option.map_eq_some_iff.mp hf
  have hin : (s.reader tid).stamps[i]? = some g.stamp := by
    rw [Reader.stamps, List.getElem?_map]
    exact (congrArg (Option.map TraceFrame.stamp) hg).trans rfl
  generalize htable : tableOf ((readRecords tid (s.records.map Event.toRecord)).stamps.take i)
    g.threadId ((readRecords tid (s.records.map Event.toRecord)).registerState g.threadId) =
      table at hid ⊢
  obtain ⟨hthread, hcontext⟩ := Prod.mk.inj (g.stamp_final table)
  rw [hcontext] at hid
  have hmode : g.context.mode ≠ 0 := by
    rcases h.shape g.stamp (List.mem_of_getElem? hin) with hnone | ⟨hmode, -⟩
    · exact absurd (congrArg Context.frameId hnone) hid
    · exact hmode
  have hfinal : g.final table = g.apply table := if_neg hid
  have hflag := h.flags g (List.mem_of_getElem? hg) hmode
  refine ⟨by rw [g.stamp_final, hin], ?_, fun hok => ?_, fun hok reg data hdata => ?_⟩
  · rw [hcontext, hfinal, TraceFrame.apply]
    split
    next hok =>
      refine iff_of_true ?_ hok
      by_contra hfalse
      exact (hflag ((Bool.not_eq_true _).mp hfalse)).1 hok
    next hnot => exact iff_of_false Bool.false_ne_true hnot
  · rw [hcontext] at hok
    rw [State.tableAt, hthread, hcontext, hfinal, TraceFrame.apply, if_pos hok]
    rw [← htable]
    rfl
  · rw [hcontext] at hok hdata
    rw [hfinal, TraceFrame.apply, if_pos hok]
    dsimp only
    rw [hdata]
    rfl

/-! ## Logs -/

/-- The header of a complete attempt is there. -/
theorem Attempt.exists_context {a : Attempt} (h : a.complete m = true) :
    ∃ c, a.context m = some c := by
  rw [Attempt.complete, Bool.and_eq_true, beq_iff_eq] at h
  rw [Attempt.context]
  cases houtcomes : a.outcomes with
  | nil =>
      rw [houtcomes] at h
      exact absurd h.1 (by rintro ⟨⟩)
  | cons ok oks =>
      rw [houtcomes, List.all_cons, Bool.and_eq_true] at h
      obtain rfl : ok = true := h.2.1
      exact ⟨_, rfl⟩

/-- The reader takes a table over an attempt as the log says. -/
theorem applyTable_context {a : Attempt} (hok : a.Ok m t)
    (hlength : a.outcomes.length ≤ (a.events m).length) (table : Nat → Option (List UInt8)) :
    DeltaLog.replayEntry table (a.entry m) = match a.context m with
      | some c => c.applyTable table
      | none => table := by
  cases hc : a.context m with
  | none =>
      have hincomplete : ¬ a.complete m = true := by
        intro hcomplete
        obtain ⟨c, hsome⟩ := Attempt.exists_context hcomplete
        rw [hc] at hsome
        exact absurd hsome nofun
      exact if_neg hincomplete
  | some c =>
      have hiff := Attempt.ok_context hok hlength hc
      dsimp only
      rw [Context.applyTable, DeltaLog.replayEntry, Attempt.entry]
      dsimp only
      by_cases hcomplete : a.complete m = true
      · have hmode : c.mode = 1 ↔ a.baseline = true := by
          rw [Attempt.context] at hc
          split at hc
          next =>
            obtain rfl := Option.some.inj hc
            change (if a.baseline = true then (1 : UInt64) else 2).toNat = 1 ↔ _
            split
            next hbase => exact iff_of_true (by decide) hbase
            next hbase => exact iff_of_false (by decide) hbase
          next => exact absurd hc nofun
        rw [if_pos hcomplete, if_pos (hiff.mpr hcomplete)]
        funext reg
        rw [Context.table, Attempt.changes_context hok hlength hc hcomplete]
        simp only [hmode]
      · rw [if_neg hcomplete, if_neg fun hok => hcomplete (hiff.mp hok)]

/-- Attempts as the invariant of the recorder has them. -/
def Sound (m : Machine) (t : ThreadId) (attempts : List Attempt) : Prop :=
  ∀ a ∈ attempts, a.Ok m t ∧ a.outcomes.length ≤ (a.events m).length

theorem replay_contexts {attempts : List Attempt} (h : Sound m t attempts)
    (table : Nat → Option (List UInt8)) :
    (attempts.filterMap (Attempt.context m)).foldl (fun table c => c.applyTable table) table =
      DeltaLog.replay table (attempts.map (Attempt.entry m)) := by
  induction attempts generalizing table with
  | nil => rfl
  | cons a attempts ih =>
      obtain ⟨hok, hlength⟩ := h a List.mem_cons_self
      have hrest : Sound m t attempts := fun b hb => h b (List.mem_cons_of_mem a hb)
      have hentry := applyTable_context hok hlength table
      rw [List.map_cons, DeltaLog.replay, List.foldl_cons, hentry, List.filterMap_cons]
      cases a.context m with
      | none => exact ih hrest table
      | some c => exact ih hrest (c.applyTable table)

theorem Inv.sound (h : Inv m s) (t : ThreadId) : Sound m t (s.allAttempts t) := by
  intro a ha
  rcases List.mem_append.mp ha with ha | ha
  · exact ⟨(h.ended t a ha).1, (h.ended t a ha).2.le⟩
  · have hknows := h.threads t
    cases hpc : s.threads t with
    | idle =>
        rw [hpc] at ha
        exact absurd ha List.not_mem_nil
    | scan x k =>
        rw [hpc] at ha
        exact absurd ha List.not_mem_nil
    | claim x k =>
        rw [hpc] at ha
        exact absurd ha List.not_mem_nil
    | submit b slot =>
        rw [hpc] at ha hknows
        obtain rfl := List.mem_singleton.mp ha
        exact ⟨hknows.1, hknows.2.1.le⟩

/-- An attempt of which nothing was dropped has ended. -/
theorem Inv.exists_ended (h : Inv m s) {before after : List Attempt} {a : Attempt}
    (hall : s.allAttempts t = before ++ a :: after) (hcomplete : a.complete m = true) :
    ∃ rest, s.attempts t = before ++ a :: rest := by
  rw [State.allAttempts] at hall
  have hknows := h.threads t
  cases hpc : s.threads t with
  | idle =>
      rw [hpc] at hall
      exact ⟨after, (List.append_nil _).symm.trans hall⟩
  | scan x k =>
      rw [hpc] at hall
      exact ⟨after, (List.append_nil _).symm.trans hall⟩
  | claim x k =>
      rw [hpc] at hall
      exact ⟨after, (List.append_nil _).symm.trans hall⟩
  | submit b slot =>
      rw [hpc] at hall hknows
      rcases List.eq_nil_or_concat after with rfl | ⟨rest, last, rfl⟩
      · obtain ⟨-, hlast⟩ := List.append_inj' hall rfl
        obtain rfl := (List.cons.inj hlast).1
        have hlt := hknows.2.1
        rw [Attempt.complete, Bool.and_eq_true, beq_iff_eq] at hcomplete
        exact absurd hcomplete.1 hlt.ne
      · rw [List.concat_eq_append, ← List.cons_append, ← List.append_assoc] at hall
        exact ⟨rest, (List.append_inj' hall rfl).1⟩

/-- In a reached state the ids of snapshots are not zero. -/
theorem Joint.frameId_iff (h : Joint m tid s) (hnumbered : Numbered start s)
    {p : Nat × Context} (hp : p ∈ (s.reader tid).stamps) : p.2.frameId ≠ 0 ↔ p.2.mode ≠ 0 := by
  rcases h.shape p hp with hnone | ⟨hmode, t, ht, hadmits⟩
  · rw [hnone]
    exact iff_of_false (fun h => h rfl) fun h => h rfl
  · refine iff_of_true ?_ hmode
    have hmem : p.2 ∈ contextsOf (s.reader tid).stamps t.1.toNat :=
      mem_contextsOf.mpr ⟨ht ▸ hp, hmode⟩
    rw [h.contexts t hadmits, State.mem_contexts] at hmem
    obtain ⟨a, ha, hc⟩ := hmem
    have hid : a.frame.toNat ∈ s.ids t := by
      rw [State.ids]
      rcases List.mem_append.mp ha with ha | ha
      · exact List.mem_append_left _ (List.mem_map_of_mem ha)
      · refine List.mem_append_right _ ?_
        cases hpc : s.threads t with
        | submit b slot =>
            rw [hpc] at ha
            obtain rfl := List.mem_singleton.mp ha
            exact List.mem_singleton_self _
        | idle =>
            rw [hpc] at ha
            exact absurd ha List.not_mem_nil
        | scan x k =>
            rw [hpc] at ha
            exact absurd ha List.not_mem_nil
        | claim x k =>
            rw [hpc] at ha
            exact absurd ha List.not_mem_nil
    rw [(Attempt.frameId_context hc).1]
    exact ((hnumbered.ids t).2 _ hid).1.ne'

theorem tableOf_eq {l : List (Nat × Context)} (h : ∀ p ∈ l, p.2.frameId ≠ 0 ↔ p.2.mode ≠ 0)
    (t : Nat) (old : Nat → Option (List UInt8)) :
    tableOf l t old = (contextsOf l t).foldl (fun table c => c.applyTable table) old := by
  induction l generalizing old with
  | nil => rfl
  | cons p l ih =>
      have hrest : ∀ p ∈ l, p.2.frameId ≠ 0 ↔ p.2.mode ≠ 0 :=
        fun q hq => h q (List.mem_cons_of_mem p hq)
      have hp := h p List.mem_cons_self
      rw [tableOf, List.foldl_cons, contextsOf, List.filter_cons]
      by_cases hkey : p.1 = t ∧ p.2.mode ≠ 0
      · rw [if_pos ⟨hkey.1, hp.mpr hkey.2⟩, if_pos (by simpa using hkey)]
        exact ih hrest _
      · rw [if_neg fun hkey' => hkey ⟨hkey'.1, hp.mp hkey'.2⟩, if_neg (by simpa using hkey)]
        exact ih hrest _

/-- A complete frame of a snapshot has its place in the log of its thread. -/
structure Placed (m : Machine) (tid : Option Nat) (s : State) (i : Nat) (t : ThreadId)
    (c : Context) (before : List Attempt) (a : Attempt) : Prop where
  attempts : ∃ rest, s.attempts t = before ++ a :: rest
  context : a.context m = some c
  complete : a.complete m = true
  contexts : contextsOf ((s.reader tid).stamps.take i) t.1.toNat =
    before.filterMap (Attempt.context m)
  sound : Sound m t (before ++ [a])

theorem Joint.exists_placed (h : Joint m tid s) (hinv : Inv m s) {c : Context}
    (hin : (s.reader tid).stamps[i]? = some (t.1.toNat, c)) (hmode : c.mode ≠ 0)
    (hadmits : Admits tid t.1.toNat) (hok : c.Ok) :
    ∃ before a, Placed m tid s i t c before a := by
  have hsplit : (s.reader tid).stamps = (s.reader tid).stamps.take i ++
      (t.1.toNat, c) :: (s.reader tid).stamps.drop (i + 1) := by
    obtain ⟨hlt, hget⟩ := List.getElem?_eq_some_iff.mp hin
    rw [← hget, List.getElem_cons_drop, List.take_append_drop]
  have hcontexts := h.contexts t hadmits
  rw [hsplit, contextsOf_append, contextsOf_cons, if_pos ⟨rfl, hmode⟩, State.contexts, eq_comm,
    List.filterMap_eq_append_iff] at hcontexts
  obtain ⟨left, right, hall, hleft, hright⟩ := hcontexts
  rw [List.singleton_append, List.filterMap_eq_cons_iff] at hright
  obtain ⟨skipped, a, after, rfl, hskipped, ha, -⟩ := hright
  have hmem : a ∈ s.allAttempts t := by
    rw [hall]
    exact List.mem_append_right _ (List.mem_append_right _ List.mem_cons_self)
  obtain ⟨haok, hlength⟩ := hinv.sound t a hmem
  have hcomplete := (Attempt.ok_context haok hlength ha).mp hok
  rw [← List.append_assoc] at hall
  refine ⟨left ++ skipped, a, hinv.exists_ended hall hcomplete, ha, hcomplete, ?_, fun b hb => ?_⟩
  · rw [List.filterMap_append, hleft, List.filterMap_eq_nil_iff.mpr hskipped, List.append_nil]
  · refine hinv.sound t b ?_
    rw [hall, List.append_cons]
    exact List.mem_append_left _ hb

/-- The table before a placed frame replays the log before it. -/
theorem Placed.tableAt_eq {c : Context} {before : List Attempt} {a : Attempt}
    (h : Placed m tid s i t c before a) (hjoint : Joint m tid s) (hnumbered : Numbered start s) :
    s.tableAt tid i t.1.toNat = DeltaLog.replay ((s.reader tid).registerState t.1.toNat)
      (before.map (Attempt.entry m)) := by
  rw [State.tableAt, tableOf_eq fun p hp => hjoint.frameId_iff hnumbered (List.mem_of_mem_take hp),
    h.contexts, replay_contexts fun b hb => h.sound b (List.mem_append_left _ hb)]

theorem Placed.chained {c : Context} {before : List Attempt} {a : Attempt}
    (h : Placed m tid s i t c before a) (hinv : Inv m s) :
    DeltaLog.Chained (before.map (Attempt.entry m)) ∧
      DeltaLog.Follows (DeltaLog.lastComplete (before.map (Attempt.entry m))) (a.entry m) := by
  obtain ⟨rest, hattempts⟩ := h.attempts
  have hchained := hinv.chained t
  rw [State.log, hattempts, List.map_append, List.map_cons] at hchained
  exact ⟨hchained.left, hchained.follows⟩

/-- The table of a placed frame is the content of its attempt. -/
theorem Placed.table_eq {c : Context} {before : List Attempt} {a : Attempt}
    (h : Placed m tid s i t c before a) (hjoint : Joint m tid s) (hinv : Inv m s)
    (hnumbered : Numbered start s) :
    c.applyTable (s.tableAt tid i t.1.toNat) = m.lookup (m.available a.thread) a.values := by
  obtain ⟨hchained, hfollows⟩ := h.chained hinv
  obtain ⟨haok, hlength⟩ := h.sound a (List.mem_append_right _ List.mem_cons_self)
  have hentry := applyTable_context haok hlength (s.tableAt tid i t.1.toNat)
  rw [h.context] at hentry
  refine hentry.symm.trans ?_
  rw [h.tableAt_eq hjoint hnumbered]
  exact DeltaLog.replay_concat hchained hfollows h.complete _

/-! ## Complete frames -/

/-- The last complete frame of a snapshot of a thread before a position. -/
def previousComplete (fs : List TraceFrame) (i t : Nat) : Option TraceFrame :=
  ((fs.take i).filter fun f =>
    f.threadId = t ∧ f.context.frameId ≠ 0 ∧ f.contextComplete = true).getLast?

theorem frames_stamps (tid : Option Nat) (s : State) :
    (frames tid (s.records.map Event.toRecord)).map TraceFrame.stamp = (s.reader tid).stamps := by
  refine List.ext_getElem? fun i => ?_
  rw [List.getElem?_map, Reader.stamps, List.getElem?_map, frames_getElem?, State.reader]
  cases (readRecords tid (s.records.map Event.toRecord)).output[i]? with
  | none => rfl
  | some f => exact congrArg some (f.stamp_final _)

/-- Incomplete frames leave the table of the thread alone. -/
theorem Joint.tableOf_incomplete (h : Joint m tid s) {fs : List TraceFrame} {t : Nat}
    (hsub : fs ⊆ frames tid (s.records.map Event.toRecord))
    (hnone : ∀ f ∈ fs, ¬ (f.threadId = t ∧ f.context.frameId ≠ 0 ∧ f.contextComplete = true))
    (table : Nat → Option (List UInt8)) :
    tableOf (fs.map TraceFrame.stamp) t table = table := by
  induction fs with
  | nil => rfl
  | cons f fs ih =>
      have hf := hnone f List.mem_cons_self
      have hstep : (if f.threadId = t ∧ f.context.frameId ≠ 0 then f.context.applyTable table
          else table) = table := by
        split
        next hkey =>
          obtain ⟨i, hi⟩ := List.mem_iff_getElem?.mp (hsub List.mem_cons_self)
          rw [Context.applyTable, if_neg]
          exact fun hok => hf ⟨hkey.1, hkey.2, (h.final hi hkey.2).complete.mpr hok⟩
        next => rfl
      rw [List.map_cons, tableOf, List.foldl_cons]
      change tableOf (fs.map TraceFrame.stamp) t (if f.threadId = t ∧ f.context.frameId ≠ 0 then
        f.context.applyTable table else table) = table
      rw [hstep]
      exact ih (fun g hg => hsub (List.mem_cons_of_mem f hg))
        fun g hg => hnone g (List.mem_cons_of_mem f hg)

/-- The registers of the previous complete frame are the table before a frame. -/
theorem Joint.previous_registers (h : Joint m tid s) {t : Nat} {g : TraceFrame}
    (hg : previousComplete (frames tid (s.records.map Event.toRecord)) i t = some g) :
    g.registers = fun reg => (s.tableAt tid i t reg).map fromBytes := by
  generalize hfs : frames tid (s.records.map Event.toRecord) = fs at hg
  rw [previousComplete, List.getLast?_eq_some_iff] at hg
  obtain ⟨init, hg⟩ := hg
  obtain ⟨front, back, htake, -, hback⟩ := List.filter_eq_append_iff.mp hg
  obtain ⟨skipped, rest, rfl, -, hp, hrest⟩ := List.filter_eq_cons_iff.mp hback
  obtain ⟨rfl, hid, hcomplete⟩ := of_decide_eq_true hp
  rw [← List.append_assoc] at htake
  generalize front ++ skipped = front at htake
  have hsplit : fs = front ++ g :: (rest ++ fs.drop i) := by
    rw [← List.cons_append, ← List.append_assoc, ← htake, List.take_append_drop]
  have hin : fs[front.length]? = some g := by
    rw [hsplit, List.getElem?_append_right (Nat.le_refl _), Nat.sub_self]
    rfl
  have hstamps : (s.reader tid).stamps = fs.map TraceFrame.stamp := by
    rw [← hfs, frames_stamps]
  have hfinal := h.final (hfs ▸ hin) hid
  have hok := hfinal.complete.mp hcomplete
  have hrestSub : rest ⊆ frames tid (s.records.map Event.toRecord) := by
    intro f hf
    rw [hfs, hsplit]
    exact List.mem_append_right _ (List.mem_cons_of_mem g (List.mem_append_left _ hf))
  have hnone : ∀ f ∈ rest,
      ¬ (f.threadId = g.threadId ∧ f.context.frameId ≠ 0 ∧ f.contextComplete = true) := by
    intro f hf hkey
    exact List.filter_eq_nil_iff.mp hrest f hf (decide_eq_true hkey)
  have hbefore : (s.reader tid).stamps.take front.length = front.map TraceFrame.stamp := by
    rw [hstamps, ← List.map_take, hsplit, List.take_left]
  have htable : s.tableAt tid i g.threadId =
      g.context.table (s.tableAt tid front.length g.threadId) := by
    have hskip := h.tableOf_incomplete hrestSub hnone
      (g.context.table (s.tableAt tid front.length g.threadId))
    rw [State.tableAt, hstamps, ← List.map_take, htake, List.map_append, tableOf_append,
      ← hbefore]
    refine Eq.trans ?_ hskip
    rw [List.map_cons, tableOf, List.foldl_cons]
    refine congrArg (fun table => tableOf (rest.map TraceFrame.stamp) g.threadId table) ?_
    rw [if_pos ⟨rfl, hid⟩]
    exact if_pos hok
  rw [hfinal.registers hok, htable]

/-- Without a previous complete frame nothing complete has been recorded before a frame. -/
theorem Joint.previous_none (h : Joint m tid s) (hnumbered : Numbered start s) {c : Context}
    {before : List Attempt} {a : Attempt} (hplaced : Placed m tid s i t c before a)
    (hnone : previousComplete (frames tid (s.records.map Event.toRecord)) i t.1.toNat = none) :
    DeltaLog.lastComplete (before.map (Attempt.entry m)) = none := by
  rw [DeltaLog.lastComplete, List.getLast?_eq_none_iff, List.filter_eq_nil_iff]
  intro entry hentry hcomplete
  obtain ⟨b, hb, rfl⟩ := List.mem_map.mp hentry
  obtain ⟨hok, hlength⟩ := hplaced.sound b (List.mem_append_left _ hb)
  obtain ⟨c', hc'⟩ := Attempt.exists_context hcomplete
  have hcok := (Attempt.ok_context hok hlength hc').mpr hcomplete
  have hmem : c' ∈ contextsOf ((s.reader tid).stamps.take i) t.1.toNat := by
    rw [hplaced.contexts]
    exact List.mem_filterMap.mpr ⟨b, hb, hc'⟩
  obtain ⟨hmem, hmode⟩ := mem_contextsOf.mp hmem
  rw [← frames_stamps, ← List.map_take] at hmem
  obtain ⟨f, hf, hstamp⟩ := List.mem_map.mp hmem
  obtain ⟨hthread, hcontext⟩ := Prod.mk.inj hstamp
  have hid : f.context.frameId ≠ 0 := by
    rw [hcontext]
    exact (h.frameId_iff hnumbered (p := (t.1.toNat, c')) (by
      rw [← frames_stamps]
      exact List.mem_map.mpr ⟨f, List.mem_of_mem_take hf, hstamp⟩)).mpr hmode
  obtain ⟨j, hj⟩ := List.mem_iff_getElem?.mp (List.mem_of_mem_take hf)
  have hflag := (h.final hj hid).complete.mpr (hcontext ▸ hcok)
  rw [previousComplete, List.getLast?_eq_none_iff, List.filter_eq_nil_iff] at hnone
  exact hnone f hf (decide_eq_true ⟨hthread, hid, hflag⟩)

/-! ## Restored registers -/

/-- The register values that the recorder has captured for a snapshot. -/
def Machine.captured (m : Machine) (a : Attempt) : Nat → Option (List UInt8) :=
  m.lookup (m.available a.thread) a.values

/-- A frame has the register values of a snapshot of its thread. -/
def Restored (m : Machine) (s : State) (f : TraceFrame) : Prop :=
  ∃ t : ThreadId, f.threadId = t.1.toNat ∧ ∃ a ∈ s.attempts t,
    f.registers = fun reg => (m.captured a reg).map fromBytes

/-- The states and numbers of a session. -/
theorem session_spec {s₀ : State} (hstart : SessionStart s₀) {acts : List Action}
    (hrun : run (step m) s₀ acts = some s)
    (hsmall : s₀.contextFrame.toNat + s.snapshots < 2 ^ 64) (tid : Option Nat) :
    Inv m s ∧ Numbered s₀.contextFrame s ∧ Joint m tid s := by
  have hspec : Inv m s ∧
      (s₀.contextFrame.toNat + s.snapshots < 2 ^ 64 → Numbered s₀.contextFrame s ∧ Joint m tid s) := by
    refine run_invariant (I := fun s => Inv m s ∧
      (s₀.contextFrame.toNat + s.snapshots < 2 ^ 64 → Numbered s₀.contextFrame s ∧ Joint m tid s))
      (fun {s act s'} h hstep => ?_) ⟨hstart.inv, fun _ => ⟨hstart.numbered, hstart.joint⟩⟩ hrun
    refine ⟨h.1.step hstep, fun hsmall => ?_⟩
    have hle := step_snapshots_le hstep
    obtain ⟨hnumbered, hjoint⟩ := h.2 (by omega)
    exact ⟨hnumbered.step hsmall hstep, hjoint.step h.1 hnumbered hstep⟩
  exact ⟨hspec.1, hspec.2 hsmall⟩

/-- A complete frame of a snapshot has the values that were captured, and lists every register that
differs from the previous complete frame of its thread. -/
theorem frames_restore {s₀ : State} (hstart : SessionStart s₀) {acts : List Action}
    (hrun : run (step m) s₀ acts = some s)
    (hsmall : s₀.contextFrame.toNat + s.snapshots < 2 ^ 64) (tid : Option Nat)
    (hf : (frames tid (s.records.map Event.toRecord))[i]? = some f)
    (hid : f.context.frameId ≠ 0) (hcomplete : f.contextComplete = true) :
    (∃ t : ThreadId, f.threadId = t.1.toNat ∧ ∃ a ∈ s.attempts t,
        a.frame.toNat = f.context.frameId ∧
          f.registers = fun reg => (m.captured a reg).map fromBytes) ∧
      ∀ reg v, f.registers reg = some v →
        ((previousComplete (frames tid (s.records.map Event.toRecord)) i f.threadId).bind
          (·.registers reg)) ≠ some v → f.registerChanges reg = some v := by
  obtain ⟨hinv, hnumbered, hjoint⟩ := session_spec hstart hrun hsmall tid
  have hfinal := hjoint.final hf hid
  have hok := hfinal.complete.mp hcomplete
  obtain ⟨hmode, t, ht, hadmits⟩ : f.context.mode ≠ 0 ∧ ∃ t : ThreadId,
      f.threadId = t.1.toNat ∧ Admits tid t.1.toNat := by
    rcases hjoint.shape f.stamp (List.mem_of_getElem? hfinal.stamp) with hnone | hshape
    · exact absurd (congrArg Context.frameId hnone) hid
    · exact hshape
  have hin : (s.reader tid).stamps[i]? = some (t.1.toNat, f.context) := by
    rw [hfinal.stamp, ← ht]
    rfl
  obtain ⟨before, a, hplaced⟩ := hjoint.exists_placed hinv hin hmode hadmits hok
  obtain ⟨hchained, hfollows⟩ := hplaced.chained hinv
  obtain ⟨haok, hlength⟩ := hplaced.sound a (List.mem_append_right _ List.mem_cons_self)
  have hregisters : f.registers = fun reg => (m.captured a reg).map fromBytes := by
    have htable := hplaced.table_eq hjoint hinv hnumbered
    rw [Context.applyTable, if_pos hok] at htable
    rw [hfinal.registers hok, ht, htable]
    rfl
  obtain ⟨rest, hattempts⟩ := hplaced.attempts
  refine ⟨⟨t, ht, a, ?_, (Attempt.frameId_context hplaced.context).1.symm, hregisters⟩,
    fun reg v hv hprevious => ?_⟩
  · rw [hattempts]
    exact List.mem_append_right _ List.mem_cons_self
  · rw [hregisters] at hv
    obtain ⟨data, hdata, rfl⟩ := Option.map_eq_some_iff.mp hv
    refine hfinal.changes hok reg data ?_
    rw [Attempt.changes_context haok hlength hplaced.context hplaced.complete]
    refine hfollows.changes_of_ne hdata fun hsame => hprevious ?_
    obtain ⟨entry, hentry, hcontent⟩ := Option.bind_eq_some_iff.mp hsame
    cases hg : previousComplete (frames tid (s.records.map Event.toRecord)) i f.threadId with
    | none =>
        rw [ht] at hg
        rw [hjoint.previous_none hnumbered hplaced hg] at hentry
        exact absurd hentry nofun
    | some g =>
        rw [Option.bind_some, hjoint.previous_registers hg, ht, hplaced.tableAt_eq hjoint hnumbered,
          DeltaLog.replay_eq_content hchained _ hentry]
        exact congrArg (Option.map fromBytes) hcontent

/-! ## Two sessions -/

/-- A machine on which only the first general purpose register can be read. -/
def sampleMachine : Machine where
  is64 := true
  readable _ i := i = 0

def sampleThread : ThreadId := ⟨0, by decide⟩

/-- A session with one snapshot, whose submits end as given, and the instruction after it. -/
def sampleSession (header component : Option UInt64) : List Action :=
  [.enter sampleThread 0x1000 fun _ _ => 7, .slot sampleThread, .slot sampleThread,
    .submit sampleThread header, .submit sampleThread component,
    .other sampleThread { Event.empty with kind := eventExec, address := 0x1000 }]

/-- The first frame of a session: its thread, its id, its flag, and the first register. -/
def sampleFrame (start : UInt64) (header component : Option UInt64) :
    Option (Nat × Nat × Bool × Option Nat) :=
  (run (step sampleMachine) (State.init start) (sampleSession header component)).bind fun s =>
    ((frames none (s.records.map Event.toRecord))[0]?).map fun f =>
      (f.threadId, f.context.frameId, f.contextComplete, f.registers 10)

theorem frames_restore_seven : ∃ s f,
    run (step sampleMachine) (State.init 0) (sampleSession (some 1) (some 2)) = some s ∧
      (frames none (s.records.map Event.toRecord))[0]? = some f ∧
        f.registers 10 = some 7 ∧ f.registerChanges 10 = some 7 := by
  have hframe : sampleFrame 0 (some 1) (some 2) = some (0, 1, true, some 7) := by decide +kernel
  obtain ⟨s, hrun, hframe⟩ := Option.bind_eq_some_iff.mp hframe
  obtain ⟨f, hf, hvalues⟩ := Option.map_eq_some_iff.mp hframe
  simp only [Prod.mk.injEq] at hvalues
  obtain ⟨-, hid, hcomplete, hseven⟩ := hvalues
  have hsnapshots : (run (step sampleMachine) (State.init 0)
      (sampleSession (some 1) (some 2))).map State.snapshots = some 1 := by decide +kernel
  rw [hrun, Option.map_some, Option.some_inj] at hsnapshots
  have hsmall : (State.init 0).contextFrame.toNat + s.snapshots < 2 ^ 64 := by
    rw [hsnapshots]
    decide
  have hchanges := (frames_restore (State.init_start 0) hrun hsmall none hf (by omega) hcomplete).2
  exact ⟨s, f, hrun, hf, hseven, hchanges 10 7 hseven (by simp [previousComplete])⟩

/-- A complete frame without registers is not that of a snapshot in which one was captured. -/
theorem sample_not_restored (start : UInt64) (header component : Option UInt64)
    (hframe : sampleFrame start header component = some (0, 0, true, none))
    (hcaptured : (run (step sampleMachine) (State.init start)
      (sampleSession header component)).map (fun s => (s.attempts sampleThread).all fun a =>
        (sampleMachine.captured a 10).isSome) = some true) :
    ∃ acts s, run (step sampleMachine) (State.init start) acts = some s ∧
      ∃ f ∈ frames none (s.records.map Event.toRecord), f.contextComplete = true ∧
        ¬ Restored sampleMachine s f := by
  obtain ⟨s, hrun, hframe⟩ := Option.bind_eq_some_iff.mp hframe
  obtain ⟨f, hf, hvalues⟩ := Option.map_eq_some_iff.mp hframe
  simp only [Prod.mk.injEq] at hvalues
  obtain ⟨hthread, -, hcomplete, hnone⟩ := hvalues
  rw [hrun, Option.map_some, Option.some_inj, List.all_eq_true] at hcaptured
  refine ⟨_, s, hrun, f, List.mem_of_getElem? hf, hcomplete, fun ⟨t, ht, a, ha, hregisters⟩ => ?_⟩
  obtain rfl : t = sampleThread :=
    Subtype.ext (UInt32.toNat_inj.mp (ht.symm.trans hthread))
  rw [hregisters, Option.map_eq_none_iff] at hnone
  have hsome := hcaptured a ha
  rw [hnone] at hsome
  exact absurd hsome nofun

/-- A frame that is not of a snapshot, and one with the frame id zero, have no registers. -/
theorem frames_lose :
    (∃ acts s, run (step sampleMachine) (State.init 0) acts = some s ∧
      ∃ f ∈ frames none (s.records.map Event.toRecord), f.contextComplete = true ∧
        ¬ Restored sampleMachine s f) ∧
      ∃ acts s, run (step sampleMachine) (State.init 0xFFFFFFFFFFFFFFFF) acts = some s ∧
        ∃ f ∈ frames none (s.records.map Event.toRecord), f.contextComplete = true ∧
          ¬ Restored sampleMachine s f :=
  ⟨sample_not_restored 0 none (some 2) (by decide +kernel) (by decide +kernel),
    sample_not_restored 0xFFFFFFFFFFFFFFFF (some 1) (some 2) (by decide +kernel)
      (by decide +kernel)⟩

end PinBridge.Registers
