import PinBridge.Registers.Contexts

/-!
# Recorder and reader

The reader is followed while the recorder writes.  In every state the contexts that the reader has
of a thread are those of the attempts of the thread, in their order, the one in progress included
(`Joint`).  What carries this is that a frame id is used once (`Numbered`), as long as the counter
of frames does not overflow.
-/

namespace PinBridge.Registers

open Transition

variable {m : Machine} {tid : Option Nat} {start : UInt64}

/-! ## Steps -/

/-- The attempt of a thread that submits. -/
def Pc.attempts : Pc → List Attempt
  | .submit a _ => [a]
  | _ => []

/-- The frame id of the snapshot that a thread is in. -/
def Pc.frame? : Pc → Option UInt64
  | .idle => none
  | .scan x _ => some x.frame
  | .claim x _ => some x.frame
  | .submit a _ => some a.frame

/-- Only the place of a thread in its snapshot changes, and it has submitted nothing. -/
structure Moved (s s' : State) (t : ThreadId) (pc : Pc) : Prop where
  threads : s'.threads = Function.update s.threads t pc
  frame : pc.frame? = (s.threads t).frame?
  before : (s.threads t).attempts = []
  after : ∀ a ∈ pc.attempts, a.outcomes = []
  attempts : s'.attempts = s.attempts
  records : s'.records = s.records
  contextFrame : s'.contextFrame = s.contextFrame
  snapshots : s'.snapshots = s.snapshots

variable {s s' : State} {t : ThreadId}

theorem moved_attempt {x : Snapshot} {slot : Option SlotIndex}
    (hframe : (s.threads t).frame? = some x.frame) (hbefore : (s.threads t).attempts = []) :
    Moved s (s.goto t (.submit (m.attempt s t x slot) slot)) t
      (.submit (m.attempt s t x slot) slot) :=
  ⟨rfl, hframe.symm, hbefore, fun _ ha => List.mem_singleton.mp ha ▸ rfl, rfl, rfl, rfl, rfl⟩

theorem moved_skip {x : Snapshot} {k : SlotIndex}
    (hframe : (s.threads t).frame? = some x.frame) (hbefore : (s.threads t).attempts = []) :
    ∃ pc, Moved s (m.skip s t x k) t pc := by
  rw [Machine.skip]
  cases nextSlot k with
  | none => exact ⟨_, moved_attempt hframe hbefore⟩
  | some k => exact ⟨_, rfl, hframe.symm, hbefore, nofun, rfl, rfl, rfl, rfl⟩

theorem step_slot (h : step m s (.slot t) = some s') : ∃ pc, Moved s s' t pc := by
  simp only [Registers.step] at h
  split at h
  next x k hpc =>
    have hframe : (s.threads t).frame? = some x.frame := by rw [hpc]; rfl
    have hbefore : (s.threads t).attempts = [] := by rw [hpc]; rfl
    obtain rfl := Option.some.inj h
    split
    next owner _ =>
      split
      next => exact ⟨_, moved_attempt hframe hbefore⟩
      next => exact moved_skip hframe hbefore
    next => exact ⟨_, rfl, hframe.symm, hbefore, (by intro _ ha; cases ha), rfl, rfl, rfl, rfl⟩
  next x k hpc =>
    have hframe : (s.threads t).frame? = some x.frame := by rw [hpc]; rfl
    have hbefore : (s.threads t).attempts = [] := by rw [hpc]; rfl
    obtain rfl := Option.some.inj h
    split
    next =>
      exact ⟨.submit (m.attempt s t x (some k)) (some k), rfl, hframe.symm, hbefore,
        fun _ ha => List.mem_singleton.mp ha ▸ rfl, rfl, rfl, rfl, rfl⟩
    next => exact moved_skip hframe hbefore
  next => cases h

/-- An attempt after one more submit. -/
def Attempt.next (a : Attempt) (ok : Bool) : Attempt := { a with outcomes := a.outcomes ++ [ok] }

/-- A thread makes the next submit of its attempt. -/
structure Submitted (m : Machine) (s s' : State) (t : ThreadId) (a : Attempt) (e : Event)
    (outcome : Option UInt64) : Prop where
  pc : ∃ slot, s.threads t = .submit a slot
  event : (a.events m)[a.outcomes.length]? = some e
  records : s'.records = s.records ++
    (outcome.map fun sequence => { e with sequence := sequence }).toList
  others : ∀ u, u ≠ t → s'.attempts u = s.attempts u ∧ s'.threads u = s.threads u
  attempts : s'.attempts t ++ (s'.threads t).attempts = s.attempts t ++ [a.next outcome.isSome]
  ended : s.attempts t <+: s'.attempts t
  ids : (s'.attempts t).map (fun a => a.frame.toNat) ++
      ((s'.threads t).frame?.map UInt64.toNat).toList =
    (s.attempts t).map (fun a => a.frame.toNat) ++ [a.frame.toNat]
  contextFrame : s'.contextFrame = s.contextFrame
  snapshots : s'.snapshots = s.snapshots

theorem step_submit {outcome : Option UInt64} (h : step m s (.submit t outcome) = some s') :
    ∃ a e, Submitted m s s' t a e outcome := by
  simp only [Registers.step] at h
  split at h
  next a slot hpc =>
    obtain ⟨e, he, rfl⟩ := Option.map_eq_some_iff.mp h
    refine ⟨a, e, ?_⟩
    split
    next =>
      refine ⟨⟨slot, hpc⟩, he, rfl, fun u hu => ⟨?_, ?_⟩, ?_, ?_, ?_, rfl, rfl⟩
      · exact Function.update_of_ne hu _ _
      · exact Function.update_of_ne hu _ _
      · simp [Machine.finish, State.goto, State.record, Pc.attempts, Attempt.next]
      · simp [Machine.finish, State.record]
      · simp [Machine.finish, State.goto, State.record, Pc.frame?]
    next =>
      refine ⟨⟨slot, hpc⟩, he, rfl, fun u hu => ⟨rfl, ?_⟩, ?_, ?_, ?_, rfl, rfl⟩
      · exact Function.update_of_ne hu _ _
      · simp [State.goto, State.record, Pc.attempts, Attempt.next]
      · simp [State.goto, State.record]
      · simp [State.goto, State.record, Pc.frame?]
  next => cases h

/-! ## Frame ids -/

/-- The frame ids of a thread. -/
def State.ids (s : State) (t : ThreadId) : List Nat :=
  (s.attempts t).map (fun a => a.frame.toNat) ++ ((s.threads t).frame?.map UInt64.toNat).toList

/-- The frame ids of a thread increase, and the counter has counted them. -/
structure Numbered (start : UInt64) (s : State) : Prop where
  counter : s.contextFrame.toNat = start.toNat + s.snapshots
  ids : ∀ t, (s.ids t).Pairwise (· < ·) ∧ ∀ id ∈ s.ids t, 0 < id ∧ id ≤ s.contextFrame.toNat

theorem SessionStart.ids (h : SessionStart s) (t : ThreadId) : s.ids t = [] := by
  rw [State.ids, h.attempts t, h.outside t]
  rfl

theorem SessionStart.numbered (h : SessionStart s) : Numbered s.contextFrame s where
  counter := by rw [h.snapshots, Nat.add_zero]
  ids t := by
    rw [h.ids t]
    exact ⟨List.Pairwise.nil, nofun⟩

/-- Nothing but the place of a thread in its snapshot has changed. -/
theorem Numbered.congr (h : Numbered start s)
    (hframe : s'.contextFrame = s.contextFrame) (hcount : s'.snapshots = s.snapshots)
    (hids : ∀ t, s'.ids t = s.ids t) : Numbered start s' :=
  ⟨by rw [hframe, hcount, h.counter], fun t => by
    rw [hids, hframe]
    exact h.ids t⟩

theorem Moved.ids {pc : Pc} (h : Moved s s' t pc) (u : ThreadId) : s'.ids u = s.ids u := by
  rw [State.ids, State.ids, h.attempts, h.threads]
  by_cases hu : u = t
  · rw [hu, Function.update_self, h.frame]
  · rw [Function.update_of_ne hu]

theorem Submitted.ids_eq {a : Attempt} {e : Event} {outcome : Option UInt64}
    (h : Submitted m s s' t a e outcome) (u : ThreadId) : s'.ids u = s.ids u := by
  by_cases hu : u = t
  · obtain ⟨slot, hpc⟩ := h.pc
    rw [hu, State.ids, h.ids, State.ids, hpc]
    rfl
  · rw [State.ids, State.ids, (h.others u hu).1, (h.others u hu).2]

theorem Numbered.step {act : Action} (h : Numbered start s)
    (hsmall : start.toNat + s'.snapshots < 2 ^ 64) (hstep : step m s act = some s') :
    Numbered start s' := by
  cases act with
  | enter t rip reads =>
      simp only [Registers.step] at hstep
      split at hstep
      next hpc =>
        obtain rfl := Option.some.inj hstep
        have hnext : (s.contextFrame + 1).toNat = s.contextFrame.toNat + 1 := by
          have hcounter := h.counter
          dsimp only at hsmall
          rw [UInt64.toNat_add, Nat.mod_eq_of_lt]
          · rfl
          · change s.contextFrame.toNat + 1 < 2 ^ 64
            omega
        refine ⟨?_, fun u => ?_⟩
        · dsimp only
          rw [hnext, h.counter, Nat.add_assoc]
        · rw [State.ids]
          dsimp only [State.goto]
          rw [hnext]
          obtain ⟨hsorted, hbounds⟩ := h.ids u
          by_cases hu : u = t
          · subst hu
            rw [State.ids, hpc] at hsorted hbounds
            rw [Function.update_self]
            simp only [Pc.frame?, Option.map_none, Option.toList_none, List.append_nil,
              Option.map_some, Option.toList_some] at hsorted hbounds ⊢
            rw [hnext]
            refine ⟨List.pairwise_append.mpr ⟨hsorted, List.pairwise_singleton _ _,
              fun id hid id' hid' => ?_⟩, fun id hid => ?_⟩
            · rw [List.mem_singleton.mp hid']
              exact Nat.lt_succ_of_le (hbounds id hid).2
            · rcases List.mem_append.mp hid with hid | hid
              · exact ⟨(hbounds id hid).1, Nat.le_succ_of_le (hbounds id hid).2⟩
              · rw [List.mem_singleton.mp hid]
                exact ⟨Nat.succ_pos _, Nat.le_refl _⟩
          · rw [Function.update_of_ne hu]
            exact ⟨hsorted, fun id hid =>
              ⟨(hbounds id hid).1, Nat.le_succ_of_le (hbounds id hid).2⟩⟩
      next => cases hstep
  | slot t =>
      obtain ⟨pc, hmoved⟩ := step_slot hstep
      exact h.congr hmoved.contextFrame hmoved.snapshots hmoved.ids
  | submit t outcome =>
      obtain ⟨a, e, hsubmitted⟩ := step_submit hstep
      exact h.congr hsubmitted.contextFrame hsubmitted.snapshots hsubmitted.ids_eq
  | other t e =>
      simp only [Registers.step] at hstep
      split at hstep
      next =>
        split at hstep
        next =>
          obtain rfl := Option.some.inj hstep
          exact h.congr rfl rfl fun _ => rfl
        next => cases hstep
      next => cases hstep
  | marker e =>
      simp only [Registers.step] at hstep
      split at hstep
      next =>
        obtain rfl := Option.some.inj hstep
        exact h.congr rfl rfl fun _ => rfl
      next => cases hstep

theorem step_snapshots_le {act : Action} (h : step m s act = some s') :
    s.snapshots ≤ s'.snapshots := by
  cases act with
  | enter t rip reads =>
      simp only [Registers.step] at h
      split at h
      next =>
        obtain rfl := Option.some.inj h
        exact Nat.le_succ _
      next => cases h
  | slot t =>
      obtain ⟨pc, hmoved⟩ := step_slot h
      exact hmoved.snapshots.ge
  | submit t outcome =>
      obtain ⟨a, e, hsubmitted⟩ := step_submit h
      exact hsubmitted.snapshots.ge
  | other t e =>
      simp only [Registers.step] at h
      split at h
      next =>
        split at h
        next =>
          obtain rfl := Option.some.inj h
          exact Nat.le_refl _
        next => cases h
      next => cases h
  | marker e =>
      simp only [Registers.step] at h
      split at h
      next =>
        obtain rfl := Option.some.inj h
        exact Nat.le_refl _
      next => cases h

/-! ## The invariant -/

/-- The attempts of a thread, the one in progress included. -/
def State.allAttempts (s : State) (t : ThreadId) : List Attempt :=
  s.attempts t ++ (s.threads t).attempts

/-- The contexts that the reader should have of a thread. -/
def State.contexts (m : Machine) (s : State) (t : ThreadId) : List Context :=
  (s.allAttempts t).filterMap (Attempt.context m)

/-- The reader after the records so far. -/
def State.reader (tid : Option Nat) (s : State) : Reader :=
  readRecords tid (s.records.map Event.toRecord)

/-- The reader takes the records of a thread. -/
def Admits (tid : Option Nat) (t : Nat) : Prop := tid.all (t == ·) = true

/-- The snapshot with a frame id has ended. -/
def State.Closed (s : State) (t id : Nat) : Prop :=
  ∃ u : ThreadId, u.1.toNat = t ∧ ∃ a ∈ s.attempts u, a.frame.toNat = id

/-- The reader has the contexts of the attempts. -/
structure Joint (m : Machine) (tid : Option Nat) (s : State) : Prop where
  indexed : Indexed (s.reader tid)
  contexts : ∀ t : ThreadId, Admits tid t.1.toNat →
    contextsOf (s.reader tid).stamps t.1.toNat = s.contexts m t
  flags : ∀ f ∈ (s.reader tid).output, FlagOk s.Closed f
  shape : ∀ p ∈ (s.reader tid).stamps, p.2 = .none ∨
    p.2.mode ≠ 0 ∧ ∃ t : ThreadId, p.1 = t.1.toNat ∧ Admits tid t.1.toNat

theorem SessionStart.joint (h : SessionStart s) : Joint m tid s := by
  have hreader : s.reader tid = readRecords tid [] := by rw [State.reader, h.records, List.map_nil]
  constructor
  · rw [hreader]
    exact .empty
  · intro t _
    rw [hreader, State.contexts, State.allAttempts, h.attempts t, h.outside t]
    rfl
  · intro f hf
    rw [hreader] at hf
    exact absurd hf List.not_mem_nil
  · intro p hp
    rw [hreader] at hp
    exact absurd hp List.not_mem_nil

/-- The reader sees no difference. -/
theorem Joint.congr (h : Joint m tid s) (hreader : s'.reader tid = s.reader tid)
    (hcontexts : ∀ t, Admits tid t.1.toNat → s'.contexts m t = s.contexts m t)
    (hclosed : ∀ t id, s.Closed t id → s'.Closed t id) : Joint m tid s' where
  indexed := hreader ▸ h.indexed
  contexts t ht := by
    rw [hreader, hcontexts t ht]
    exact h.contexts t ht
  flags f hf := (h.flags f (hreader ▸ hf)).mono hclosed
  shape p hp := h.shape p (hreader ▸ hp)

theorem readRecords_concat (tid : Option Nat) (records : List Record) (rec : Record) :
    readRecords tid (records ++ [rec]) =
      if tid.all (rec.threadId == ·) then (readRecords tid records).feed rec
      else readRecords tid records := by
  rw [readRecords, readRecords, List.filter_append, List.foldl_append, List.filter_singleton]
  split
  next htid =>
    rw [htid]
    rfl
  next htid =>
    rw [Bool.not_eq_true] at htid
    rw [htid]
    rfl

/-- A record of a thread that the reader does not take. -/
theorem State.reader_of_not_admits {e : Event} (hrecords : s'.records = s.records ++ [e])
    (hnot : ¬ Admits tid e.threadId.toNat) : s'.reader tid = s.reader tid := by
  rw [State.reader, hrecords, List.map_append, List.map_singleton, readRecords_concat]
  exact if_neg hnot

theorem State.reader_of_admits {e : Event} (hrecords : s'.records = s.records ++ [e])
    (hadmits : Admits tid e.threadId.toNat) :
    s'.reader tid = (s.reader tid).feed e.toRecord := by
  rw [State.reader, hrecords, List.map_append, List.map_singleton, readRecords_concat]
  exact if_pos hadmits

theorem State.mem_contexts {c : Context} :
    c ∈ s.contexts m t ↔ ∃ a ∈ s.allAttempts t, a.context m = some c := by
  rw [State.contexts, List.mem_filterMap]

theorem Attempt.frameId_context {a : Attempt} {c : Context} (h : a.context m = some c) :
    c.frameId = a.frame.toNat ∧ c.mode ≠ 0 := by
  rw [Attempt.context] at h
  split at h
  next =>
    obtain rfl := Option.some.inj h
    refine ⟨rfl, ?_⟩
    change (if a.baseline = true then (1 : UInt64) else 2).toNat ≠ 0
    split
    · decide
    · decide
  next => cases h

/-- The contexts of ended attempts are closed. -/
theorem State.closed_of_context {c : Context} {a : Attempt} (ha : a ∈ s.attempts t)
    (hc : a.context m = some c) : s.Closed t.1.toNat c.frameId :=
  ⟨t, rfl, a, ha, (Attempt.frameId_context hc).1.symm⟩

/-! ## Other records -/

/-- A record of another kind is attached while its thread is outside. -/
theorem Joint.other (h : Joint m tid s) {e : Event} (hidle : s.threads t = .idle)
    (hthread : e.threadId = t.1) (hkind : e.kind ≠ eventRegSnapshot)
    (hrecords : s'.records = s.records ++ [e]) (hattempts : s'.attempts = s.attempts)
    (hthreads : s'.threads = s.threads) : Joint m tid s' := by
  have hcontexts : ∀ u, s'.contexts m u = s.contexts m u := by
    intro u
    rw [State.contexts, State.allAttempts, hattempts, hthreads]
    rfl
  have hclosed : ∀ u id, s.Closed u id → s'.Closed u id := by
    intro u id hu
    rw [State.Closed, hattempts]
    exact hu
  by_cases hadmits : Admits tid e.threadId.toNat
  · have hreader := State.reader_of_admits hrecords hadmits
    by_cases hmarker : e.toRecord.kind = kindMarker
    · refine h.congr ?_ (fun u _ => hcontexts u) hclosed
      rw [hreader, Reader.feed, if_pos hmarker]
    · have hother : e.toRecord.kind ≠ kindRegSnapshot := by
        intro heq
        exact hkind (UInt32.toNat_inj.mp heq)
      rw [Reader.feed, if_neg hmarker, if_neg hother] at hreader
      have hended : ∀ c ∈ contextsOf (s.reader tid).stamps e.toRecord.threadId,
          s.Closed e.toRecord.threadId c.frameId := by
        intro c hc
        rw [Event.toRecord_threadId, hthread] at hc ⊢
        rw [h.contexts t (hthread ▸ hadmits), State.mem_contexts] at hc
        obtain ⟨a, ha, hc⟩ := hc
        rw [State.allAttempts, hidle] at ha
        exact State.closed_of_context ((List.append_nil _).subst ha) hc
      obtain ⟨hindexed, hflags, extra, hextra, hstamps⟩ := h.indexed.feedOther h.flags hended
      refine ⟨hreader ▸ hindexed, fun u hu => ?_, fun f hf => ?_, fun p hp => ?_⟩
      · have hnil : contextsOf extra u.1.toNat = [] := by
          rw [List.eq_nil_iff_forall_not_mem]
          intro c hc
          obtain ⟨hmem, hmode⟩ := mem_contextsOf.mp hc
          exact hmode (congrArg Context.mode (hextra _ hmem))
        rw [hreader, hstamps, contextsOf_append, hnil, List.append_nil, h.contexts u hu, hcontexts]
      · exact (hflags f (hreader ▸ hf)).mono hclosed
      · rw [hreader, hstamps] at hp
        rcases List.mem_append.mp hp with hp | hp
        · exact h.shape p hp
        · exact .inl (hextra p hp)
  · exact h.congr (State.reader_of_not_admits hrecords hadmits) (fun u _ => hcontexts u) hclosed

/-! ## Submits -/

variable {a : Attempt} {e : Event}

/-- The first submit sends the header. -/
theorem Attempt.context_next_nil (hnil : a.outcomes = []) (ok : Bool) :
    a.context m = none ∧ (a.next ok).context m =
      if ok then some (Record.headerContext a.header.toRecord) else none := by
  rw [Attempt.context, Attempt.context, Attempt.next, hnil]
  refine ⟨rfl, ?_⟩
  cases ok with
  | false => rfl
  | true =>
      rw [if_pos rfl]
      dsimp only [List.nil_append]
      rw [survivors_nil]
      rfl

/-- A later submit sends a component. -/
theorem Attempt.context_next_cons (hnil : a.outcomes ≠ [])
    (he : (a.events m)[a.outcomes.length]? = some e) (ok : Bool) :
    e ∈ a.components m ∧ (a.next ok).context m = (a.context m).map fun c =>
      { c with parts := c.parts ++ if ok then [Record.contextPart e.toRecord] else [] } := by
  obtain ⟨o, oks, houtcomes⟩ := List.exists_cons_of_ne_nil hnil
  rw [houtcomes, Attempt.events, List.length_cons, List.getElem?_cons_succ] at he
  refine ⟨List.mem_of_getElem? he, ?_⟩
  have hpart : (a.parts m)[oks.length]? = some (Record.contextPart e.toRecord) := by
    rw [Attempt.parts, List.getElem?_map, he]
    rfl
  rw [Attempt.context, Attempt.context, Attempt.next, houtcomes]
  cases o with
  | false => rfl
  | true =>
      dsimp only [List.cons_append, Option.map_some]
      rw [← survivors_concat hpart ok]
      rfl

theorem Attempt.Ok.component (h : a.Ok m t) (he : e ∈ a.components m) :
    e.kind = eventRegSnapshot ∧ e.threadId = t.1 ∧ e.arg7 = a.frame ∧ e.toRecord.arg0 ≠ 0 := by
  obtain ⟨i, -, he⟩ := List.mem_flatMap.mp he
  split at he
  next hi =>
    obtain ⟨k, -, rfl⟩ := List.mem_map.mp he
    refine ⟨rfl, congrArg Subtype.val h.thread, rfl, ?_⟩
    have hreg := a.part_reg (m := m) i k
    change (a.part m i k).reg ≠ 0
    rw [hreg]
    exact contextReg_ne_zero (h.width hi)
  next => exact absurd he List.not_mem_nil

/-- The attempts of the threads after a submit. -/
theorem Submitted.allAttempts {outcome : Option UInt64} (h : Submitted m s s' t a e outcome)
    (u : ThreadId) : s'.allAttempts u =
      if u = t then s.attempts t ++ [a.next outcome.isSome] else s.allAttempts u := by
  split
  next hu =>
    rw [hu]
    exact h.attempts
  next hu => rw [State.allAttempts, State.allAttempts, (h.others u hu).1, (h.others u hu).2]

theorem Submitted.closed {outcome : Option UInt64} (h : Submitted m s s' t a e outcome)
    (u id : Nat) (hclosed : s.Closed u id) : s'.Closed u id := by
  obtain ⟨v, rfl, b, hb, hid⟩ := hclosed
  refine ⟨v, rfl, b, ?_, hid⟩
  by_cases hv : v = t
  · rw [hv] at hb ⊢
    exact h.ended.subset hb
  · rw [(h.others v hv).1]
    exact hb

theorem Submitted.current {outcome : Option UInt64} (h : Submitted m s s' t a e outcome) :
    s.allAttempts t = s.attempts t ++ [a] := by
  obtain ⟨slot, hpc⟩ := h.pc
  rw [State.allAttempts, hpc]
  rfl

/-- The ids of the ended attempts are smaller than that of the current one. -/
theorem Submitted.lt {outcome : Option UInt64} (h : Submitted m s s' t a e outcome)
    (hnumbered : Numbered start s) {b : Attempt} (hb : b ∈ s.attempts t) :
    b.frame.toNat < a.frame.toNat := by
  obtain ⟨slot, hpc⟩ := h.pc
  have hids := (hnumbered.ids t).1
  rw [State.ids, hpc] at hids
  exact (List.pairwise_append.mp hids).2.2 _ (List.mem_map_of_mem hb) _ List.mem_cons_self

/-- The snapshot that submits is not closed. -/
theorem Submitted.not_closed {outcome : Option UInt64} (h : Submitted m s s' t a e outcome)
    (hnumbered : Numbered start s) : ¬ s.Closed t.1.toNat a.frame.toNat := by
  rintro ⟨u, hu, b, hb, hid⟩
  obtain rfl : u = t := Subtype.ext (UInt32.toNat_inj.mp hu)
  exact absurd hid (h.lt hnumbered hb).ne

/-- A dropped record changes no context. -/
theorem Joint.dropped (h : Joint m tid s) (hsubmitted : Submitted m s s' t a e none) :
    Joint m tid s' := by
  refine h.congr ?_ (fun u _ => ?_) hsubmitted.closed
  · rw [State.reader, hsubmitted.records]
    simp [State.reader]
  · rw [State.contexts, hsubmitted.allAttempts]
    split
    next hu =>
      have hsame : (a.next false).context m = a.context m := by
        by_cases hnil : a.outcomes = []
        · obtain ⟨hnone, hnext⟩ := Attempt.context_next_nil (m := m) hnil false
          rw [hnext, hnone]
          rfl
        · rw [(Attempt.context_next_cons hnil hsubmitted.event false).2]
          cases a.context m with
          | none => rfl
          | some c => simp
      rw [hu, State.contexts, hsubmitted.current, List.filterMap_append, List.filterMap_append]
      refine congrArg (List.filterMap (Attempt.context m) (s.attempts t) ++ ·) ?_
      rw [List.filterMap_cons, List.filterMap_cons, Option.isSome_none, hsame]
    next => rfl

/-- A record of an attempt that the reader does not take. -/
theorem Joint.ignored (h : Joint m tid s) {sequence : UInt64}
    (hsubmitted : Submitted m s s' t a e (some sequence)) (hthread : e.threadId = t.1)
    (hnot : ¬ Admits tid t.1.toNat) : Joint m tid s' := by
  refine h.congr (State.reader_of_not_admits hsubmitted.records (by rwa [hthread])) (fun u hu => ?_)
    hsubmitted.closed
  rw [State.contexts, hsubmitted.allAttempts, if_neg (show ¬ u = t from fun heq => hnot (heq ▸ hu))]
  rfl

theorem feed_regSnapshot (r : Reader) (hkind : e.kind = eventRegSnapshot) :
    r.feed e.toRecord = r.feedContext e.toRecord := by
  have hrecord : e.toRecord.kind = kindRegSnapshot := by
    rw [Event.toRecord_kind, hkind]
    rfl
  rw [Reader.feed, if_neg (by rw [hrecord]; decide), if_pos hrecord]

theorem contextsOf_singleton {u : ThreadId} {c : Context} (hmode : c.mode ≠ 0) :
    contextsOf [(t.1.toNat, c)] u.1.toNat = if u = t then [c] else [] := by
  split
  next hu => simp [contextsOf, hu, hmode]
  next hu =>
    have hne : t.1.toNat ≠ u.1.toNat := fun heq =>
      hu (Subtype.ext (UInt32.toNat_inj.mp heq.symm))
    simp [contextsOf, hne]

/-- The header of an attempt opens its frame. -/
theorem Joint.header (h : Joint m tid s) (hnumbered : Numbered start s) {sequence : UInt64}
    (hsubmitted : Submitted m s s' t a e (some sequence)) (hok : a.Ok m t)
    (hnil : a.outcomes = []) (hadmits : Admits tid t.1.toNat) : Joint m tid s' := by
  have he : a.header = e := by
    have hevent := hsubmitted.event
    rw [hnil] at hevent
    exact Option.some.inj hevent
  have hthread : a.header.threadId = t.1 := congrArg Subtype.val hok.thread
  obtain ⟨hnone, hnext⟩ := Attempt.context_next_nil (m := m) hnil true
  have hmode : (Record.headerContext a.header.toRecord).mode ≠ 0 :=
    (Attempt.frameId_context hnext).2
  have hid := (Attempt.frameId_context hnext).1
  subst he
  obtain ⟨rec, hreader, hzero, hrec, hcontext⟩ : ∃ rec,
      s'.reader tid = (s.reader tid).feedContext rec ∧ rec.arg0 = 0 ∧ rec.threadId = t.1.toNat ∧
        Record.headerContext rec = Record.headerContext a.header.toRecord := by
    have hreader := State.reader_of_admits hsubmitted.records (hthread ▸ hadmits)
    rw [feed_regSnapshot _ rfl] at hreader
    exact ⟨_, hreader, rfl, congrArg UInt32.toNat hthread, rfl⟩
  rw [← hcontext] at hmode hid hnext
  have hnew : ∀ c ∈ contextsOf (s.reader tid).stamps rec.threadId, c.frameId ≠ rec.arg7 := by
    intro c hc heq
    rw [hrec, h.contexts t hadmits, State.mem_contexts, hsubmitted.current] at hc
    obtain ⟨b, hb, hc⟩ := hc
    have heq : b.frame.toNat = a.frame.toNat := (Attempt.frameId_context hc).1.symm.trans
      (heq.trans hid)
    rcases List.mem_append.mp hb with hb | hb
    · exact absurd heq (hsubmitted.lt hnumbered hb).ne
    · rw [List.mem_singleton.mp hb, hnone] at hc
      cases hc
  obtain ⟨hindexed, hstamps⟩ := h.indexed.header hzero hmode hnew
  rw [← hreader, hrec] at hstamps
  refine ⟨hreader ▸ hindexed, fun u hu => ?_, fun f hf => ?_, fun p hp => ?_⟩
  · rw [hstamps, contextsOf_append, h.contexts u hu, contextsOf_singleton hmode, State.contexts,
      State.contexts, hsubmitted.allAttempts]
    split
    next heq =>
      rw [heq, hsubmitted.current, List.filterMap_append, List.filterMap_append,
        List.filterMap_cons, List.filterMap_cons, hnone, Option.isSome_some, hnext]
      simp
    next => rw [List.append_nil]
  · rw [hreader, Reader.feedContext, if_pos hzero] at hf
    rcases List.mem_append.mp hf with hf | hf
    · exact (h.flags f hf).mono hsubmitted.closed
    · rw [List.mem_singleton.mp hf]
      exact fun _ hflag => by cases hflag
  · rw [hstamps] at hp
    rcases List.mem_append.mp hp with hp | hp
    · exact h.shape p hp
    · rw [List.mem_singleton.mp hp]
      exact .inr ⟨hmode, t, rfl, hadmits⟩

/-- Changing the one element that satisfies a predicate. -/
theorem modify_eq_map {α : Type*} {l : List α} {i : Nat} {g : α → α} {p : α → Prop}
    [DecidablePred p] (h : ∀ j b, l[j]? = some b → (p b ↔ i = j)) :
    l.modify i g = l.map fun b => if p b then g b else b := by
  refine List.ext_getElem? fun j => ?_
  rw [List.getElem?_map]
  cases hj : l[j]? with
  | none =>
      by_cases hij : i = j
      · rw [hij, List.getElem?_modify_eq, hj]
        rfl
      · rw [List.getElem?_modify_ne _ _ hij, hj]
        rfl
  | some b =>
      rw [Option.map_some]
      by_cases hij : i = j
      · rw [if_pos ((h j b hj).mpr hij), hij, List.getElem?_modify_eq, hj]
        rfl
      · rw [if_neg fun hb => hij ((h j b hj).mp hb), List.getElem?_modify_ne _ _ hij, hj]

/-- A context with one more part. -/
def Context.add (c : Context) (p : ContextPart) : Context := { c with parts := c.parts ++ [p] }

/-- Extending the context with a key in a list of stamps. -/
def extend (t id : Nat) (part : ContextPart) (p : Nat × Context) : Nat × Context :=
  if p.1 = t ∧ p.2.frameId = id ∧ p.2.mode ≠ 0 then (p.1, p.2.add part) else p

theorem extend_fst (t id : Nat) (part : ContextPart) (p : Nat × Context) :
    (extend t id part p).1 = p.1 ∧ (extend t id part p).2.mode = p.2.mode ∧
      (extend t id part p).2.frameId = p.2.frameId := by
  rw [extend]
  split
  · exact ⟨rfl, rfl, rfl⟩
  · exact ⟨rfl, rfl, rfl⟩

theorem contextsOf_extend (l : List (Nat × Context)) (t id u : Nat) (part : ContextPart) :
    contextsOf (l.map (extend t id part)) u =
      (contextsOf l u).map fun c => if u = t ∧ c.frameId = id then c.add part else c := by
  induction l with
  | nil => rfl
  | cons p l ih =>
      obtain ⟨hthread, hmode, -⟩ := extend_fst t id part p
      rw [List.map_cons, contextsOf_cons, contextsOf_cons, ih, hthread, hmode, List.map_append]
      split
      next hq =>
        obtain ⟨rfl, hq⟩ := hq
        refine congrArg (· ++ _) ?_
        rw [List.map_singleton, extend]
        by_cases hkey : p.1 = t ∧ p.2.frameId = id
        · rw [if_pos ⟨hkey.1, hkey.2, hq⟩, if_pos hkey]
        · rw [if_neg fun h => hkey ⟨h.1, h.2.1⟩, if_neg hkey]
      next => rfl

/-- A component extends the context with its key. -/
theorem Indexed.stamps_component {r : Reader} (h : Indexed r) {rec : Record}
    (hzero : rec.arg0 ≠ 0) : (r.feedContext rec).stamps =
      r.stamps.map (extend rec.threadId rec.arg7 (Record.contextPart rec)) := by
  rw [Reader.feedContext_component hzero]
  have hkey : ∀ j p, r.stamps[j]? = some p →
      (p.1 = rec.threadId ∧ p.2.frameId = rec.arg7 ∧ p.2.mode ≠ 0 ↔
        r.contextFrames (rec.threadId, rec.arg7) = some j) := by
    intro j p hp
    rw [h.contexts, hp]
    constructor
    · rintro ⟨hthread, hid, hmode⟩
      exact ⟨p.2, by rw [← hthread], hid, hmode⟩
    · rintro ⟨c, hc, hid, hmode⟩
      obtain rfl := Option.some.inj hc
      exact ⟨rfl, hid, hmode⟩
  cases hframe : r.contextFrames (rec.threadId, rec.arg7) with
  | none =>
      dsimp only
      conv_lhs => rw [← List.map_id r.stamps]
      refine List.map_congr_left fun p hp => ?_
      obtain ⟨j, hj⟩ := List.mem_iff_getElem?.mp hp
      rw [extend, if_neg]
      · rfl
      · intro hp
        rw [(hkey j p hj).mp hp] at hframe
        exact absurd hframe nofun
  | some i =>
      refine modify_eq_map (p := fun p : Nat × Context =>
        p.1 = rec.threadId ∧ p.2.frameId = rec.arg7 ∧ p.2.mode ≠ 0) fun j p hp => ?_
      rw [hkey j p hp, hframe, Option.some_inj]

/-- The references stay when contexts are extended. -/
theorem Indexed.component {r : Reader} (h : Indexed r) {rec : Record} (hzero : rec.arg0 ≠ 0) :
    Indexed (r.feedContext rec) := by
  have hstamps := h.stamps_component hzero
  have hfields : (r.feedContext rec).active = r.active ∧
      (r.feedContext rec).contextFrames = r.contextFrames ∧
        (r.feedContext rec).pendingSyscall = r.pendingSyscall := by
    rw [Reader.feedContext, if_neg hzero]
    cases r.contextFrames (rec.threadId, rec.arg7) with
    | none => exact ⟨rfl, rfl, rfl⟩
    | some i => exact ⟨rfl, rfl, rfl⟩
  have hat : ∀ {t i}, r.At t i → (r.feedContext rec).At t i := by
    rintro t i ⟨c, hc⟩
    refine ⟨(extend rec.threadId rec.arg7 (Record.contextPart rec) (t, c)).2, ?_⟩
    rw [hstamps, List.getElem?_map, hc]
    exact congrArg some (Prod.ext (extend_fst _ _ _ _).1 rfl)
  refine ⟨fun hi => hat (h.active (hfields.1 ▸ hi)), fun hi => hat (h.pending (hfields.2.2 ▸ hi)),
    fun {t id i} => ?_⟩
  rw [hfields.2.1, h.contexts, hstamps, List.getElem?_map]
  constructor
  · rintro ⟨c, hc, hid, hmode⟩
    obtain ⟨hthread, hmode', hid'⟩ :=
      extend_fst rec.threadId rec.arg7 (Record.contextPart rec) (t, c)
    rw [hc]
    exact ⟨(extend rec.threadId rec.arg7 (Record.contextPart rec) (t, c)).2,
      congrArg some (Prod.ext hthread rfl), hid'.trans hid, hmode'.trans_ne hmode⟩
  · rintro ⟨c, hc, hid, hmode⟩
    obtain ⟨p, hp, heq⟩ := Option.map_eq_some_iff.mp hc
    obtain ⟨hthread, hmode', hid'⟩ := extend_fst rec.threadId rec.arg7 (Record.contextPart rec) p
    rw [heq] at hthread hmode' hid'
    exact ⟨p.2, by rw [hp]; exact congrArg some (Prod.ext hthread.symm rfl), hid'.symm.trans hid,
      hmode'.symm.trans_ne hmode⟩

/-- A component that is not dropped joins its context. -/
theorem Joint.component (h : Joint m tid s) (hnumbered : Numbered start s) {sequence : UInt64}
    (hsubmitted : Submitted m s s' t a e (some sequence)) (hok : a.Ok m t)
    (hnil : a.outcomes ≠ []) (hadmits : Admits tid t.1.toNat) : Joint m tid s' := by
  obtain ⟨he, hnext⟩ := Attempt.context_next_cons hnil hsubmitted.event true
  obtain ⟨hkind, hthread, hframe, hzero⟩ := hok.component he
  obtain ⟨rec, hreader, hzero, hrec, hid, hpart⟩ : ∃ rec,
      s'.reader tid = (s.reader tid).feedContext rec ∧ rec.arg0 ≠ 0 ∧ rec.threadId = t.1.toNat ∧
        rec.arg7 = a.frame.toNat ∧ Record.contextPart rec = Record.contextPart e.toRecord := by
    have hreader := State.reader_of_admits hsubmitted.records (hthread ▸ hadmits)
    have hfeed := feed_regSnapshot (e := { e with sequence := sequence }) (s.reader tid) hkind
    exact ⟨_, hreader.trans hfeed, hzero, congrArg UInt32.toNat hthread,
      congrArg UInt64.toNat hframe, rfl⟩
  have hstamps := h.indexed.stamps_component hzero
  rw [← hreader, hrec, hid, hpart] at hstamps
  have hindexed := h.indexed.component hzero
  rw [← hreader] at hindexed
  refine ⟨hindexed, fun u hu => ?_, fun f hf => ?_, fun p hp => ?_⟩
  · rw [hstamps, contextsOf_extend, h.contexts u hu, State.contexts, State.contexts,
      hsubmitted.allAttempts]
    by_cases hut : u = t
    · rw [if_pos hut, hut, hsubmitted.current, List.filterMap_append, List.filterMap_append,
        List.map_append]
      refine congrArg₂ (· ++ ·) ?_ ?_
      · conv_rhs => rw [← List.map_id (List.filterMap (Attempt.context m) (s.attempts t))]
        refine List.map_congr_left fun c hc => ?_
        obtain ⟨b, hb, hc⟩ := List.mem_filterMap.mp hc
        rw [if_neg, id]
        rw [(Attempt.frameId_context hc).1]
        exact fun heq => (hsubmitted.lt hnumbered hb).ne heq.2
      · rw [List.filterMap_cons, List.filterMap_cons, Option.isSome_some, hnext]
        cases hc : a.context m with
        | none => rfl
        | some c =>
            simp only [Option.map_some, List.filterMap_nil, List.map_cons, List.map_nil, if_true]
            rw [if_pos ⟨trivial, (Attempt.frameId_context hc).1⟩]
            rfl
    · have hne : u.1.toNat ≠ t.1.toNat := fun heq => hut (Subtype.ext (UInt32.toNat_inj.mp heq))
      rw [if_neg hut]
      conv_rhs => rw [← List.map_id (List.filterMap (Attempt.context m) (s.allAttempts u))]
      refine List.map_congr_left fun c _ => ?_
      rw [if_neg fun heq => hne heq.1, id]
  · refine FlagOk.mono ?_ hsubmitted.closed
    rw [hreader, Reader.feedContext, if_neg hzero] at hf
    cases hi : (s.reader tid).contextFrames (rec.threadId, rec.arg7) with
    | none =>
        rw [hi] at hf
        exact h.flags f hf
    | some i =>
        rw [hi] at hf
        rcases mem_modify hf with hf | ⟨f', hf', rfl⟩
        · exact h.flags f hf
        · -- The frame is not closed, so it has no flag yet.
          obtain ⟨c, hc, hcid, hmode⟩ := h.indexed.contexts.mp hi
          rw [Reader.stamps, List.getElem?_map, hf', Option.map_some, Option.some_inj] at hc
          obtain ⟨hfthread, hfcontext⟩ := Prod.mk.inj hc
          intro _ hflag
          have hclosed := (h.flags f' (List.mem_of_getElem? hf') (hfcontext ▸ hmode) hflag).2
          rw [hfthread, hfcontext, hcid, hrec, hid] at hclosed
          exact absurd hclosed (hsubmitted.not_closed hnumbered)
  · rw [hstamps] at hp
    obtain ⟨q, hq, rfl⟩ := List.mem_map.mp hp
    rw [extend]
    split
    next hkey => exact .inr ⟨hkey.2.2, t, hkey.1, hadmits⟩
    next => exact h.shape q hq

/-- Every step of the recorder keeps the reader in line. -/
theorem Joint.step {act : Action} (h : Joint m tid s) (hinv : Inv m s)
    (hnumbered : Numbered start s) (hstep : step m s act = some s') : Joint m tid s' := by
  cases act with
  | enter t rip reads =>
      simp only [Registers.step] at hstep
      split at hstep
      next hpc =>
        obtain rfl := Option.some.inj hstep
        refine h.congr rfl (fun u _ => ?_) fun _ _ hclosed => hclosed
        rw [State.contexts, State.contexts, State.allAttempts, State.allAttempts]
        dsimp only [State.goto]
        by_cases hu : u = t
        · rw [hu, Function.update_self, hpc]
          rfl
        · rw [Function.update_of_ne hu]
      next => cases hstep
  | slot t =>
      obtain ⟨pc, hmoved⟩ := step_slot hstep
      refine h.congr ?_ (fun u _ => ?_) fun u id hclosed => ?_
      · rw [State.reader, State.reader, hmoved.records]
      · rw [State.contexts, State.contexts, State.allAttempts, State.allAttempts, hmoved.attempts,
          hmoved.threads]
        by_cases hu : u = t
        · have hnil : pc.attempts.filterMap (Attempt.context m) = [] := by
            rw [List.filterMap_eq_nil_iff]
            exact fun a ha => (Attempt.context_next_nil (hmoved.after a ha) true).1
          rw [hu, Function.update_self, hmoved.before, List.filterMap_append, List.filterMap_append,
            hnil]
          rfl
        · rw [Function.update_of_ne hu]
      · rw [State.Closed, hmoved.attempts]
        exact hclosed
  | submit t outcome =>
      obtain ⟨a, e, hsubmitted⟩ := step_submit hstep
      cases outcome with
      | none => exact h.dropped hsubmitted
      | some sequence =>
          obtain ⟨slot, hpc⟩ := hsubmitted.pc
          have hknows := hinv.threads t
          rw [hpc] at hknows
          have hok := hknows.1
          by_cases hnil : a.outcomes = []
          · by_cases hadmits : Admits tid t.1.toNat
            · exact h.header hnumbered hsubmitted hok hnil hadmits
            · refine h.ignored hsubmitted ?_ hadmits
              have hevent := hsubmitted.event
              rw [hnil] at hevent
              obtain rfl : a.header = e := Option.some.inj hevent
              exact congrArg Subtype.val hok.thread
          · by_cases hadmits : Admits tid t.1.toNat
            · exact h.component hnumbered hsubmitted hok hnil hadmits
            · exact h.ignored hsubmitted
                (hok.component (Attempt.context_next_cons hnil hsubmitted.event true).1).2.1 hadmits
  | other t e =>
      simp only [Registers.step] at hstep
      split at hstep
      next hpc =>
        split at hstep
        next hrecord =>
          obtain rfl := Option.some.inj hstep
          exact h.other hpc hrecord.1 hrecord.2 rfl rfl rfl
        next => cases hstep
      next => cases hstep
  | marker e =>
      simp only [Registers.step] at hstep
      split at hstep
      next hkind =>
        obtain rfl := Option.some.inj hstep
        refine h.congr ?_ (fun _ _ => rfl) fun _ _ hclosed => hclosed
        by_cases hadmits : Admits tid e.threadId.toNat
        · rw [State.reader_of_admits rfl hadmits, Reader.feed, if_pos]
          rw [Event.toRecord_kind, hkind]
          rfl
        · exact State.reader_of_not_admits rfl hadmits
      next => cases hstep

end PinBridge.Registers
