import PinBridge.Registers.Frames

/-!
# How the reader moves

The part of a frame that decides how its context is applied is its `stamp`, the thread and the
context.  Attaching other records and applying contexts leave the stamps alone, a header adds one,
and a component extends the one with its thread and frame id.  `Indexed` says that the references
of the reader lead to frames of the right thread, and that a snapshot is found by its key.

A frame is flagged incomplete only when something of its context is missing at that time.
`FlagOk` keeps this for frames that get no more components.
-/

namespace PinBridge.Registers

/-! ## Stamps -/

/-- The thread and the context of a frame. -/
def TraceFrame.stamp (f : TraceFrame) : Nat × Context := (f.threadId, f.context)

/-- The stamps of the output. -/
def Reader.stamps (r : Reader) : List (Nat × Context) := r.output.map TraceFrame.stamp

/-- The contexts of the snapshots of a thread. -/
def contextsOf (stamps : List (Nat × Context)) (t : Nat) : List Context :=
  (stamps.filter fun p => p.1 = t ∧ p.2.mode ≠ 0).map Prod.snd

theorem contextsOf_append (l l' : List (Nat × Context)) (t : Nat) :
    contextsOf (l ++ l') t = contextsOf l t ++ contextsOf l' t := by
  simp [contextsOf]

theorem contextsOf_cons (p : Nat × Context) (l : List (Nat × Context)) (t : Nat) :
    contextsOf (p :: l) t =
      (if p.1 = t ∧ p.2.mode ≠ 0 then [p.2] else []) ++ contextsOf l t := by
  rw [contextsOf, contextsOf, List.filter_cons]
  split
  next hp =>
    rw [if_pos (by simpa using hp)]
    rfl
  next hp =>
    rw [if_neg (by simpa using hp)]
    rfl

theorem mem_contextsOf {l : List (Nat × Context)} {t : Nat} {c : Context} :
    c ∈ contextsOf l t ↔ (t, c) ∈ l ∧ c.mode ≠ 0 := by
  simp [contextsOf]

variable {r r' : Reader} {f : TraceFrame} {rec : Record} {i : Nat}

@[simp] theorem TraceFrame.stamp_apply (f : TraceFrame) (old : Nat → Option (List UInt8)) :
    (f.apply old).stamp = f.stamp := by
  unfold TraceFrame.apply
  split
  · rfl
  · rfl

@[simp] theorem TraceFrame.stamp_attach (f : TraceFrame) (rec : Record) :
    (f.attach rec).stamp = f.stamp := by
  unfold TraceFrame.attach
  dsimp only
  split_ifs <;> rfl

@[simp] theorem TraceFrame.contextComplete_attach (f : TraceFrame) (rec : Record) :
    (f.attach rec).contextComplete = f.contextComplete := by
  unfold TraceFrame.attach
  dsimp only
  split_ifs <;> rfl

theorem mem_modify {α : Type*} {l : List α} {i : Nat} {g : α → α} {b : α}
    (h : b ∈ l.modify i g) : b ∈ l ∨ ∃ a, l[i]? = some a ∧ b = g a := by
  obtain ⟨j, hj⟩ := List.mem_iff_getElem?.mp h
  by_cases hij : i = j
  · subst hij
    rw [List.getElem?_modify_eq] at hj
    obtain ⟨a, ha, rfl⟩ := Option.map_eq_some_iff.mp hj
    exact .inr ⟨a, ha, rfl⟩
  · rw [List.getElem?_modify_ne _ _ hij] at hj
    exact .inl (List.mem_of_getElem? hj)

/-- Changing a frame at its position keeps the stamps if it keeps the stamp of the frame. -/
theorem map_modify_of_eq {α β : Type*} {g : α → β} {h : α → α} (hgh : ∀ a, g (h a) = g a)
    (l : List α) (i : Nat) : (l.modify i h).map g = l.map g := by
  refine List.ext_getElem? fun j => ?_
  rw [List.getElem?_map, List.getElem?_map]
  by_cases hij : i = j
  · subst hij
    rw [List.getElem?_modify_eq]
    cases l[i]? with
    | none => rfl
    | some a => exact congrArg some (hgh a)
  · rw [List.getElem?_modify_ne _ _ hij]

theorem Reader.output_applyContext (r : Reader) (i : Nat) :
    (r.applyContext i).output = r.output.modify i fun f =>
      if f.context.frameId = 0 then f else f.apply (r.registerState f.threadId) := by
  refine List.ext_getElem? fun j => ?_
  unfold Reader.applyContext
  by_cases hij : i = j
  · subst hij
    rw [List.getElem?_modify_eq]
    cases hi : r.output[i]? with
    | none => exact hi
    | some f =>
        dsimp only
        split
        next hzero => exact hi.trans (congrArg some (if_pos hzero).symm)
        next hne =>
          rw [List.getElem?_set_self (List.getElem?_eq_some_iff.mp hi).1]
          exact congrArg some (if_neg hne).symm
  · rw [List.getElem?_modify_ne _ _ hij]
    cases r.output[i]? with
    | none => rfl
    | some f =>
        dsimp only
        split
        next => rfl
        next => exact List.getElem?_set_ne hij

@[simp] theorem Reader.stamps_applyContext (r : Reader) (i : Nat) :
    (r.applyContext i).stamps = r.stamps := by
  unfold Reader.stamps
  rw [Reader.output_applyContext]
  refine map_modify_of_eq (fun f => ?_) _ _
  split
  · rfl
  · exact TraceFrame.stamp_apply _ _

/-- The registers are attached to a frame, and the references stay. -/
theorem Reader.references_applyContext (r : Reader) (i : Nat) :
    (r.applyContext i).active = r.active ∧ (r.applyContext i).contextFrames = r.contextFrames ∧
      (r.applyContext i).pendingSyscall = r.pendingSyscall := by
  unfold Reader.applyContext
  cases r.output[i]? with
  | none => exact ⟨rfl, rfl, rfl⟩
  | some f =>
      dsimp only
      split
      · exact ⟨rfl, rfl, rfl⟩
      · exact ⟨rfl, rfl, rfl⟩

/-! ## References -/

/-- The position holds a frame of the thread. -/
def Reader.At (r : Reader) (t i : Nat) : Prop := ∃ c, r.stamps[i]? = some (t, c)

/-- References point to frames of their thread, and the snapshots are found by thread and
frame id. -/
structure Indexed (r : Reader) : Prop where
  active : ∀ {t i}, r.active t = some i → r.At t i
  pending : ∀ {t i}, r.pendingSyscall t = some i → r.At t i
  contexts : ∀ {t id i}, r.contextFrames (t, id) = some i ↔
    ∃ c, r.stamps[i]? = some (t, c) ∧ c.frameId = id ∧ c.mode ≠ 0

theorem Indexed.empty : Indexed .empty where
  active := nofun
  pending := nofun
  contexts := ⟨nofun, fun ⟨_, h, _⟩ => nomatch h⟩

/-- A reader with the same stamps. -/
theorem Indexed.congr (h : Indexed r) (hstamps : r'.stamps = r.stamps)
    (hactive : r'.active = r.active) (hcontexts : r'.contextFrames = r.contextFrames)
    (hpending : ∀ {t i}, r'.pendingSyscall t = some i → r.At t i) : Indexed r' where
  active hi := by
    rw [Reader.At, hstamps]
    exact h.active (hactive ▸ hi)
  pending hi := by
    rw [Reader.At, hstamps]
    exact hpending hi
  contexts := by
    rw [hcontexts, hstamps]
    exact h.contexts

/-! ## Flags -/

/-- A frame flagged incomplete misses something, and is closed. -/
def FlagOk (closed : Nat → Nat → Prop) (f : TraceFrame) : Prop :=
  f.context.mode ≠ 0 → f.contextComplete = false →
    ¬ f.context.Ok ∧ closed f.threadId f.context.frameId

theorem FlagOk.mono {closed closed' : Nat → Nat → Prop} (h : FlagOk closed f)
    (hle : ∀ t id, closed t id → closed' t id) : FlagOk closed' f :=
  fun hmode hflag => ⟨(h hmode hflag).1, hle _ _ (h hmode hflag).2⟩

theorem FlagOk.congr {closed : Nat → Nat → Prop} {f' : TraceFrame} (h : FlagOk closed f)
    (hstamp : f'.stamp = f.stamp) (hflag : f'.contextComplete = f.contextComplete) :
    FlagOk closed f' := by
  obtain ⟨hthread, hcontext⟩ := Prod.mk.inj hstamp
  rw [FlagOk, hthread, hcontext, hflag]
  exact h

/-- Applying a closed context flags the frame only if something is missing. -/
theorem FlagOk.apply {closed : Nat → Nat → Prop} (h : FlagOk closed f)
    (hclosed : f.context.mode ≠ 0 → closed f.threadId f.context.frameId)
    (old : Nat → Option (List UInt8)) : FlagOk closed (f.apply old) := by
  unfold TraceFrame.apply
  split
  next => exact h
  next hnot => exact fun hmode _ => ⟨hnot, hclosed hmode⟩

/-! ## Headers and components -/

/-- The context of a frame that is not a snapshot. -/
def Context.none : Context := ⟨0, 0, (0, 0), []⟩

theorem Reader.stamps_newFrame (r : Reader) (rec : Record) (c : Context) :
    (r.newFrame rec c).stamps = r.stamps ++ [(rec.threadId, c)] := by
  simp [Reader.newFrame, Reader.stamps, TraceFrame.new, TraceFrame.stamp]

theorem Reader.length_stamps (r : Reader) : r.stamps.length = r.output.length :=
  List.length_map _

/-- The frame of an earlier position stays. -/
theorem Reader.At.newFrame {t : Nat} (h : r.At t i) (rec : Record) (c : Context) :
    (r.newFrame rec c).At t i := by
  obtain ⟨c', hc'⟩ := h
  refine ⟨c', ?_⟩
  rw [Reader.stamps_newFrame, List.getElem?_append_left (List.getElem?_eq_some_iff.mp hc').1, hc']

theorem Reader.at_newFrame (r : Reader) (rec : Record) (c : Context) :
    (r.newFrame rec c).At rec.threadId r.output.length := by
  refine ⟨c, ?_⟩
  rw [Reader.stamps_newFrame, ← Reader.length_stamps, List.getElem?_concat_length]

/-- A new frame that is not a snapshot. -/
theorem Indexed.newFrame (h : Indexed r) (rec : Record) : Indexed (r.newFrame rec .none) where
  active := by
    intro t i hi
    dsimp only [Reader.newFrame] at hi
    by_cases ht : t = rec.threadId
    · rw [ht, Function.update_self] at hi
      obtain rfl := Option.some.inj hi
      rw [ht]
      exact r.at_newFrame rec .none
    · rw [Function.update_of_ne ht] at hi
      exact (h.active hi).newFrame rec .none
  pending hi := (h.pending hi).newFrame rec .none
  contexts := by
    intro t id i
    refine h.contexts.trans (exists_congr fun c => ?_)
    rw [Reader.stamps_newFrame, List.getElem?_append]
    split
    next => rfl
    next hge =>
      rw [List.getElem?_eq_none (Nat.not_lt.mp hge)]
      refine iff_of_false (fun h => absurd h.1 nofun) fun ⟨hc, _, hmode⟩ => ?_
      obtain ⟨_, hc⟩ := List.getElem?_eq_some_iff.mp hc
      rw [List.getElem_singleton, Prod.mk.injEq] at hc
      exact hmode (hc.2 ▸ rfl)

/-- A header opens a frame with an id that is new for the thread. -/
theorem Indexed.header (h : Indexed r) (hzero : rec.arg0 = 0) (hmode : rec.arg3 ≠ 0)
    (hnew : ∀ c ∈ contextsOf r.stamps rec.threadId, c.frameId ≠ rec.arg7) :
    Indexed (r.feedContext rec) ∧
      (r.feedContext rec).stamps = r.stamps ++ [(rec.threadId, Record.headerContext rec)] := by
  have hstamps : (r.feedContext rec).stamps =
      r.stamps ++ [(rec.threadId, Record.headerContext rec)] := by
    rw [Reader.feedContext, if_pos hzero]
    exact r.stamps_newFrame rec _
  have hat : ∀ {t i}, r.At t i → (r.feedContext rec).At t i := by
    rintro t i ⟨c, hc⟩
    refine ⟨c, ?_⟩
    rw [hstamps, List.getElem?_append_left (List.getElem?_eq_some_iff.mp hc).1, hc]
  have hlast : (r.feedContext rec).stamps[r.output.length]? =
      some (rec.threadId, Record.headerContext rec) := by
    rw [hstamps, ← Reader.length_stamps, List.getElem?_concat_length]
  refine ⟨⟨fun {t i} hi => ?_, fun {t i} hi => ?_, fun {t id i} => ?_⟩, hstamps⟩
  · rw [Reader.feedContext, if_pos hzero] at hi
    dsimp only [Reader.newFrame] at hi
    by_cases ht : t = rec.threadId
    · rw [ht, Function.update_self] at hi
      obtain rfl := Option.some.inj hi
      exact ⟨_, ht ▸ hlast⟩
    · rw [Function.update_of_ne ht] at hi
      exact hat (h.active hi)
  · rw [Reader.feedContext, if_pos hzero] at hi
    exact hat (h.pending hi)
  · have hcontexts : (r.feedContext rec).contextFrames =
        Function.update r.contextFrames (rec.threadId, rec.arg7) (some r.output.length) := by
      rw [Reader.feedContext, if_pos hzero]
    rw [hcontexts]
    by_cases hkey : (t, id) = (rec.threadId, rec.arg7)
    · obtain ⟨rfl, rfl⟩ := Prod.mk.inj hkey
      rw [Function.update_self]
      constructor
      · intro hi
        obtain rfl := Option.some.inj hi
        exact ⟨_, hlast, rfl, hmode⟩
      · rintro ⟨c, hc, hid, hmode'⟩
        rw [hstamps, List.getElem?_append] at hc
        split at hc
        next =>
          exact absurd hid (hnew c (mem_contextsOf.mpr ⟨List.mem_of_getElem? hc, hmode'⟩))
        next hge =>
          have hlt := (List.getElem?_eq_some_iff.mp hc).1
          rw [List.length_singleton, Nat.lt_one_iff] at hlt
          rw [← Reader.length_stamps, Nat.le_antisymm (Nat.sub_eq_zero_iff_le.mp hlt)
            (Nat.not_lt.mp hge)]
    · rw [Function.update_of_ne hkey]
      refine h.contexts.trans (exists_congr fun c => ?_)
      rw [hstamps, List.getElem?_append]
      split
      next => rfl
      next hge =>
        rw [List.getElem?_eq_none (Nat.not_lt.mp hge)]
        refine iff_of_false (fun h => absurd h.1 nofun) fun ⟨hc, hid, _⟩ => ?_
        obtain ⟨_, hc⟩ := List.getElem?_eq_some_iff.mp hc
        rw [List.getElem_singleton, Prod.mk.injEq] at hc
        exact hkey (Prod.ext hc.1.symm (by rw [← hid, ← hc.2]; rfl))

/-- A component whose header is known extends its context. -/
theorem Reader.feedContext_component (hzero : rec.arg0 ≠ 0) :
    (r.feedContext rec).stamps = match r.contextFrames (rec.threadId, rec.arg7) with
      | some i => r.stamps.modify i fun p =>
          (p.1, { p.2 with parts := p.2.parts ++ [Record.contextPart rec] })
      | none => r.stamps := by
  rw [Reader.feedContext, if_neg hzero]
  dsimp only
  cases r.contextFrames (rec.threadId, rec.arg7) with
  | none => rfl
  | some i =>
      refine List.ext_getElem? fun j => ?_
      rw [Reader.stamps, Reader.stamps, List.getElem?_map]
      by_cases hij : i = j
      · subst hij
        rw [List.getElem?_modify_eq, List.getElem?_modify_eq, List.getElem?_map]
        cases r.output[i]? with
        | none => rfl
        | some f => rfl
      · rw [List.getElem?_modify_ne _ _ hij, List.getElem?_modify_ne _ _ hij, List.getElem?_map]

/-! ## Other records -/

/-- A record of another kind is attached to a frame of its thread, old or new. -/
theorem Indexed.frameFor (h : Indexed r) (rec : Record) :
    Indexed (r.frameFor rec).1 ∧ (r.frameFor rec).1.At rec.threadId (r.frameFor rec).2 ∧
      ((r.frameFor rec).1.output = r.output ∨
        (r.frameFor rec).1.output = r.output ++ [.new rec .none]) := by
  unfold Reader.frameFor
  generalize hr : (if r.exits rec then
    { r with pendingSyscall := Function.update r.pendingSyscall rec.threadId none } else r) = r'
  have houtput : r'.output = r.output := by
    rw [← hr]
    split
    · rfl
    · rfl
  have hstamps : r'.stamps = r.stamps := by rw [Reader.stamps, houtput, Reader.stamps]
  have hindexed : Indexed r' := by
    rw [← hr]
    split
    · refine ⟨h.active, fun {t i} hi => ?_, h.contexts⟩
      dsimp only at hi
      by_cases ht : t = rec.threadId
      · rw [ht, Function.update_self] at hi
        exact absurd hi nofun
      · rw [Function.update_of_ne ht] at hi
        exact h.pending hi
    · exact h
  have hfresh : Indexed (r'.newFrame rec .none) ∧
      (r'.newFrame rec .none).At rec.threadId r'.output.length ∧
      ((r'.newFrame rec .none).output = r.output ∨
        (r'.newFrame rec .none).output = r.output ++ [.new rec .none]) :=
    ⟨hindexed.newFrame rec, r'.at_newFrame rec .none, .inr (by rw [← houtput]; rfl)⟩
  dsimp only
  cases htarget : r.target rec with
  | none => exact hfresh
  | some i =>
      have hat : r'.At rec.threadId i := by
        rw [Reader.At, hstamps]
        unfold Reader.target at htarget
        split at htarget
        · exact h.pending htarget
        · exact h.active htarget
      dsimp only
      cases r'.output[i]? with
      | none => exact hfresh
      | some f =>
          dsimp only
          split
          · exact hfresh
          · exact ⟨hindexed, hat, .inl houtput⟩

/-- What a record of another kind does to the stamps and flags. -/
theorem Indexed.feedOther (h : Indexed r) {closed : Nat → Nat → Prop}
    (hflags : ∀ f ∈ r.output, FlagOk closed f)
    (hclosed : ∀ c ∈ contextsOf r.stamps rec.threadId, closed rec.threadId c.frameId) :
    Indexed (r.feedOther rec) ∧ (∀ f ∈ (r.feedOther rec).output, FlagOk closed f) ∧
      ∃ extra : List (Nat × Context), (∀ p ∈ extra, p.2 = .none) ∧
        (r.feedOther rec).stamps = r.stamps ++ extra := by
  obtain ⟨hindexed, hat, houtput⟩ := h.frameFor rec
  unfold Reader.feedOther
  generalize hr : r.frameFor rec = ri at hindexed hat houtput ⊢
  obtain ⟨r₁, i⟩ := ri
  dsimp only at hindexed hat houtput ⊢
  obtain ⟨extra, hextra, hstamps⟩ : ∃ extra : List (Nat × Context),
      (∀ p ∈ extra, p.2 = .none) ∧ r₁.stamps = r.stamps ++ extra := by
    rcases houtput with heq | heq
    · exact ⟨[], nofun, by rw [Reader.stamps, heq, List.append_nil, Reader.stamps]⟩
    · refine ⟨[(rec.threadId, .none)], fun p hp => ?_, ?_⟩
      · rw [List.mem_singleton.mp hp]
      · rw [Reader.stamps, heq, List.map_append]
        rfl
  have hflags₁ : ∀ f ∈ r₁.output, FlagOk closed f := by
    intro f hf
    rcases houtput with heq | heq
    · exact hflags f (heq ▸ hf)
    · rcases List.mem_append.mp (heq ▸ hf) with hf | hf
      · exact hflags f hf
      · rw [List.mem_singleton.mp hf]
        exact fun hmode _ => absurd rfl hmode
  have hclosed₁ : ∀ f, r₁.output[i]? = some f → f.context.mode ≠ 0 →
      closed f.threadId f.context.frameId := by
    intro f hf hmode
    have hstamp : r₁.stamps[i]? = some f.stamp := by
      rw [Reader.stamps, List.getElem?_map, hf]
      rfl
    obtain ⟨c, hc⟩ := hat
    obtain ⟨hthread, hcontext⟩ := Prod.mk.inj (Option.some.inj (hc.symm.trans hstamp))
    have hmem : (f.threadId, f.context) ∈ r₁.stamps := List.mem_of_getElem? hstamp
    rw [hstamps] at hmem
    rcases List.mem_append.mp hmem with hmem | hmem
    · rw [← hthread] at hmem ⊢
      exact hclosed _ (mem_contextsOf.mpr ⟨hmem, hmode⟩)
    · exact absurd (congrArg Context.mode (hextra _ hmem)) hmode
  have hflags₂ : ∀ f ∈ (r₁.applyContext i).output, FlagOk closed f := by
    intro f hf
    rw [Reader.output_applyContext] at hf
    rcases mem_modify hf with hf | ⟨f', hf', rfl⟩
    · exact hflags₁ f hf
    · split
      · exact hflags₁ f' (List.mem_of_getElem? hf')
      · exact (hflags₁ f' (List.mem_of_getElem? hf')).apply (hclosed₁ f' hf') _
  have hflags₃ : ∀ f ∈ (r₁.applyContext i).output.modify i fun f => f.attach rec,
      FlagOk closed f := by
    intro f hf
    rcases mem_modify hf with hf | ⟨f', hf', rfl⟩
    · exact hflags₂ f hf
    · exact (hflags₂ f' (List.mem_of_getElem? hf')).congr (f'.stamp_attach rec)
        (f'.contextComplete_attach rec)
  have hstamps₃ : ((r₁.applyContext i).output.modify i fun f => f.attach rec).map
      TraceFrame.stamp = r₁.stamps := by
    rw [map_modify_of_eq fun f => TraceFrame.stamp_attach f rec]
    exact r₁.stamps_applyContext i
  obtain ⟨hactive, hframes, hpending⟩ := r₁.references_applyContext i
  split
  next =>
    refine ⟨hindexed.congr hstamps₃ hactive hframes fun {t j} hj => ?_, hflags₃, extra, hextra,
      hstamps₃.trans hstamps⟩
    dsimp only at hj
    by_cases ht : t = rec.threadId
    · rw [ht, Function.update_self] at hj
      obtain rfl := Option.some.inj hj
      exact ht ▸ hat
    · rw [Function.update_of_ne ht, hpending] at hj
      exact hindexed.pending hj
  next =>
    refine ⟨hindexed.congr hstamps₃ hactive hframes fun {t j} hj => ?_, hflags₃, extra, hextra,
      hstamps₃.trans hstamps⟩
    dsimp only at hj
    rw [hpending] at hj
    exact hindexed.pending hj

end PinBridge.Registers
