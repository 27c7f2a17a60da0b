import PinBridge.Lib.Transition

/-!
# The slot of the latest out-of-memory callback

`on_out_of_memory` numbers its calls and leaves the number and the requested size of the latest one
in a slot that `oom_snapshot` reads without a lock.  A flag marks that a callback writes, and the
number doubles as the version of the slot.  Any number of threads do either.  Each atomic operation
is one step.  A log is kept next to the slot, and no step reads it.

The flag is loaded before the first load of the number and after the second one.  Between these two
loads of the flag a callback can go through its whole write, and then a snapshot pairs an old number
with a new size (`tornRead`).  Callbacks can also write in another order than they were numbered in
(`lateWrite`).  `slot_coherent` says that nothing else goes wrong.
-/

namespace PinBridge.OutOfMemory

open Function (update)

/-- A call of `on_out_of_memory`, before its next atomic operation. -/
inductive Callback where
  | idle
  /-- The swap of `OOM_WRITER`. -/
  | acquire (requestedSize occurrence : BitVec 64)
  /-- The store to `OOM_REQUESTED_SIZE`. -/
  | storeSize (requestedSize occurrence : BitVec 64)
  /-- The store to `OOM_PUBLISHED`. -/
  | publish (requestedSize occurrence : BitVec 64)
  /-- The store to `OOM_WRITER`. -/
  | release (requestedSize occurrence : BitVec 64)
  deriving DecidableEq

/-- A call of `oom_snapshot`, before its next load.  The first field counts the rounds of its loop
that are left after this one. -/
inductive Reader where
  | idle
  /-- The first load of `OOM_WRITER`. -/
  | writer (left : ℕ)
  /-- The first load of `OOM_PUBLISHED`. -/
  | first (left : ℕ)
  /-- The load of `OOM_REQUESTED_SIZE`. -/
  | size (left : ℕ) (first : BitVec 64)
  /-- The second load of `OOM_PUBLISHED`. -/
  | second (left : ℕ) (first requestedSize : BitVec 64)
  /-- The second load of `OOM_WRITER`. -/
  | last (left : ℕ) (first requestedSize : BitVec 64)
  deriving DecidableEq

/-- What is logged. -/
inductive Event where
  /-- A callback has got its number. -/
  | called (occurrence requestedSize : BitVec 64)
  /-- `oom_snapshot` returns. -/
  | snapshot (reader : ℕ) (result : Option (BitVec 64 × BitVec 64))
  deriving DecidableEq

/-- The slot, the calls of the threads, and the log, the newest event first. -/
structure State where
  /-- `OOM_TOTAL`. -/
  total : BitVec 64
  /-- `OOM_PUBLISHED`. -/
  published : BitVec 64
  /-- `OOM_REQUESTED_SIZE`. -/
  requestedSize : BitVec 64
  /-- `OOM_WRITER`. -/
  writer : Bool
  callbacks : ℕ → Callback
  readers : ℕ → Reader
  log : List Event

/-- The slot is empty. -/
def State.init : State := ⟨0, 0, 0, false, fun _ => .idle, fun _ => .idle, []⟩

/-- What a thread does next. -/
inductive Action where
  /-- Pin calls `on_out_of_memory`, which takes a number. -/
  | outOfMemory (thread : ℕ) (requestedSize : BitVec 64)
  /-- A callback does its next atomic operation. -/
  | write (thread : ℕ)
  /-- A reader calls `oom_snapshot`. -/
  | snapshot (reader : ℕ)
  /-- A reader does its next load. -/
  | read (reader : ℕ)
  deriving DecidableEq

/-- A callback goes on. -/
def State.goOn (s : State) (thread : ℕ) (callback : Callback) : State :=
  { s with callbacks := update s.callbacks thread callback }

/-- The next atomic operation of a callback. -/
def State.stepCallback (s : State) (thread : ℕ) : Callback → Option State
  | .idle => none
  | .acquire requestedSize occurrence =>
      if s.writer then some (s.goOn thread .idle)
      else some (State.goOn { s with writer := true } thread (.storeSize requestedSize occurrence))
  | .storeSize requestedSize occurrence =>
      some (State.goOn { s with requestedSize := requestedSize } thread
        (.publish requestedSize occurrence))
  | .publish requestedSize occurrence =>
      some (State.goOn { s with published := occurrence } thread
        (.release requestedSize occurrence))
  | .release _ _ => some (State.goOn { s with writer := false } thread .idle)

/-- A reader goes on. -/
def State.readOn (s : State) (reader : ℕ) (call : Reader) : State :=
  { s with readers := update s.readers reader call }

/-- A reader returns. -/
def State.leave (s : State) (reader : ℕ) (result : Option (BitVec 64 × BitVec 64)) : State :=
  { s with readers := update s.readers reader .idle, log := .snapshot reader result :: s.log }

/-- A reader begins the next round of its loop, or returns nothing after the last one. -/
def State.retry (s : State) (reader : ℕ) : ℕ → State
  | 0 => s.leave reader none
  | left + 1 => s.readOn reader (.writer left)

/-- The next load of a reader. -/
def State.stepReader (s : State) (reader : ℕ) : Reader → Option State
  | .idle => none
  | .writer left =>
      if s.writer then some (s.retry reader left) else some (s.readOn reader (.first left))
  | .first left =>
      if s.published = 0 then some (s.leave reader none)
      else some (s.readOn reader (.size left s.published))
  | .size left first => some (s.readOn reader (.second left first s.requestedSize))
  | .second left first requestedSize =>
      if first = s.published then some (s.readOn reader (.last left first requestedSize))
      else some (s.retry reader left)
  | .last left first requestedSize =>
      if s.writer then some (s.retry reader left)
      else some (s.leave reader (some (first, requestedSize)))

/-- One step. -/
def step (s : State) : Action → Option State
  | .outOfMemory thread requestedSize =>
      if s.callbacks thread ≠ .idle then none
      else
        let occurrence := s.total + 1
        some (State.goOn
          { s with total := occurrence, log := .called occurrence requestedSize :: s.log } thread
          (.acquire requestedSize occurrence))
  | .write thread => s.stepCallback thread (s.callbacks thread)
  | .snapshot reader =>
      if s.readers reader ≠ .idle then none else some (s.readOn reader (.writer 2))
  | .read reader => s.stepReader reader (s.readers reader)

/-- Every snapshot is of a callback with that number and that size. -/
def Coherent (s : State) : Prop :=
  ∀ reader occurrence requestedSize,
    .snapshot reader (some (occurrence, requestedSize)) ∈ s.log →
      .called occurrence requestedSize ∈ s.log

/-- No reader gets an earlier number after a later one. -/
def Ordered (s : State) : Prop :=
  s.log.Pairwise fun later earlier =>
    ∀ reader occurrence requestedSize occurrence' requestedSize',
      later = .snapshot reader (some (occurrence', requestedSize')) →
      earlier = .snapshot reader (some (occurrence, requestedSize)) → occurrence ≤ occurrence'

/-- A callback publishes only a later number than the one that is published.  It clears the flag
only when no reader is about to load the flag for the last time, with the size of this callback and
the number of one that requested another size. -/
def Undisturbed (s : State) : Action → Prop
  | .write thread =>
      match s.callbacks thread with
      | .publish _ occurrence => s.published < occurrence
      | .release requestedSize occurrence =>
          ∀ reader left first, s.readers reader = .last left first requestedSize →
            first = occurrence ∨ .called first requestedSize ∈ s.log
      | _ => True
  | _ => True

/-! ## The invariant -/

/-- The callback has taken the flag. -/
def Callback.Writes : Callback → Prop
  | .idle | .acquire .. => False
  | .storeSize .. | .publish .. | .release .. => True

/-- The callback has stored this size, and it has not cleared the flag. -/
def Callback.Stored (requestedSize : BitVec 64) : Callback → Prop
  | .publish size _ | .release size _ => size = requestedSize
  | _ => False

/-- What is known of a callback. -/
def CallbackOk (s : State) : Callback → Prop
  | .idle => True
  | .acquire requestedSize occurrence => .called occurrence requestedSize ∈ s.log
  | .storeSize requestedSize occurrence => .called occurrence requestedSize ∈ s.log
  | .publish requestedSize occurrence =>
      .called occurrence requestedSize ∈ s.log ∧ s.requestedSize = requestedSize
  | .release requestedSize occurrence =>
      .called occurrence requestedSize ∈ s.log ∧ s.requestedSize = requestedSize ∧
        s.published = occurrence

/-- The size belongs to the number, or to a callback that has not cleared the flag. -/
def Backed (s : State) (occurrence requestedSize : BitVec 64) : Prop :=
  .called occurrence requestedSize ∈ s.log ∨
    ∃ thread, (s.callbacks thread).Stored requestedSize

/-- The number is published or older, and the reader has seen no later one. -/
structure Seen (s : State) (reader : ℕ) (first : BitVec 64) : Prop where
  ne_zero : first ≠ 0
  le_published : first ≤ s.published
  latest : ∀ occurrence requestedSize,
    .snapshot reader (some (occurrence, requestedSize)) ∈ s.log → occurrence ≤ first

/-- What is known of a reader. -/
def ReaderOk (s : State) (reader : ℕ) : Reader → Prop
  | .idle | .writer _ | .first _ => True
  | .size _ first => Seen s reader first
  | .second _ first requestedSize =>
      Seen s reader first ∧ (first = s.published → Backed s first requestedSize)
  | .last _ first requestedSize => Seen s reader first ∧ Backed s first requestedSize

/-- The invariant. -/
structure Ok (s : State) : Prop where
  writes : ∀ thread, (s.callbacks thread).Writes → s.writer = true
  alone : ∀ thread thread', (s.callbacks thread).Writes → (s.callbacks thread').Writes →
    thread = thread'
  callbacks : ∀ thread, CallbackOk s (s.callbacks thread)
  slot : s.published ≠ 0 → Backed s s.published s.requestedSize
  readers : ∀ reader, ReaderOk s reader (s.readers reader)
  coherent : Coherent s
  ordered : Ordered s
  published : ∀ reader occurrence requestedSize,
    .snapshot reader (some (occurrence, requestedSize)) ∈ s.log → occurrence ≤ s.published

theorem ok_init : Ok State.init where
  writes := fun _ h => h.elim
  alone := fun _ _ h => h.elim
  callbacks := fun _ => trivial
  slot := fun h => absurd rfl h
  readers := fun _ => trivial
  coherent := fun _ _ _ h => nomatch h
  ordered := List.Pairwise.nil
  published := fun _ _ _ h => nomatch h

variable {s s' : State} {thread reader : ℕ} {occurrence requestedSize first : BitVec 64}

@[simp] theorem Callback.not_writes_idle : ¬ Callback.idle.Writes := id

@[simp] theorem Callback.not_writes_acquire (requestedSize occurrence : BitVec 64) :
    ¬ (Callback.acquire requestedSize occurrence).Writes := id

theorem Callback.Stored.writes {callback : Callback} (h : callback.Stored requestedSize) :
    callback.Writes := by
  cases callback with
  | idle => exact h.elim
  | acquire size occurrence => exact h.elim
  | storeSize size occurrence => exact h.elim
  | publish size occurrence => trivial
  | release size occurrence => trivial

/-- While the flag is clear, every size belongs to its number. -/
theorem Ok.called_of_clear (h : Ok s) (hclear : s.writer = false)
    (hbacked : Backed s occurrence requestedSize) : .called occurrence requestedSize ∈ s.log := by
  rcases hbacked with hcalled | ⟨thread, hstored⟩
  · exact hcalled
  · exact absurd (h.writes thread hstored.writes) (by rw [hclear]; decide)

/-- The size of the callback that has the flag, or one that belongs to its number. -/
theorem Ok.called_of_writes (h : Ok s) (hwrites : (s.callbacks thread).Writes)
    (hbacked : Backed s occurrence requestedSize) :
    .called occurrence requestedSize ∈ s.log ∨ (s.callbacks thread).Stored requestedSize := by
  rcases hbacked with hcalled | ⟨thread', hstored⟩
  · exact .inl hcalled
  · rw [h.alone thread thread' hwrites hstored.writes]
    exact .inr hstored

/-- What is known of a callback that does not write does not depend on the slot. -/
theorem CallbackOk.of_not_writes {callback : Callback} (h : CallbackOk s callback)
    (hwrites : ¬ callback.Writes) (hlog : s.log ⊆ s'.log) : CallbackOk s' callback := by
  cases callback with
  | idle => trivial
  | acquire size occurrence => exact hlog h
  | storeSize size occurrence => exact absurd trivial hwrites
  | publish size occurrence => exact absurd trivial hwrites
  | release size occurrence => exact absurd trivial hwrites

/-- What is known of a callback stays true while the slot stays as it is. -/
theorem CallbackOk.mono {callback : Callback} (h : CallbackOk s callback) (hlog : s.log ⊆ s'.log)
    (hsize : s'.requestedSize = s.requestedSize) (hpublished : s'.published = s.published) :
    CallbackOk s' callback := by
  cases callback with
  | idle => trivial
  | acquire size occurrence => exact hlog h
  | storeSize size occurrence => exact hlog h
  | publish size occurrence => exact ⟨hlog h.1, hsize.trans h.2⟩
  | release size occurrence => exact ⟨hlog h.1, hsize.trans h.2.1, hpublished.trans h.2.2⟩

/-- What is known of a reader stays true when the published number grows, no snapshot is logged,
and the sizes it may hold stay backed. -/
theorem ReaderOk.mono {call : Reader} (h : ReaderOk s reader call)
    (hpublished : s.published ≤ s'.published)
    (hsnapshots : ∀ result, .snapshot reader result ∈ s'.log → .snapshot reader result ∈ s.log)
    (hsecond : ∀ left first requestedSize, call = .second left first requestedSize →
      first = s'.published → (first = s.published → Backed s first requestedSize) →
      first ≤ s.published → Backed s' first requestedSize)
    (hlast : ∀ left first requestedSize, call = .last left first requestedSize →
      Backed s first requestedSize → Backed s' first requestedSize) :
    ReaderOk s' reader call := by
  have hseen : ∀ {first}, Seen s reader first → Seen s' reader first := fun h =>
    ⟨h.ne_zero, BitVec.le_trans h.le_published hpublished,
      fun occurrence requestedSize hmem => h.latest occurrence requestedSize (hsnapshots _ hmem)⟩
  cases call with
  | idle => trivial
  | writer left => trivial
  | first left => trivial
  | size left first => exact hseen h
  | second left first requestedSize =>
      exact ⟨hseen h.1, fun heq => hsecond left first requestedSize rfl heq h.2 h.1.le_published⟩
  | last left first requestedSize =>
      exact ⟨hseen h.1, hlast left first requestedSize rfl h.2⟩

/-- A callback goes on and changes the slot. -/
theorem Ok.goOn (h : Ok s) {callback : Callback} {published size : BitVec 64} {writer : Bool}
    (hwrites : callback.Writes →
      writer = true ∧ ∀ other, other ≠ thread → ¬ (s.callbacks other).Writes)
    (hothers : ∀ other, other ≠ thread → (s.callbacks other).Writes → writer = true)
    (hpublished : s.published ≤ published)
    (hok : s' = State.goOn
      { s with published := published, requestedSize := size, writer := writer } thread callback)
    (hcallback : CallbackOk s' callback)
    (hcallbacks : ∀ other, other ≠ thread → CallbackOk s' (s.callbacks other))
    (hslot : published ≠ 0 → Backed s' published size)
    (hreaders : ∀ reader, ReaderOk s' reader (s.readers reader)) : Ok s' := by
  subst hok
  have hself : update s.callbacks thread callback thread = callback := Function.update_self ..
  have hother : ∀ {other}, other ≠ thread →
      update s.callbacks thread callback other = s.callbacks other := fun hne =>
    Function.update_of_ne hne ..
  refine ⟨fun other hother' => ?_, fun t t' ht ht' => ?_, fun other => ?_, hslot, hreaders,
    h.coherent, h.ordered, fun reader occurrence requestedSize hmem =>
      BitVec.le_trans (h.published reader occurrence requestedSize hmem) hpublished⟩
  · rw [State.goOn] at hother'
    rcases eq_or_ne other thread with rfl | hne
    · exact (hwrites (hself ▸ hother')).1
    · exact hothers other hne (hother hne ▸ hother')
  · rw [State.goOn] at ht ht'
    dsimp only at ht ht'
    rcases eq_or_ne t thread with rfl | hne
    · rcases eq_or_ne t' t with rfl | hne'
      · rfl
      · rw [hself] at ht
        rw [hother hne'] at ht'
        exact absurd ht' ((hwrites ht).2 t' hne')
    · rw [hother hne] at ht
      rcases eq_or_ne t' thread with rfl | hne'
      · rw [hself] at ht'
        exact absurd ht ((hwrites ht').2 t hne)
      · rw [hother hne'] at ht'
        exact h.alone t t' ht ht'
  · change CallbackOk _ (update s.callbacks thread callback other)
    rcases eq_or_ne other thread with rfl | hne
    · rw [hself]
      exact hcallback
    · rw [hother hne]
      exact hcallbacks other hne

/-- A callback goes on, and the slot stays as it is. -/
theorem Ok.goOn_same (h : Ok s) {callback : Callback} {writer : Bool}
    (hwrites : callback.Writes →
      writer = true ∧ ∀ other, other ≠ thread → ¬ (s.callbacks other).Writes)
    (hothers : ∀ other, other ≠ thread → (s.callbacks other).Writes → writer = true)
    (hok : s' = State.goOn { s with writer := writer } thread callback)
    (hcallback : CallbackOk s' callback)
    (hpublished : ∀ requestedSize, Backed s s.published requestedSize →
      Backed s' s.published requestedSize)
    (hlast : ∀ reader left first requestedSize,
      s.readers reader = .last left first requestedSize → Backed s first requestedSize →
      Backed s' first requestedSize) : Ok s' := by
  refine h.goOn hwrites hothers
    (BitVec.le_refl _) hok hcallback (fun other _ => ?_) (fun hne => hpublished _ (h.slot hne))
    (fun reader => ?_)
  · subst hok
    exact (h.callbacks other).mono (List.Subset.refl _) rfl rfl
  · have hlast := hlast reader
    subst hok
    refine (h.readers reader).mono (BitVec.le_refl _) (fun _ hmem => hmem) ?_ hlast
    intro left first requestedSize hcall heq hback _
    obtain rfl : first = s.published := heq
    exact hpublished requestedSize (hback rfl)

/-- A callback takes a number. -/
theorem Ok.call (h : Ok s) (total : BitVec 64) :
    Ok { s with total := total, log := .called occurrence requestedSize :: s.log } := by
  have hlog : s.log ⊆ .called occurrence requestedSize :: s.log := List.subset_cons_self _ _
  have hsnapshots : ∀ {reader result},
      Event.snapshot reader result ∈ .called occurrence requestedSize :: s.log →
      Event.snapshot reader result ∈ s.log := fun hmem => by
    rcases List.mem_cons.mp hmem with hnew | hold
    · exact nomatch hnew
    · exact hold
  have hbacked : ∀ {occurrence' requestedSize'}, Backed s occurrence' requestedSize' →
      Backed { s with total := total, log := .called occurrence requestedSize :: s.log }
        occurrence' requestedSize' := fun h => h.imp_left fun hmem => hlog hmem
  refine ⟨h.writes, h.alone, fun thread => (h.callbacks thread).mono hlog rfl rfl,
    fun hne => hbacked (h.slot hne), fun reader => ?_, fun reader occurrence' size hmem => ?_, ?_,
    fun reader occurrence' size hmem => h.published reader occurrence' size (hsnapshots hmem)⟩
  · exact (h.readers reader).mono (BitVec.le_refl _) (fun _ hmem => hsnapshots hmem)
      (fun _ _ _ _ heq hback _ => hbacked (hback heq)) (fun _ _ _ _ hback => hbacked hback)
  · exact hlog (h.coherent reader occurrence' size (hsnapshots hmem))
  · exact List.Pairwise.cons (fun _ _ _ _ _ _ _ hnew => nomatch hnew) h.ordered

/-- A size stays backed when the callback that goes on keeps backing its own size. -/
theorem Backed.goOn {callback : Callback} {published size : BitVec 64} {writer : Bool}
    (h : Backed s occurrence requestedSize)
    (hstored : (s.callbacks thread).Stored requestedSize → callback.Stored requestedSize) :
    Backed (State.goOn { s with published := published, requestedSize := size, writer := writer }
      thread callback) occurrence requestedSize := by
  rcases h with hcalled | ⟨other, hother⟩
  · exact .inl hcalled
  · refine .inr ⟨other, ?_⟩
    rw [State.goOn]
    dsimp only
    rcases eq_or_ne other thread with rfl | hne
    · rw [Function.update_self]
      exact hstored hother
    · rw [Function.update_of_ne hne]
      exact hother

/-- A callback tries to take the flag. -/
theorem Ok.acquire (h : Ok s) (hcall : s.callbacks thread = .acquire requestedSize occurrence)
    (hstep : s.stepCallback thread (.acquire requestedSize occurrence) = some s') : Ok s' := by
  have hcalled := h.callbacks thread
  rw [hcall] at hcalled
  have hstored : ∀ {callback : Callback} {size}, (s.callbacks thread).Stored size →
      callback.Stored size := fun hstored => by
    rw [hcall] at hstored
    exact hstored.elim
  rw [State.stepCallback] at hstep
  split at hstep
  next hbusy =>
    obtain rfl := Option.some.inj hstep
    exact h.goOn_same (absurd · Callback.not_writes_idle) (fun _ _ _ => hbusy) rfl trivial
      (fun _ hback => hback.goOn hstored) (fun _ _ _ _ _ hback => hback.goOn hstored)
  next hclear =>
    obtain rfl := Option.some.inj hstep
    exact h.goOn_same (fun _ => ⟨rfl, fun other _ hother => hclear (h.writes other hother)⟩)
      (fun _ _ _ => rfl) rfl hcalled (fun _ hback => hback.goOn hstored)
      (fun _ _ _ _ _ hback => hback.goOn hstored)

/-- The callback that has the flag stores its size. -/
theorem Ok.storeSize (h : Ok s)
    (hcall : s.callbacks thread = .storeSize requestedSize occurrence) :
    Ok (State.goOn { s with requestedSize := requestedSize } thread
      (.publish requestedSize occurrence)) := by
  have hwrites : (s.callbacks thread).Writes := by
    rw [hcall]
    trivial
  have hlone : ∀ other, other ≠ thread → ¬ (s.callbacks other).Writes :=
    fun other hne hother => hne (h.alone other thread hother hwrites)
  have hcalled := h.callbacks thread
  rw [hcall] at hcalled
  have hback : ∀ {first size}, Backed s first size →
      Backed (State.goOn { s with requestedSize := requestedSize } thread
        (.publish requestedSize occurrence)) first size := fun hback =>
    .inl ((h.called_of_writes hwrites hback).resolve_right fun hstored => by
      rw [hcall] at hstored
      exact hstored.elim)
  refine h.goOn (fun _ => ⟨h.writes thread hwrites, hlone⟩)
    (fun _ hne hother => absurd hother (hlone _ hne)) (BitVec.le_refl _) rfl ⟨hcalled, rfl⟩
    (fun other hne => (h.callbacks other).of_not_writes (hlone other hne) (.refl _))
    (fun _ => .inr ⟨thread, ?_⟩)
    (fun reader => (h.readers reader).mono (BitVec.le_refl _) (fun _ hmem => hmem)
      (fun _ _ _ _ heq hsecond _ => hback (hsecond heq)) (fun _ _ _ _ => hback))
  rw [State.goOn]
  dsimp only
  rw [Function.update_self]
  rfl

/-- The callback that has the flag publishes a later number. -/
theorem Ok.publish (h : Ok s) (hcall : s.callbacks thread = .publish requestedSize occurrence)
    (hlater : s.published < occurrence) :
    Ok (State.goOn { s with published := occurrence } thread
      (.release requestedSize occurrence)) := by
  have hwrites : (s.callbacks thread).Writes := by
    rw [hcall]
    trivial
  have hlone : ∀ other, other ≠ thread → ¬ (s.callbacks other).Writes :=
    fun other hne hother => hne (h.alone other thread hother hwrites)
  obtain ⟨hcalled, hsize⟩ : CallbackOk s (.publish requestedSize occurrence) :=
    hcall ▸ h.callbacks thread
  refine h.goOn (fun _ => ⟨h.writes thread hwrites, hlone⟩)
    (fun _ hne hother => absurd hother (hlone _ hne)) (BitVec.le_of_lt hlater) rfl
    ⟨hcalled, hsize, rfl⟩
    (fun other hne => (h.callbacks other).of_not_writes (hlone other hne) (.refl _))
    (fun _ => .inl (hsize ▸ hcalled))
    (fun reader => (h.readers reader).mono (BitVec.le_of_lt hlater) (fun _ hmem => hmem)
      (fun _ first _ _ heq _ hle => ?_)
      (fun _ _ _ _ hback => hback.goOn fun hstored => by rwa [hcall] at hstored))
  -- The number a reader has loaded before is too old now.
  obtain rfl : first = occurrence := heq
  exact absurd hlater (BitVec.not_lt.mpr hle)

/-- The callback that has the flag clears it. -/
theorem Ok.release (h : Ok s) (hcall : s.callbacks thread = .release requestedSize occurrence)
    (hguard : ∀ reader left first, s.readers reader = .last left first requestedSize →
      first = occurrence ∨ .called first requestedSize ∈ s.log) :
    Ok (State.goOn { s with writer := false } thread .idle) := by
  have hwrites : (s.callbacks thread).Writes := by
    rw [hcall]
    trivial
  obtain ⟨hown, hsize, hpublished⟩ : CallbackOk s (.release requestedSize occurrence) :=
    hcall ▸ h.callbacks thread
  have hcalled : ∀ {first size}, Backed s first size →
      .called first size ∈ s.log ∨ requestedSize = size := fun hback =>
    (h.called_of_writes hwrites hback).imp_right fun hstored => by rwa [hcall] at hstored
  refine h.goOn_same (absurd · Callback.not_writes_idle)
    (fun other hne hother => absurd (h.alone other thread hother hwrites) hne) rfl trivial
    (fun size hback => ?_) (fun reader left first size hlast hback => ?_)
  · rcases hcalled hback with hold | rfl
    · exact .inl hold
    · exact .inl (hpublished ▸ hown)
  · rcases hcalled hback with hold | rfl
    · exact .inl hold
    · rcases hguard reader left first hlast with rfl | hold
      · exact .inl hown
      · exact .inl hold

/-- A callback does its next atomic operation. -/
theorem Ok.stepCallback (h : Ok s) (hguard : Undisturbed s (.write thread))
    (hstep : s.stepCallback thread (s.callbacks thread) = some s') : Ok s' := by
  rw [Undisturbed] at hguard
  cases hcall : s.callbacks thread with
  | idle =>
      rw [hcall] at hstep
      exact nomatch hstep
  | acquire requestedSize occurrence =>
      rw [hcall] at hstep
      exact h.acquire hcall hstep
  | storeSize requestedSize occurrence =>
      rw [hcall] at hstep
      obtain rfl := Option.some.inj hstep
      exact h.storeSize hcall
  | publish requestedSize occurrence =>
      rw [hcall] at hstep hguard
      obtain rfl := Option.some.inj hstep
      exact h.publish hcall hguard
  | release requestedSize occurrence =>
      rw [hcall] at hstep hguard
      obtain rfl := Option.some.inj hstep
      exact h.release hcall hguard

/-- A reader goes on. -/
theorem Ok.readOn (h : Ok s) {call : Reader} (hcall : ReaderOk s reader call) :
    Ok (s.readOn reader call) := by
  have hmono : ∀ other call', ReaderOk s other call' →
      ReaderOk (s.readOn reader call) other call' := fun other call' h =>
    h.mono (BitVec.le_refl _) (fun _ hmem => hmem) (fun _ _ _ _ heq hback _ => hback heq)
      (fun _ _ _ _ hback => hback)
  refine ⟨h.writes, h.alone, fun thread => (h.callbacks thread).mono (.refl _) rfl rfl, h.slot,
    fun other => hmono other _ ?_, h.coherent, h.ordered, h.published⟩
  rw [State.readOn]
  dsimp only
  rcases eq_or_ne other reader with rfl | hne
  · rw [Function.update_self]
    exact hcall
  · rw [Function.update_of_ne hne]
    exact h.readers other

/-- A reader returns, nothing or what belongs together and is not older than what it has seen. -/
theorem Ok.leave (h : Ok s) {result : Option (BitVec 64 × BitVec 64)}
    (hresult : ∀ occurrence requestedSize, result = some (occurrence, requestedSize) →
      Seen s reader occurrence ∧ .called occurrence requestedSize ∈ s.log) :
    Ok (s.leave reader result) := by
  have hlog : s.log ⊆ .snapshot reader result :: s.log := List.subset_cons_self _ _
  have hbacked : ∀ {occurrence requestedSize}, Backed s occurrence requestedSize →
      Backed (s.leave reader result) occurrence requestedSize :=
    fun h => h.imp_left fun hmem => hlog hmem
  have hsnapshot : ∀ {other occurrence requestedSize},
      Event.snapshot other (some (occurrence, requestedSize)) ∈ .snapshot reader result :: s.log →
      (other = reader ∧ Seen s reader occurrence ∧ .called occurrence requestedSize ∈ s.log) ∨
        .snapshot other (some (occurrence, requestedSize)) ∈ s.log := fun hmem => by
    rcases List.mem_cons.mp hmem with hnew | hold
    · obtain ⟨rfl, hresult'⟩ := Event.snapshot.inj hnew
      exact .inl ⟨rfl, hresult _ _ hresult'.symm⟩
    · exact .inr hold
  refine ⟨h.writes, h.alone, fun thread => (h.callbacks thread).mono hlog rfl rfl,
    fun hne => hbacked (h.slot hne), fun other => ?_, fun other occurrence size hmem => ?_,
    List.Pairwise.cons ?_ h.ordered, fun other occurrence size hmem => ?_⟩
  · rw [State.leave]
    dsimp only
    rcases eq_or_ne other reader with rfl | hne
    · rw [Function.update_self]
      trivial
    · rw [Function.update_of_ne hne]
      refine (h.readers other).mono (BitVec.le_refl _) (fun result' hmem => ?_)
        (fun _ _ _ _ heq hback _ => hbacked (hback heq)) (fun _ _ _ _ hback => hbacked hback)
      rcases List.mem_cons.mp hmem with hnew | hold
      · exact absurd (Event.snapshot.inj hnew).1 hne
      · exact hold
  · rcases hsnapshot hmem with ⟨_, _, hcalled⟩ | hold
    · exact hlog hcalled
    · exact hlog (h.coherent other occurrence size hold)
  · intro earlier hearlier other occurrence size occurrence' size' hnew hold
    obtain ⟨rfl, hresult'⟩ := Event.snapshot.inj hnew
    exact (hresult _ _ hresult').1.latest occurrence size (hold ▸ hearlier)
  · rcases hsnapshot hmem with ⟨_, hseen, _⟩ | hold
    · exact hseen.le_published
    · exact h.published other occurrence size hold

/-- A reader begins its next round, or returns nothing. -/
theorem Ok.retry (h : Ok s) (left : ℕ) : Ok (s.retry reader left) := by
  cases left with
  | zero => exact h.leave fun _ _ hnone => nomatch hnone
  | succ left => exact h.readOn trivial

/-- A reader does its next load. -/
theorem Ok.stepReader (h : Ok s)
    (hstep : s.stepReader reader (s.readers reader) = some s') : Ok s' := by
  have hreader := h.readers reader
  generalize s.readers reader = call at hreader hstep
  cases call with
  | idle => exact nomatch hstep
  | writer left =>
      rw [State.stepReader] at hstep
      split at hstep
      next =>
        obtain rfl := Option.some.inj hstep
        exact h.retry left
      next =>
        obtain rfl := Option.some.inj hstep
        exact h.readOn trivial
  | first left =>
      rw [State.stepReader] at hstep
      split at hstep
      next =>
        obtain rfl := Option.some.inj hstep
        exact h.leave fun _ _ hnone => nomatch hnone
      next hne =>
        obtain rfl := Option.some.inj hstep
        exact h.readOn ⟨hne, BitVec.le_refl _, fun occurrence size => h.published reader _ _⟩
  | size left first =>
      obtain rfl := Option.some.inj hstep
      refine h.readOn ⟨hreader, fun heq => ?_⟩
      obtain rfl : first = s.published := heq
      exact h.slot hreader.ne_zero
  | second left first requestedSize =>
      rw [State.stepReader] at hstep
      split at hstep
      next heq =>
        obtain rfl := Option.some.inj hstep
        exact h.readOn ⟨hreader.1, hreader.2 heq⟩
      next =>
        obtain rfl := Option.some.inj hstep
        exact h.retry left
  | last left first requestedSize =>
      rw [State.stepReader] at hstep
      split at hstep
      next =>
        obtain rfl := Option.some.inj hstep
        exact h.retry left
      next hclear =>
        obtain rfl := Option.some.inj hstep
        refine h.leave fun occurrence size hsome => ?_
        obtain ⟨rfl, rfl⟩ := Prod.mk.inj (Option.some.inj hsome)
        exact ⟨hreader.1, h.called_of_clear (Bool.eq_false_iff.mpr hclear) hreader.2⟩

/-- An undisturbed step keeps the invariant. -/
theorem Ok.step {a : Action} (h : Ok s) (hguard : Undisturbed s a)
    (hstep : step s a = some s') : Ok s' := by
  cases a with
  | outOfMemory thread requestedSize =>
      rw [OutOfMemory.step] at hstep
      split at hstep
      next => exact nomatch hstep
      next hidle =>
        obtain rfl := Option.some.inj hstep
        rw [not_not] at hidle
        have hcalled : Ok { s with
            total := s.total + 1, log := .called (s.total + 1) requestedSize :: s.log } :=
          h.call (s.total + 1)
        have hstored : ∀ {callback : Callback} {size}, (s.callbacks thread).Stored size →
            callback.Stored size := fun hstored => by
          rw [hidle] at hstored
          exact hstored.elim
        exact hcalled.goOn_same (absurd · (Callback.not_writes_acquire _ _))
          (fun other _ hother => h.writes other hother) rfl List.mem_cons_self
          (fun _ hback => hback.goOn hstored) (fun _ _ _ _ _ hback => hback.goOn hstored)
  | write thread => exact h.stepCallback hguard hstep
  | snapshot reader =>
      rw [OutOfMemory.step] at hstep
      split at hstep
      next => exact nomatch hstep
      next =>
        obtain rfl := Option.some.inj hstep
        exact h.readOn trivial
  | read reader => exact h.stepReader hstep

/-! ## Runs -/

/-- While no step is disturbed, a snapshot pairs a number with the size of that callback, and no
reader goes back to an earlier number. -/
theorem slot_coherent {as : List Action} {u : State}
    (hguard : Transition.Guarded step Undisturbed State.init as)
    (hrun : Transition.run step State.init as = some u) : Coherent u ∧ Ordered u := by
  have hok : Ok u :=
    hguard.invariant (fun h hguard hstep => h.step hguard hstep) ok_init hrun
  exact ⟨hok.coherent, hok.ordered⟩

/-- The second callback finds the flag set and writes nothing.  The third one goes through its write
while reader 7 loads, which then begins again, and reader 8 comes after them. -/
def overlap : List Action :=
  [.outOfMemory 0 16, .write 0, .outOfMemory 1 24, .write 1, .write 0, .write 0, .write 0,
    .snapshot 7, .read 7, .read 7,
    .outOfMemory 1 32, .write 1, .write 1, .write 1, .write 1,
    .read 7, .read 7, .read 7, .read 7, .read 7, .read 7, .read 7,
    .snapshot 8, .read 8, .read 8, .read 8, .read 8, .read 8]

theorem overlap_undisturbed : Transition.Guarded step Undisturbed State.init overlap := by
  iterate 5
    refine ⟨trivial, fun _ hstep => ?_⟩
    obtain rfl := Option.some.inj hstep
  refine ⟨(by decide : (0 : BitVec 64) < 1), fun _ hstep => ?_⟩
  obtain rfl := Option.some.inj hstep
  -- No reader has begun.
  refine ⟨(fun _ _ _ hlast => nomatch hlast : ∀ _, _), fun _ hstep => ?_⟩
  obtain rfl := Option.some.inj hstep
  iterate 6
    refine ⟨trivial, fun _ hstep => ?_⟩
    obtain rfl := Option.some.inj hstep
  refine ⟨(by decide : (1 : BitVec 64) < 3), fun _ hstep => ?_⟩
  obtain rfl := Option.some.inj hstep
  -- Reader 7 is about to load the size.
  refine ⟨(fun reader left first hlast => ?_ : ∀ _, _), fun _ _ => ?_⟩
  · by_cases h7 : reader = 7
    · rw [h7] at hlast
      have hsize : Reader.size 2 1 = .last left first 32 := hlast
      exact nomatch hsize
    · have hidle : update (update (update (fun _ => Reader.idle) 7 (.writer 2)) 7 (.first 2)) 7
          (.size 2 1) reader = .idle := by
        rw [Function.update_of_ne h7, Function.update_of_ne h7, Function.update_of_ne h7]
      have hlast : Reader.idle = .last left first 32 := hidle.symm.trans hlast
      exact nomatch hlast
  · iterate 13
      refine ⟨trivial, fun _ _ => ?_⟩
    trivial

theorem slot_coherent_overlap :
    ∃ u, Transition.run step State.init overlap = some u ∧ Coherent u ∧ Ordered u ∧
      u.log = [.snapshot 8 (some (3, 32)), .snapshot 7 (some (3, 32)), .called 3 32,
        .called 2 24, .called 1 16] := by
  have hlog : ((Transition.run step State.init overlap).map State.log) =
      some [.snapshot 8 (some (3, 32)), .snapshot 7 (some (3, 32)), .called 3 32,
        .called 2 24, .called 1 16] := by decide +kernel
  obtain ⟨u, hu, hlog⟩ := Option.map_eq_some_iff.mp hlog
  obtain ⟨hcoherent, hordered⟩ := slot_coherent overlap_undisturbed hu
  exact ⟨u, hu, hcoherent, hordered, hlog⟩

/-- A callback that clears the flag while a reader holds its size with the number of one that did
not request this size lets the next load of the reader return the two. -/
theorem torn_of_disturbed {left : ℕ}
    (hcall : s.callbacks thread = .release requestedSize occurrence)
    (hlast : s.readers reader = .last left first requestedSize)
    (hother : .called first requestedSize ∉ s.log) :
    ∃ u, Transition.run step s [.write thread, .read reader] = some u ∧ ¬ Coherent u := by
  refine ⟨State.leave (State.goOn { s with writer := false } thread .idle) reader
    (some (first, requestedSize)), ?_, fun hcoherent => ?_⟩
  · have hwrite : step s (.write thread) =
        some (State.goOn { s with writer := false } thread .idle) := by
      rw [step, hcall, State.stepCallback]
    have hread : (State.goOn { s with writer := false } thread .idle).readers reader =
        .last left first requestedSize := hlast
    rw [Transition.run_cons, hwrite, Option.bind_some, Transition.run_cons, step, hread]
    rfl
  · rcases List.mem_cons.mp (hcoherent reader first requestedSize List.mem_cons_self) with h | h
    · exact nomatch h
    · exact hother h

/-- The second callback goes through its whole write between the two loads of the flag. -/
def tornRead : List Action :=
  [.outOfMemory 0 16, .write 0, .write 0, .write 0, .write 0,
    .snapshot 7, .read 7, .read 7,
    .outOfMemory 1 32, .write 1, .write 1, .read 7, .read 7, .write 1, .write 1, .read 7]

/-- The first callback writes after the second one. -/
def lateWrite : List Action :=
  [.outOfMemory 0 16, .outOfMemory 1 32, .write 1, .write 1, .write 1, .write 1,
    .snapshot 7, .read 7, .read 7, .read 7, .read 7, .read 7,
    .write 0, .write 0, .write 0, .write 0,
    .snapshot 7, .read 7, .read 7, .read 7, .read 7, .read 7]

/-- A snapshot of a callback that there was not, and a number that goes back. -/
theorem slot_incoherent :
    (∃ as u, Transition.run step State.init as = some u ∧ ¬ Coherent u) ∧
      ∃ as u, Transition.run step State.init as = some u ∧ ¬ Ordered u := by
  have htorn : ((Transition.run step State.init tornRead).map State.log) =
      some [.snapshot 7 (some (1, 32)), .called 2 32, .called 1 16] := by decide +kernel
  have hlate : ((Transition.run step State.init lateWrite).map State.log) =
      some [.snapshot 7 (some (1, 16)), .snapshot 7 (some (2, 32)), .called 2 32,
        .called 1 16] := by decide +kernel
  obtain ⟨u, hu, hlog⟩ := Option.map_eq_some_iff.mp htorn
  obtain ⟨v, hv, hlog'⟩ := Option.map_eq_some_iff.mp hlate
  refine ⟨⟨tornRead, u, hu, fun hcoherent => ?_⟩, lateWrite, v, hv, fun hordered => ?_⟩
  · have hcalled := hcoherent 7 1 32 (hlog ▸ List.mem_cons_self)
    rw [hlog] at hcalled
    revert hcalled
    decide
  · rw [Ordered, hlog'] at hordered
    have hle := (List.pairwise_cons.mp hordered).1 _ List.mem_cons_self 7 2 32 1 16 rfl rfl
    exact absurd hle (by decide)

end PinBridge.OutOfMemory
