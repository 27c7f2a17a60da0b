import PinBridge.Intercept.Responses
import PinBridge.Scripts.SyscallConfig

/-!
# Entries and exits of syscalls

Pin calls `on_entry` before a syscall and `on_exit` after it.  An exit no longer knows the number of
its syscall, so the entry stores it, with the decision to capture it, in one word of the thread's
data.  The next callback of the thread takes the word, whether or not it belongs to the same
syscall.

The callbacks of one thread make a history.  A syscall may run others before it exits, and it may
never exit.  Every callback says which syscall it belongs to, and the state which entry has written
the word.  No step reads either.  A callback reads the settings anew each time, so what it reads is
a part of it.
-/

namespace PinBridge.Syscalls

open Interceptors (Arch)
open Native (Filter)

/-! ## The word -/

/-- The bits of `usize`. -/
def pointerBits : Arch → Nat
  | .ia32 => 32
  | .intel64 => 64

/-- `canonical_number`. -/
def canonicalNumber (arch : Arch) (number : Nat) : Nat :=
  match arch with
  | .ia32 => number % Native.syscallNumberLimit
  | .intel64 => number

/-- The result of a checked operation on 64 bits. -/
def checked (n : Nat) : Option Nat := if n < 2 ^ 64 then some n else none

/-- `encode_syscall_state`. -/
def encodeSyscallState (arch : Arch) (number : Nat) (capture : Bool) : Option Nat := do
  let encoded ← checked (number * 2)
  let encoded ← checked (encoded + capture.toNat)
  let encoded ← checked (encoded + 1)
  if encoded < 2 ^ pointerBits arch then some encoded else none

/-- `decode_syscall_state`. -/
def decodeSyscallState (data : Nat) : Option (Nat × Bool) :=
  if data = 0 then none else some ((data - 1) / 2, (data - 1) % 2 ≠ 0)

/-- The word of a thread, and the syscall whose entry has written it. -/
structure State where
  word : Nat
  owner : Option Nat
  deriving DecidableEq, Repr

/-- The word is null. -/
def State.null : State := ⟨0, none⟩

/-- Which of Pin's functions for the data of a thread succeed in a callback. -/
structure ThreadData where
  /-- `pb_pin_get_thread_data`. -/
  get : Bool
  /-- `pb_pin_set_thread_data` with null. -/
  clear : Bool
  /-- `pb_pin_set_thread_data` with a word. -/
  set : Bool
  deriving DecidableEq, Repr

/-- `take_syscall_state`, with the entry that the result is from. -/
def takeSyscallState (data : ThreadData) (s : State) : Option (Nat × Bool) × Option Nat × State :=
  if data.get = false ∨ s.word = 0 then (none, none, s)
  else (decodeSyscallState s.word, s.owner, if data.clear then .null else s)

/-- `remember_syscall_state`. -/
def rememberSyscallState (arch : Arch) (data : ThreadData) (syscall number : Nat) (capture : Bool)
    (s : State) : Bool × State :=
  match encodeSyscallState arch number capture with
  | none => (false, s)
  | some word => if data.set then (true, ⟨word, some syscall⟩) else (false, s)

/-! ## Callbacks -/

/-- The syscalls that an interceptor wants. -/
structure Interests where
  all : Bool
  numbers : List Nat
  deriving DecidableEq, Repr

/-- `number_interested`. -/
def Interests.contains (interests : Interests) (number : Nat) : Bool :=
  interests.all || (decide (number < 2 ^ 32) && interests.numbers.contains number)

/-- What `on_entry` reads. -/
structure Entry where
  number : Nat
  instructionPointer : Nat
  arguments : Vector Nat 6
  /-- `python_ready`. -/
  pythonReady : Bool
  entryInterests : Interests
  /-- `enabled`. -/
  enabled : Bool
  /-- `FILTER`. -/
  filter : Filter
  exitInterests : Interests
  /-- `next_generation`. -/
  generation : Nat
  threadData : ThreadData

/-- What `on_exit` reads. -/
structure Exit where
  returnValue : Nat
  errno : Nat
  /-- `python_ready`. -/
  pythonReady : Bool
  exitInterests : Interests
  /-- `next_generation`. -/
  generation : Nat
  threadData : ThreadData

/-- What a callback does. -/
inductive Output where
  /-- A request to the interceptors. -/
  | request (isExit : Bool) (number : Nat) (arguments : Vector Nat 6) (returnValue errno : Nat)
  /-- An event of an entry. -/
  | entryEvent (generation number : Nat) (arguments : Vector Nat 6)
  /-- An event of an exit. -/
  | exitEvent (generation number returnValue errno : Nat)
  deriving DecidableEq, Repr

/-- The syscall number of a request or an event. -/
def Output.number : Output → Nat
  | .request _ number .. => number
  | .entryEvent _ number _ => number
  | .exitEvent _ number .. => number

/-- It is an event. -/
def Output.isEvent : Output → Bool
  | .request .. => false
  | .entryEvent .. => true
  | .exitEvent .. => true

/-- A request or nothing (`decide_syscall`). -/
def decideSyscall (pythonReady : Bool) (interests : Interests) (request : Output) : List Output :=
  if pythonReady && interests.contains request.number then [request] else []

/-- `on_entry`. -/
def onEntry (arch : Arch) (syscall : Nat) (entry : Entry) (s : State) : List Output × State :=
  let (_, _, s) := takeSyscallState entry.threadData s
  let number := canonicalNumber arch entry.number
  let requests := decideSyscall entry.pythonReady entry.entryInterests
    (.request false number entry.arguments 0 0)
  let capture := entry.enabled && entry.filter.captureAllowed number entry.instructionPointer
  let interceptExit := entry.exitInterests.contains number
  let (remembered, s) :=
    if capture || interceptExit then
      rememberSyscallState arch entry.threadData syscall number capture s
    else (true, s)
  if remembered && capture then
    (requests ++ [.entryEvent entry.generation number entry.arguments], s)
  else (requests, s)

/-- `on_exit`, with the entry whose decision it uses. -/
def onExit (exit : Exit) (s : State) : List Output × Option Nat × State :=
  let (state, decision, s) := takeSyscallState exit.threadData s
  match state with
  | none => ([], none, s)
  | some (number, capture) =>
      let requests := decideSyscall exit.pythonReady exit.exitInterests
        (.request true number (.replicate 6 0) exit.returnValue exit.errno)
      if capture then
        (requests ++ [.exitEvent exit.generation number exit.returnValue exit.errno], decision, s)
      else (requests, decision, s)

/-- A callback for a syscall. -/
inductive Callback where
  | entry (syscall : Nat) (input : Entry)
  | exit (syscall : Nat) (input : Exit)

/-- A callback, what it has done and the entry whose decision it has used. -/
structure Record where
  callback : Callback
  outputs : List Output
  decision : Option Nat

/-- One callback. -/
def step (arch : Arch) (s : State) : Callback → Record × State
  | .entry syscall input =>
      let (outputs, s) := onEntry arch syscall input s
      (⟨.entry syscall input, outputs, none⟩, s)
  | .exit syscall input =>
      let (outputs, decision, s) := onExit input s
      (⟨.exit syscall input, outputs, decision⟩, s)

/-- The callbacks of a thread. -/
def run (arch : Arch) (s : State) : List Callback → List Record
  | [] => []
  | c :: callbacks => (step arch s c).1 :: run arch (step arch s c).2 callbacks

/-- The syscall that a callback enters. -/
def Callback.entered : Callback → Option Nat
  | .entry syscall _ => some syscall
  | .exit .. => none

/-- The syscall that a callback exits. -/
def Callback.exited : Callback → Option Nat
  | .entry .. => none
  | .exit syscall _ => some syscall

/-- The callbacks of a thread, in which a syscall enters and exits at most once. -/
structure History where
  callbacks : List Callback
  entered_nodup : (callbacks.filterMap Callback.entered).Nodup
  exited_nodup : (callbacks.filterMap Callback.exited).Nodup

/-! ## Paired exits -/

/-- A callback emits an event. -/
def Record.Emits (r : Record) : Prop := ∃ output ∈ r.outputs, output.isEvent = true

/-- An exit, after other callbacks, is paired with its own entry. -/
structure PairedExit (arch : Arch) (before : List Record) (syscall : Nat) (r : Record) : Prop where
  /-- It uses the decision of its own entry, if any. -/
  own : ∀ owner, r.decision = some owner → owner = syscall
  /-- It has the number of its own entry. -/
  number : ∀ output ∈ r.outputs, ∃ r' ∈ before, ∃ entry, r'.callback = .entry syscall entry ∧
    output.number = canonicalNumber arch entry.number
  /-- It emits an event if and only if its own entry has. -/
  emits : r.Emits ↔ ∃ r' ∈ before, r'.callback.entered = some syscall ∧ r'.Emits
  /-- It uses no decision that an exit has used. -/
  once : ∀ r' ∈ before, r'.decision.isSome = true → r'.decision ≠ r.decision

/-- All exits are paired with their own entries. -/
def Paired (arch : Arch) (records : List Record) : Prop :=
  ∀ before r after, records = before ++ r :: after → ∀ syscall, r.callback.exited = some syscall →
    PairedExit arch before syscall r

/-- The entry decides to capture. -/
def Entry.captures (arch : Arch) (entry : Entry) : Bool :=
  entry.enabled &&
    entry.filter.captureAllowed (canonicalNumber arch entry.number) entry.instructionPointer

/-- The word of an entry that captures or that an interceptor waits for. -/
def Entry.word (arch : Arch) (entry : Entry) : Option Nat :=
  if entry.captures arch || entry.exitInterests.contains (canonicalNumber arch entry.number) then
    encodeSyscallState arch (canonicalNumber arch entry.number) (entry.captures arch)
  else none

/-- The entry stores its word. -/
def Entry.remembers (arch : Arch) (entry : Entry) : Bool :=
  (entry.word arch).isSome && entry.threadData.set

/-- The functions that read and clear the data of a thread succeed. -/
def ThreadData.Works (data : ThreadData) : Prop := data.get = true ∧ data.clear = true

/-- What a callback reads of the data of the thread. -/
def Callback.threadData : Callback → ThreadData
  | .entry _ input => input.threadData
  | .exit _ input => input.threadData

/-- Every exit follows the entry of its syscall at once.  Only if this has not captured, it may come
at any time at which nothing is remembered. -/
def InOrder (arch : Arch) (callbacks : List Callback) : Prop :=
  ∀ before syscall exit after, callbacks = before ++ .exit syscall exit :: after →
    (∃ entry, before.getLast? = some (.entry syscall entry)) ∨
    ((∀ entry, .entry syscall entry ∈ before → ¬(entry.captures arch && entry.remembers arch)) ∧
      ∀ other entry, before.getLast? = some (.entry other entry) → ¬entry.remembers arch)

/-! ## One callback -/

variable {arch : Arch}

theorem encodeSyscallState_eq_some {number word : Nat} {capture : Bool}
    (h : encodeSyscallState arch number capture = some word) :
    word = number * 2 + capture.toNat + 1 := by
  rw [encodeSyscallState] at h
  obtain ⟨encoded, hencoded, h⟩ := Option.bind_eq_some_iff.mp h
  obtain ⟨encoded', hencoded', h⟩ := Option.bind_eq_some_iff.mp h
  obtain ⟨encoded'', hencoded'', h⟩ := Option.bind_eq_some_iff.mp h
  have hchecked : ∀ {n m : Nat}, checked n = some m → m = n := fun {n m} h => by
    rw [checked] at h
    split at h
    next => cases h; rfl
    next => cases h
  rw [hchecked hencoded] at hencoded'
  rw [hchecked hencoded'] at hencoded''
  rw [hchecked hencoded''] at h
  split at h
  next => cases h; rfl
  next => cases h

/-- The word of an entry is read back. -/
theorem decode_encode {number word : Nat} {capture : Bool}
    (h : encodeSyscallState arch number capture = some word) :
    word ≠ 0 ∧ decodeSyscallState word = some (number, capture) := by
  obtain rfl := encodeSyscallState_eq_some h
  refine ⟨Nat.succ_ne_zero _, ?_⟩
  rw [decodeSyscallState, if_neg (Nat.succ_ne_zero _), Nat.add_sub_cancel]
  cases capture with
  | false => simp
  | true =>
      have hdiv : (number * 2 + 1) / 2 = number := by omega
      have hmod : (number * 2 + 1) % 2 = 1 := by omega
      simp [hdiv, hmod]

/-- What a callback leaves. -/
def leaves (arch : Arch) : Callback → State
  | .entry syscall entry =>
      if entry.remembers arch then ⟨(entry.word arch).getD 0, some syscall⟩ else .null
  | .exit .. => .null

/-- No entry has written a null word. -/
def State.Ok (s : State) : Prop := s.word = 0 → s = .null

theorem ok_null : State.null.Ok := fun _ => rfl

theorem Entry.word_eq_some {entry : Entry} {word : Nat} (h : entry.word arch = some word) :
    word ≠ 0 ∧ decodeSyscallState word =
      some (canonicalNumber arch entry.number, entry.captures arch) := by
  rw [Entry.word] at h
  split at h
  next => exact decode_encode h
  next => exact nomatch h

theorem ok_leaves (c : Callback) : (leaves arch c).Ok := by
  cases c with
  | exit => exact ok_null
  | entry syscall entry =>
      rw [leaves]
      split
      next hremembers =>
        obtain ⟨word, hword⟩ := Option.isSome_iff_exists.mp (Bool.and_eq_true_iff.mp hremembers).1
        intro hzero
        rw [hword] at hzero
        exact absurd hzero (Entry.word_eq_some hword).1
      next => exact ok_null

/-- The word is taken. -/
theorem takeSyscallState_state {data : ThreadData} {s : State} (hdata : data.Works) (hs : s.Ok) :
    (takeSyscallState data s).2.2 = .null := by
  rw [takeSyscallState]
  split
  next h => exact hs (h.resolve_left (by rw [hdata.1]; decide))
  next => exact if_pos hdata.2

theorem mem_decideSyscall {pythonReady : Bool} {interests : Interests} {request output : Output}
    (h : output ∈ decideSyscall pythonReady interests request) : output = request := by
  rw [decideSyscall] at h
  split at h
  next => exact List.mem_singleton.mp h
  next => exact absurd h List.not_mem_nil

/-- A word is stored if there is one and Pin stores it. -/
theorem remember_word (arch : Arch) (syscall : Nat) (entry : Entry) :
    (if (entry.captures arch || entry.exitInterests.contains (canonicalNumber arch entry.number))
        = true then
      rememberSyscallState arch entry.threadData syscall (canonicalNumber arch entry.number)
        (entry.captures arch) .null
    else (true, .null)) =
      (entry.remembers arch || !(entry.captures arch ||
        entry.exitInterests.contains (canonicalNumber arch entry.number)),
        leaves arch (.entry syscall entry)) := by
  rw [leaves, Entry.remembers, Entry.word]
  split
  next hwanted =>
    rw [rememberSyscallState, hwanted, Bool.not_true, Bool.or_false]
    cases encodeSyscallState arch (canonicalNumber arch entry.number) (entry.captures arch) with
    | none => rfl
    | some word =>
        cases entry.threadData.set with
        | false => rfl
        | true => rfl
  next hunwanted =>
    rw [Bool.not_eq_true] at hunwanted
    rw [hunwanted]
    rfl

/-- An entry leaves its word if it remembers, and it has an event if it captures as well. -/
theorem onEntry_eq {syscall : Nat} {entry : Entry} {s : State} (hdata : entry.threadData.Works)
    (hs : s.Ok) :
    onEntry arch syscall entry s =
      (decideSyscall entry.pythonReady entry.entryInterests
          (.request false (canonicalNumber arch entry.number) entry.arguments 0 0) ++
        (if entry.captures arch && entry.remembers arch then
          [.entryEvent entry.generation (canonicalNumber arch entry.number) entry.arguments]
        else []),
        leaves arch (.entry syscall entry)) := by
  have hstate := takeSyscallState_state hdata hs
  have hremember := remember_word arch syscall entry
  rw [Entry.captures] at hremember ⊢
  rw [onEntry]
  dsimp only
  rw [hstate, hremember]
  cases entry.enabled &&
    entry.filter.captureAllowed (canonicalNumber arch entry.number) entry.instructionPointer with
  | false => simp
  | true =>
      cases entry.remembers arch with
      | false => simp
      | true => simp

/-- An exit finds nothing. -/
theorem onExit_null (exit : Exit) : onExit exit .null = ([], none, .null) := by
  have htake : takeSyscallState exit.threadData .null = (none, none, .null) := if_pos (.inr rfl)
  rw [onExit, htake]

/-- An exit uses the decision of the entry that has written the word. -/
theorem onExit_leaves {syscall : Nat} {entry : Entry} {exit : Exit}
    (hdata : exit.threadData.Works) (hremembers : entry.remembers arch) :
    onExit exit (leaves arch (.entry syscall entry)) =
      (decideSyscall exit.pythonReady exit.exitInterests
          (.request true (canonicalNumber arch entry.number) (.replicate 6 0) exit.returnValue
            exit.errno) ++
        (if entry.captures arch then
          [.exitEvent exit.generation (canonicalNumber arch entry.number) exit.returnValue
            exit.errno]
        else []),
        some syscall, .null) := by
  obtain ⟨word, hword⟩ := Option.isSome_iff_exists.mp (Bool.and_eq_true_iff.mp hremembers).1
  obtain ⟨hne, hdecode⟩ := Entry.word_eq_some hword
  have htake : takeSyscallState exit.threadData ⟨word, some syscall⟩ =
      (decodeSyscallState word, some syscall, .null) := by
    rw [takeSyscallState, if_neg, if_pos hdata.2]
    rw [hdata.1]
    exact not_or.mpr ⟨by decide, hne⟩
  rw [leaves, if_pos hremembers, hword, Option.getD_some, onExit, htake, hdecode]
  dsimp only
  split
  next => rfl
  next => rw [List.append_nil]

/-- The callback works. -/
abbrev Callback.Works (c : Callback) : Prop := c.threadData.Works

theorem step_state {s : State} {c : Callback} (hc : c.Works) (hs : s.Ok) :
    (step arch s c).2 = leaves arch c := by
  cases c with
  | entry syscall entry => exact congrArg Prod.snd (onEntry_eq hc hs)
  | exit syscall exit =>
      have hstate := takeSyscallState_state hc hs
      rw [step, onExit]
      dsimp only
      split
      next => exact hstate
      next =>
        split
        next => exact hstate
        next => exact hstate

theorem step_callback (s : State) (c : Callback) : (step arch s c).1.callback = c := by
  cases c with
  | entry => rfl
  | exit => rfl

/-! ## Histories -/

/-- What the callbacks leave. -/
def left (arch : Arch) (callbacks : List Callback) : State :=
  (callbacks.getLast?.map (leaves arch)).getD .null

theorem ok_left (callbacks : List Callback) : (left arch callbacks).Ok := by
  rw [left]
  cases callbacks.getLast? with
  | none => exact ok_null
  | some c => exact ok_leaves c

theorem run_append {before : List Callback} (hbefore : ∀ c ∈ before, c.Works)
    (after : List Callback) :
    run arch .null (before ++ after) =
      run arch .null before ++ run arch (left arch before) after := by
  induction before using List.reverseRecOn generalizing after with
  | nil => rfl
  | append_singleton before c ih =>
      have hwork : ∀ c ∈ before, c.Works := fun c hc => hbefore c (List.mem_append_left _ hc)
      have hlast : left arch (before ++ [c]) = (step arch (left arch before) c).2 := by
        rw [step_state (hbefore c (by simp)) (ok_left before), left, List.getLast?_concat]
        rfl
      rw [List.append_assoc, ih hwork, ih hwork, List.append_assoc, hlast]
      rfl

/-- The records of some callbacks are those of their parts. -/
theorem run_split {s : State} {callbacks : List Callback} {before after : List Record} {r : Record}
    (h : run arch s callbacks = before ++ r :: after) :
    ∃ before' c after', callbacks = before' ++ c :: after' ∧ before = run arch s before' ∧
      r.callback = c := by
  induction callbacks generalizing s before with
  | nil => exact absurd h (by simp [run])
  | cons c callbacks ih =>
      rw [run] at h
      cases before with
      | nil =>
          obtain ⟨rfl, -⟩ := List.cons.inj h
          exact ⟨[], c, callbacks, rfl, rfl, step_callback s c⟩
      | cons first before =>
          obtain ⟨rfl, hrest⟩ := List.cons.inj h
          obtain ⟨before', c', after', rfl, rfl, hr⟩ := ih hrest
          exact ⟨c :: before', c', after', rfl, rfl, hr⟩

/-- The record of a callback after others. -/
def record (arch : Arch) (before : List Callback) (c : Callback) : Record :=
  (step arch (left arch before) c).1

variable {callbacks before after : List Callback} {c : Callback} {syscall : Nat}

theorem run_cons_append (arch : Arch) (hworks : ∀ d ∈ before ++ c :: after, d.Works) :
    ∃ after', run arch .null (before ++ c :: after) =
      run arch .null before ++ record arch before c :: after' :=
  ⟨_, run_append (fun d hd => hworks d (List.mem_append_left _ hd)) _⟩

/-- The records are those of the callbacks at their places. -/
theorem record_of_run (hworks : ∀ c ∈ callbacks, c.Works) {records after : List Record}
    {r : Record} (h : run arch .null callbacks = records ++ r :: after) :
    ∃ before c after', callbacks = before ++ c :: after' ∧ records = run arch .null before ∧
      r = record arch before c := by
  obtain ⟨before, c, after', rfl, rfl, -⟩ := run_split h
  obtain ⟨after'', hrun⟩ := run_cons_append arch hworks
  rw [hrun] at h
  obtain ⟨hr, -⟩ := List.cons.inj (List.append_cancel_left h)
  exact ⟨before, c, after', rfl, rfl, hr.symm⟩

theorem mem_run (hworks : ∀ c ∈ callbacks, c.Works) {r : Record} :
    r ∈ run arch .null callbacks ↔
      ∃ before c after, callbacks = before ++ c :: after ∧ r = record arch before c := by
  constructor
  · intro hr
    obtain ⟨records, after, h⟩ := List.append_of_mem hr
    obtain ⟨before, c, after', hcallbacks, -, hr⟩ := record_of_run hworks h
    exact ⟨before, c, after', hcallbacks, hr⟩
  · rintro ⟨before, c, after, rfl, rfl⟩
    obtain ⟨after', hrun⟩ := run_cons_append arch hworks
    rw [hrun]
    exact List.mem_append_right _ List.mem_cons_self

/-- A request and what follows it have an event if and only if what follows has. -/
theorem exists_isEvent {pythonReady : Bool} {interests : Interests} {request : Output}
    (hrequest : request.isEvent = false) (outputs : List Output) :
    (∃ output ∈ decideSyscall pythonReady interests request ++ outputs, output.isEvent = true) ↔
      ∃ output ∈ outputs, output.isEvent = true := by
  constructor
  · rintro ⟨output, hmem, hevent⟩
    obtain hmem | hmem := List.mem_append.mp hmem
    · rw [mem_decideSyscall hmem, hrequest] at hevent
      exact nomatch hevent
    · exact ⟨output, hmem, hevent⟩
  · rintro ⟨output, hmem, hevent⟩
    exact ⟨output, List.mem_append_right _ hmem, hevent⟩

theorem exists_isEvent_ite {capture : Bool} {event : Output} (hevent : event.isEvent = true) :
    (∃ output ∈ if capture = true then [event] else [], output.isEvent = true) ↔
      capture = true := by
  split
  next hcapture => exact iff_of_true ⟨event, List.mem_singleton_self _, hevent⟩ hcapture
  next hcapture => exact iff_of_false (fun ⟨_, h, _⟩ => List.not_mem_nil h) hcapture

theorem record_entry {entry : Entry} (hworks : entry.threadData.Works) :
    record arch before (.entry syscall entry) =
      ⟨.entry syscall entry, decideSyscall entry.pythonReady entry.entryInterests
          (.request false (canonicalNumber arch entry.number) entry.arguments 0 0) ++
        (if entry.captures arch && entry.remembers arch then
          [.entryEvent entry.generation (canonicalNumber arch entry.number) entry.arguments]
        else []), none⟩ := by
  rw [record, step, onEntry_eq hworks (ok_left before)]

theorem emits_entry {entry : Entry} (hworks : entry.threadData.Works) :
    (record arch before (.entry syscall entry)).Emits ↔
      (entry.captures arch && entry.remembers arch) = true := by
  rw [record_entry hworks, Record.Emits, exists_isEvent rfl, exists_isEvent_ite rfl]

/-- Nothing is remembered when an exit comes. -/
theorem record_exit_null {exit : Exit}
    (h : ∀ other entry, before.getLast? = some (.entry other entry) → ¬entry.remembers arch) :
    record arch before (.exit syscall exit) = ⟨.exit syscall exit, [], none⟩ := by
  have hnull : left arch before = .null := by
    rw [left]
    cases hlast : before.getLast? with
    | none => rfl
    | some c =>
        cases c with
        | exit => rfl
        | entry other entry => exact if_neg (h other entry hlast)
  rw [record, hnull, step, onExit_null]

/-- The last callback is an entry that remembers. -/
theorem record_exit_leaves {other : Nat} {entry : Entry} {exit : Exit}
    (hworks : exit.threadData.Works) (hlast : before.getLast? = some (.entry other entry))
    (hremembers : entry.remembers arch) :
    record arch before (.exit syscall exit) =
      ⟨.exit syscall exit, decideSyscall exit.pythonReady exit.exitInterests
          (.request true (canonicalNumber arch entry.number) (.replicate 6 0) exit.returnValue
            exit.errno) ++
        (if entry.captures arch then
          [.exitEvent exit.generation (canonicalNumber arch entry.number) exit.returnValue
            exit.errno]
        else []), some other⟩ := by
  have hleft : left arch before = leaves arch (.entry other entry) := by
    rw [left, hlast]
    rfl
  rw [record, hleft, step, onExit_leaves hworks hremembers]

theorem exists_emits (hworks : ∀ c ∈ callbacks, c.Works) :
    (∃ r ∈ run arch .null callbacks, r.callback.entered = some syscall ∧ r.Emits) ↔
      ∃ entry, .entry syscall entry ∈ callbacks ∧
        (entry.captures arch && entry.remembers arch) = true := by
  constructor
  · rintro ⟨r, hr, hentered, hemits⟩
    obtain ⟨before, c, after, rfl, rfl⟩ := (mem_run hworks).mp hr
    have hmem : c ∈ before ++ c :: after := List.mem_append_right _ List.mem_cons_self
    cases c with
    | exit => exact nomatch hentered
    | entry other entry =>
        obtain rfl : other = syscall := Option.some.inj hentered
        exact ⟨entry, hmem, (emits_entry (hworks _ hmem)).mp hemits⟩
  · rintro ⟨entry, hmem, hcaptures⟩
    obtain ⟨before, after, rfl⟩ := List.append_of_mem hmem
    exact ⟨_, (mem_run hworks).mpr ⟨before, _, after, rfl, rfl⟩, rfl,
      (emits_entry (hworks _ hmem)).mpr hcaptures⟩

/-! ## Histories in order -/

/-- An exit takes a decision from the last callback before it, which is an entry that remembers. -/
theorem decision_eq_some {exit : Exit} (hworks : exit.threadData.Works) {owner : Nat}
    (h : (record arch before (.exit syscall exit)).decision = some owner) :
    ∃ entry, before.getLast? = some (.entry owner entry) ∧ entry.remembers arch := by
  by_cases hlast : ∀ other entry, before.getLast? = some (.entry other entry) →
      ¬entry.remembers arch
  · rw [record_exit_null hlast] at h
    exact nomatch h
  · push Not at hlast
    obtain ⟨other, entry, hlast, hremembers⟩ := hlast
    rw [record_exit_leaves hworks hlast hremembers] at h
    obtain rfl : other = owner := Option.some.inj h
    exact ⟨entry, hlast, hremembers⟩

theorem InOrder.own (h : InOrder arch callbacks) {exit : Exit}
    (hcallbacks : callbacks = before ++ .exit syscall exit :: after)
    (hworks : exit.threadData.Works) {owner : Nat}
    (hdecision : (record arch before (.exit syscall exit)).decision = some owner) :
    owner = syscall := by
  obtain ⟨entry, hlast, hremembers⟩ := decision_eq_some hworks hdecision
  obtain ⟨entry', hown⟩ | ⟨-, hnone⟩ := h before syscall exit after hcallbacks
  · rw [hlast] at hown
    cases hown
    rfl
  · exact absurd hremembers (hnone owner entry hlast)

theorem eq_of_nodup_filterMap {α β : Type*} {f : α → Option β} {l : List α}
    (h : (l.filterMap f).Nodup) {a a' : α} {b : β} (ha : a ∈ l) (ha' : a' ∈ l)
    (hf : f a = some b) (hf' : f a' = some b) : a = a' := by
  induction l with
  | nil => exact absurd ha List.not_mem_nil
  | cons x l ih =>
      have hrest : (l.filterMap f).Nodup := h.sublist ((List.sublist_cons_self x l).filterMap f)
      have hfirst : f x = some b → b ∉ l.filterMap f := fun hx => by
        rw [List.filterMap_cons_some hx] at h
        exact (List.nodup_cons.mp h).1
      obtain rfl | ha := List.mem_cons.mp ha
      · obtain rfl | ha' := List.mem_cons.mp ha'
        · rfl
        · exact (hfirst hf (List.mem_filterMap.mpr ⟨a', ha', hf'⟩)).elim
      · obtain heq | ha' := List.mem_cons.mp ha'
        · exact (hfirst (heq ▸ hf') (List.mem_filterMap.mpr ⟨a, ha, hf⟩)).elim
        · exact ih hrest ha ha'

/-- A syscall has one entry. -/
theorem History.entry_unique (h : History) {entry entry' : Entry}
    (hentry : .entry syscall entry ∈ h.callbacks) (hentry' : .entry syscall entry' ∈ h.callbacks) :
    entry = entry' := by
  cases eq_of_nodup_filterMap h.entered_nodup hentry hentry' rfl rfl
  rfl

/-- A syscall exits once. -/
theorem History.exit_unique (h : History) {exit exit' : Exit}
    (hcallbacks : h.callbacks = before ++ .exit syscall exit :: after) :
    .exit syscall exit' ∉ before := by
  intro hmem
  have hnodup := h.exited_nodup
  rw [hcallbacks, List.filterMap_append] at hnodup
  refine List.disjoint_of_nodup_append hnodup (List.mem_filterMap.mpr ⟨_, hmem, rfl⟩) ?_
  exact List.mem_filterMap.mpr ⟨.exit syscall exit, List.mem_cons_self, rfl⟩

theorem InOrder.once (h : History) (horder : InOrder arch h.callbacks)
    (hworks : ∀ c ∈ h.callbacks, c.Works) {exit : Exit}
    (hcallbacks : h.callbacks = before ++ .exit syscall exit :: after) :
    ∀ r ∈ run arch .null before, r.decision.isSome = true →
      r.decision ≠ (record arch before (.exit syscall exit)).decision := by
  intro r hr hsome heq
  have hbefore : ∀ c ∈ before, c.Works := fun c hc =>
    hworks c (hcallbacks ▸ List.mem_append_left _ hc)
  have hexit : exit.threadData.Works :=
    hworks (.exit syscall exit) (hcallbacks ▸ List.mem_append_right _ List.mem_cons_self)
  obtain ⟨owner, howner⟩ := Option.isSome_iff_exists.mp hsome
  obtain ⟨earlier, c, later, rfl, rfl⟩ := (mem_run hbefore).mp hr
  have hmem : c ∈ earlier ++ c :: later := List.mem_append_right _ List.mem_cons_self
  cases c with
  | entry other entry => exact nomatch howner
  | exit other exit' =>
      obtain rfl : owner = syscall := horder.own hcallbacks hexit (heq ▸ howner)
      rw [List.append_assoc, List.cons_append] at hcallbacks
      obtain rfl : owner = other := horder.own hcallbacks (hbefore _ hmem) howner
      rw [← List.cons_append, ← List.append_assoc] at hcallbacks
      exact h.exit_unique hcallbacks hmem

/-- What an exit does is for its own entry. -/
def ForEntry (arch : Arch) (before : List Callback) (syscall : Nat) (r : Record) : Prop :=
  (∀ output ∈ r.outputs, ∃ r' ∈ run arch .null before, ∃ entry,
    r'.callback = .entry syscall entry ∧ output.number = canonicalNumber arch entry.number) ∧
  (r.Emits ↔ ∃ entry, .entry syscall entry ∈ before ∧
    (entry.captures arch && entry.remembers arch) = true)

theorem forEntry_nothing (c : Callback) (hnone : ∀ entry, .entry syscall entry ∈ before →
    ¬(entry.captures arch && entry.remembers arch) = true) :
    ForEntry arch before syscall ⟨c, [], none⟩ := by
  refine ⟨fun _ h => absurd h List.not_mem_nil, iff_of_false ?_ ?_⟩
  · exact fun ⟨_, h, _⟩ => List.not_mem_nil h
  · exact fun ⟨entry, hentry, hcaptures⟩ => hnone entry hentry hcaptures

theorem forEntry_leaves {entry : Entry} {exit : Exit} (hbefore : ∀ c ∈ before, c.Works)
    (hworks : exit.threadData.Works) (hlast : before.getLast? = some (.entry syscall entry))
    (hremembers : entry.remembers arch)
    (hunique : ∀ entry', .entry syscall entry' ∈ before → entry' = entry) :
    ForEntry arch before syscall (record arch before (.exit syscall exit)) := by
  have hentry : .entry syscall entry ∈ before := List.mem_of_getLast? hlast
  rw [record_exit_leaves hworks hlast hremembers]
  constructor
  · intro output houtput
    have hnumber : output.number = canonicalNumber arch entry.number := by
      obtain houtput | houtput := List.mem_append.mp houtput
      · rw [mem_decideSyscall houtput, Output.number]
      · split at houtput
        next =>
          rw [List.mem_singleton.mp houtput, Output.number]
        next => exact absurd houtput List.not_mem_nil
    obtain ⟨earlier, later, hsplit⟩ := List.append_of_mem hentry
    exact ⟨record arch earlier (.entry syscall entry),
      (mem_run hbefore).mpr ⟨earlier, _, later, hsplit, rfl⟩, entry, rfl, hnumber⟩
  · rw [Record.Emits, exists_isEvent rfl, exists_isEvent_ite rfl]
    constructor
    · intro hcaptures
      exact ⟨entry, hentry, by rw [hcaptures, hremembers]; rfl⟩
    · rintro ⟨entry', hentry', hcaptures⟩
      rw [hunique entry' hentry', hremembers, Bool.and_true] at hcaptures
      exact hcaptures

/-- An exit in order is paired with its own entry. -/
theorem InOrder.pairedExit (h : History) (horder : InOrder arch h.callbacks)
    (hworks : ∀ c ∈ h.callbacks, c.Works) {exit : Exit}
    (hcallbacks : h.callbacks = before ++ .exit syscall exit :: after) :
    PairedExit arch (run arch .null before) syscall (record arch before (.exit syscall exit)) := by
  have hsub : ∀ {c}, c ∈ before → c ∈ h.callbacks := fun {c} hc =>
    hcallbacks ▸ List.mem_append_left _ hc
  have hbefore : ∀ c ∈ before, c.Works := fun c hc => hworks c (hsub hc)
  have hexit : exit.threadData.Works :=
    hworks (.exit syscall exit) (hcallbacks ▸ List.mem_append_right _ List.mem_cons_self)
  suffices hfor : ForEntry arch before syscall (record arch before (.exit syscall exit)) from
    ⟨fun owner howner => horder.own hcallbacks hexit howner, hfor.1,
      hfor.2.trans (exists_emits hbefore).symm, horder.once h hworks hcallbacks⟩
  obtain ⟨entry, hlast⟩ | ⟨hnone, hlast⟩ := horder before syscall exit after hcallbacks
  · have hentry : .entry syscall entry ∈ before := List.mem_of_getLast? hlast
    have hunique : ∀ entry', .entry syscall entry' ∈ before → entry' = entry :=
      fun entry' hentry' => h.entry_unique (hsub hentry') (hsub hentry)
    cases hremembers : entry.remembers arch with
    | true => exact forEntry_leaves hbefore hexit hlast hremembers hunique
    | false =>
        have hnull : ∀ other entry', before.getLast? = some (.entry other entry') →
            ¬entry'.remembers arch := fun other entry' hlast' => by
          rw [hlast] at hlast'
          cases hlast'
          rw [hremembers]
          exact Bool.false_ne_true
        rw [record_exit_null hnull]
        refine forEntry_nothing _ fun entry' hentry' => ?_
        rw [hunique entry' hentry', hremembers, Bool.and_false]
        exact Bool.false_ne_true
  · rw [record_exit_null hlast]
    exact forEntry_nothing _ hnone

/-- A paired exit is in order. -/
theorem PairedExit.inOrder {exit : Exit} (hbefore : ∀ c ∈ before, c.Works)
    (hworks : exit.threadData.Works)
    (h : PairedExit arch (run arch .null before) syscall
      (record arch before (.exit syscall exit))) :
    (∃ entry, before.getLast? = some (.entry syscall entry)) ∨
    ((∀ entry, .entry syscall entry ∈ before → ¬(entry.captures arch && entry.remembers arch)) ∧
      ∀ other entry, before.getLast? = some (.entry other entry) → ¬entry.remembers arch) := by
  cases hdecision : (record arch before (.exit syscall exit)).decision with
  | some owner =>
      obtain ⟨entry, hlast, -⟩ := decision_eq_some hworks hdecision
      obtain rfl := h.own owner hdecision
      exact .inl ⟨entry, hlast⟩
  | none =>
      have hnull : ∀ other entry, before.getLast? = some (.entry other entry) →
          ¬entry.remembers arch := by
        intro other entry hlast hremembers
        rw [record_exit_leaves hworks hlast hremembers] at hdecision
        exact nomatch hdecision
      refine .inr ⟨fun entry hentry hcaptures => ?_, hnull⟩
      obtain ⟨output, houtput, -⟩ :=
        h.emits.mpr ((exists_emits hbefore).mpr ⟨entry, hentry, hcaptures⟩)
      rw [record_exit_null hnull] at houtput
      exact List.not_mem_nil houtput

/-- All exits are paired with their own entries if and only if they come in order. -/
theorem exits_paired (arch : Arch) (h : History) (hworks : ∀ c ∈ h.callbacks, c.Works) :
    Paired arch (run arch .null h.callbacks) ↔ InOrder arch h.callbacks := by
  constructor
  · intro hpaired before syscall exit after hcallbacks
    have hbefore : ∀ c ∈ before, c.Works := fun c hc =>
      hworks c (hcallbacks ▸ List.mem_append_left _ hc)
    have hexit : exit.threadData.Works :=
      hworks (.exit syscall exit) (hcallbacks ▸ List.mem_append_right _ List.mem_cons_self)
    rw [hcallbacks] at hworks hpaired
    obtain ⟨after', hrun⟩ := run_cons_append arch hworks
    exact (hpaired _ _ _ hrun syscall rfl).inOrder hbefore hexit
  · intro horder records r after hrun syscall hexited
    obtain ⟨before, c, after', hcallbacks, rfl, rfl⟩ := record_of_run hworks hrun
    rw [record, step_callback] at hexited
    cases c with
    | entry => exact nomatch hexited
    | exit other exit =>
        obtain rfl : other = syscall := Option.some.inj hexited
        exact horder.pairedExit h hworks hcallbacks

/-- The functions for the data of a thread succeed. -/
def works : ThreadData := ⟨true, true, true⟩

/-- An entry that captures. -/
def entering (number : Nat) : Entry :=
  ⟨number, 0, .replicate 6 0, false, ⟨false, []⟩, true, .everything, ⟨false, []⟩, 0, works⟩

/-- An exit. -/
def exiting : Exit := ⟨0, 0, false, ⟨false, []⟩, 0, works⟩

/-- A syscall that captures and runs in one that does not. -/
def inside : History where
  callbacks := [.entry 0 { entering 6 with enabled := false }, .entry 1 (entering 5),
    .exit 1 exiting, .exit 0 exiting]
  entered_nodup := by decide
  exited_nodup := by decide

/-- The exits of both are paired. -/
theorem exits_paired_inside : Paired .intel64 (run .intel64 .null inside.callbacks) := by
  refine (exits_paired .intel64 inside fun c hc => ?_).mpr ?_
  · simp only [inside, List.mem_cons, List.not_mem_nil, or_false] at hc
    obtain rfl | rfl | rfl | rfl := hc
    · exact ⟨rfl, rfl⟩
    · exact ⟨rfl, rfl⟩
    · exact ⟨rfl, rfl⟩
    · exact ⟨rfl, rfl⟩
  · intro before syscall exit after h
    match before with
    | [] => exact nomatch (List.cons.inj h).1
    | [_] => exact nomatch (List.cons.inj (List.cons.inj h).2).1
    | [_, _] =>
        -- The inner syscall exits right after its entry.
        cases h
        exact .inl ⟨_, rfl⟩
    | [_, _, _] =>
        -- The outer one has remembered nothing, and the last callback is an exit.
        cases h
        refine .inr ⟨fun entry hentry => ?_, fun other entry hlast => nomatch hlast⟩
        simp only [List.mem_cons, Callback.entry.injEq, List.not_mem_nil, or_false] at hentry
        obtain ⟨-, rfl⟩ | ⟨hother, -⟩ | hexit := hentry
        · exact Bool.false_ne_true
        · exact absurd hother (by decide)
        · exact nomatch hexit
    | _ :: _ :: _ :: _ :: before => simp [inside] at h

/-- A syscall that never exits, and runs in another one. -/
def nested : History where
  callbacks := [.entry 0 (entering 6), .entry 1 (entering 5), .exit 0 exiting]
  entered_nodup := by decide
  exited_nodup := by decide

/-- The outer syscall exits with the number of the inner one. -/
theorem nested_unpaired : ¬∀ h : History, (∀ c ∈ h.callbacks, c.Works) →
    Paired .intel64 (run .intel64 .null h.callbacks) := by
  intro h
  have hworks : ∀ c ∈ nested.callbacks, c.Works := by
    intro c hc
    simp only [nested, List.mem_cons, List.not_mem_nil, or_false] at hc
    obtain rfl | rfl | rfl := hc
    · exact ⟨rfl, rfl⟩
    · exact ⟨rfl, rfl⟩
    · exact ⟨rfl, rfl⟩
  have hexit := h nested hworks [_, _] _ [] rfl 0 rfl
  exact absurd (hexit.own 1 rfl) (by decide)

end PinBridge.Syscalls
