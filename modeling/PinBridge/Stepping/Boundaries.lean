import Mathlib.Data.Fintype.Card
import PinBridge.Lib.Probing
import PinBridge.Lib.Transition

/-!
# The table of single-step boundaries

The successors of POPF instructions are kept in a table of 65536 cells that is probed linearly
(`RegisterSingleStepBoundary`, `IsSingleStepBoundary`).  A cell is free as long as it is zero.  It
is filled by a compare-and-swap, and it keeps its address.

Any number of threads call both functions.  Each atomic operation is one step.  A log is kept next
to the table; no step reads it but to tell whether an address has been registered when a search for
it starts.

A call that has lost its swap to another call for the same address goes on behind that cell
(`Ok.register`), so it may find the table full although its address is in it
(`register_refuses_present`).
-/

namespace PinBridge.Boundaries

open Function (update)
open Probing (slotAt Grows Taken Passed Reachable NoGaps)

/-- `kSingleStepBoundaryCapacity`. -/
abbrev capacity : ℕ := 65536

variable {w : ℕ}

/-- `BoundaryHash`. -/
def boundaryHash (address : BitVec w) : Fin capacity :=
  let address := address ^^^ (address >>> 17)
  let address := address * BitVec.ofNat w 0xed5ad4bb
  let address := address ^^^ (address >>> 11)
  Fin.ofNat capacity address.toNat

/-- A call of one of the functions, before its next atomic operation. -/
inductive Call (w : ℕ) where
  | idle
  /-- `RegisterSingleStepBoundary`: the load of a cell.  The last field tells whether the call has
  lost a swap to its own address. -/
  | registerLoad (address : BitVec w) (slot : Fin capacity) (probe : ℕ) (lost : Bool)
  /-- `RegisterSingleStepBoundary`: the swap of a cell that was free. -/
  | registerSwap (address : BitVec w) (slot : Fin capacity) (probe : ℕ) (lost : Bool)
  /-- `IsSingleStepBoundary`: the load of a cell.  The last field tells whether the address had been
  registered when the call began. -/
  | lookup (address : BitVec w) (slot : Fin capacity) (probe : ℕ) (known : Bool)
  deriving DecidableEq

/-- What is logged. -/
inductive Event (w : ℕ) where
  /-- `RegisterSingleStepBoundary` is called. -/
  | called (address : BitVec w)
  /-- `RegisterSingleStepBoundary` returns. -/
  | registered (address : BitVec w) (result lost : Bool)
  /-- `IsSingleStepBoundary` returns. -/
  | found (address : BitVec w) (known result : Bool)
  deriving DecidableEq

/-- The table, the calls of the threads, and the log, the newest event first. -/
structure State (w : ℕ) where
  /-- `g_single_step_boundaries`. -/
  boundaries : Fin capacity → BitVec w
  calls : ℕ → Call w
  log : List (Event w)

/-- The table is empty. -/
def State.init : State w := ⟨fun _ => 0, fun _ => .idle, []⟩

/-- What a thread does next. -/
inductive Action (w : ℕ) where
  /-- It calls `RegisterSingleStepBoundary`. -/
  | register (thread : ℕ) (address : BitVec w)
  /-- It calls `IsSingleStepBoundary`. -/
  | lookup (thread : ℕ) (address : BitVec w)
  /-- It does its next atomic operation. -/
  | step (thread : ℕ)

/-- A thread goes on. -/
def State.goOn (s : State w) (thread : ℕ) (call : Call w) : State w :=
  { s with calls := update s.calls thread call }

/-- A thread returns. -/
def State.leave (s : State w) (thread : ℕ) (event : Event w) : State w :=
  { s with calls := update s.calls thread .idle, log := event :: s.log }

/-- A register call goes to the next cell, or it has seen all of them. -/
def State.registerNext (s : State w) (thread : ℕ) (address : BitVec w) (slot : Fin capacity)
    (probe : ℕ) (lost : Bool) : State w :=
  if probe + 1 < capacity then s.goOn thread (.registerLoad address (slot + 1) (probe + 1) lost)
  else s.leave thread (.registered address false lost)

/-- The next atomic operation of a thread. -/
def State.stepCall (s : State w) (thread : ℕ) : Call w → Option (State w)
  | .idle => none
  | .registerLoad address slot probe lost =>
      if s.boundaries slot = address then
        some (s.leave thread (.registered address true lost))
      else if s.boundaries slot = 0 then
        some (s.goOn thread (.registerSwap address slot probe lost))
      else some (s.registerNext thread address slot probe lost)
  | .registerSwap address slot probe lost =>
      if s.boundaries slot = 0 then
        some (State.leave { s with boundaries := update s.boundaries slot address } thread
          (.registered address true lost))
      else
        some (s.registerNext thread address slot probe (lost || s.boundaries slot = address))
  | .lookup address slot probe known =>
      if s.boundaries slot = address then some (s.leave thread (.found address known true))
      else if s.boundaries slot = 0 then some (s.leave thread (.found address known false))
      else if probe + 1 < capacity then
        some (s.goOn thread (.lookup address (slot + 1) (probe + 1) known))
      else some (s.leave thread (.found address known false))

/-- The address has been registered. -/
def State.known (s : State w) (address : BitVec w) : Bool :=
  s.log.any fun event =>
    event = .registered address true false || event = .registered address true true

/-- One step. -/
def step (s : State w) : Action w → Option (State w)
  | .register thread address =>
      if s.calls thread ≠ .idle then none
      else
        let s := { s with log := .called address :: s.log }
        if address = 0 then some (s.leave thread (.registered address false false))
        else some (s.goOn thread (.registerLoad address (boundaryHash address) 0 false))
  | .lookup thread address =>
      if s.calls thread ≠ .idle then none
      else if address = 0 then some (s.leave thread (.found address (s.known address) false))
      else some (s.goOn thread (.lookup address (boundaryHash address) 0 (s.known address)))
  | .step thread => s.stepCall thread (s.calls thread)

/-! ## The invariant -/

/-- What a call has seen, given the cells and the log. -/
def CallOk (cells : Fin capacity → BitVec w) (log : List (Event w)) : Call w → Prop
  | .idle => True
  | .registerLoad address slot probe lost | .registerSwap address slot probe lost =>
      address ≠ 0 ∧ .called address ∈ log ∧ probe < capacity ∧
        slot = slotAt (boundaryHash address) probe ∧
        Taken 0 cells (boundaryHash address) probe ∧
        (lost = false → Passed 0 cells (boundaryHash address) address probe)
  | .lookup address slot probe known =>
      address ≠ 0 ∧ probe < capacity ∧ slot = slotAt (boundaryHash address) probe ∧
        Passed 0 cells (boundaryHash address) address probe ∧
        (known = true → Reachable 0 cells (boundaryHash address) address)

/-- What an event means, given the cells and the log. -/
def EventOk (cells : Fin capacity → BitVec w) (log : List (Event w)) : Event w → Prop
  | .called _ => True
  | .registered address true _ => address ≠ 0 ∧ Reachable 0 cells (boundaryHash address) address
  | .registered address false lost =>
      address = 0 ∨ ∀ i, cells i ≠ 0 ∧ (lost = false → cells i ≠ address)
  | .found address known result =>
      (known = true → result = true) ∧ (result = true → .called address ∈ log)

/-- The invariant. -/
structure Ok (s : State w) : Prop where
  noGaps : NoGaps 0 boundaryHash s.boundaries
  called : ∀ i, s.boundaries i ≠ 0 → .called (s.boundaries i) ∈ s.log
  calls : ∀ thread, CallOk s.boundaries s.log (s.calls thread)
  log : ∀ event ∈ s.log, EventOk s.boundaries s.log event

theorem ok_init : Ok (State.init (w := w)) where
  noGaps := fun _ hi => absurd rfl hi
  called := fun _ hi => absurd rfl hi
  calls := fun _ => trivial
  log := List.forall_mem_nil _

variable {cells cells' : Fin capacity → BitVec w} {log log' : List (Event w)}

/-- What a call has seen stays as it is. -/
theorem CallOk.mono {call : Call w} (h : CallOk cells log call) (hcells : Grows 0 cells cells')
    (hlog : log ⊆ log') : CallOk cells' log' call := by
  cases call with
  | idle => trivial
  | registerLoad address slot probe lost =>
      obtain ⟨hne, hcalled, hprobe, hslot, htaken, hpassed⟩ := h
      exact ⟨hne, hlog hcalled, hprobe, hslot, hcells.taken htaken,
        fun hlost => hcells.passed (hpassed hlost)⟩
  | registerSwap address slot probe lost =>
      obtain ⟨hne, hcalled, hprobe, hslot, htaken, hpassed⟩ := h
      exact ⟨hne, hlog hcalled, hprobe, hslot, hcells.taken htaken,
        fun hlost => hcells.passed (hpassed hlost)⟩
  | lookup address slot probe known =>
      obtain ⟨hne, hprobe, hslot, hpassed, hknown⟩ := h
      exact ⟨hne, hprobe, hslot, hcells.passed hpassed,
        fun h => hcells.reachable hne (hknown h)⟩

/-- What an event means stays true. -/
theorem EventOk.mono {event : Event w} (h : EventOk cells log event)
    (hcells : Grows 0 cells cells') (hlog : log ⊆ log') : EventOk cells' log' event := by
  cases event with
  | called address => trivial
  | registered address result lost =>
      cases result with
      | true => exact ⟨h.1, hcells.reachable h.1 h.2⟩
      | false =>
          refine h.imp_right fun hfull i => ?_
          rw [hcells i (hfull i).1]
          exact hfull i
  | found address known result => exact ⟨h.1, fun hresult => hlog (h.2 hresult)⟩

/-- A step changes the call of a thread, lets the cells grow and logs some events. -/
theorem Ok.next {s s' : State w} (h : Ok s) (thread : ℕ) (call : Call w) (events : List (Event w))
    (hcells : Grows 0 s.boundaries s'.boundaries) (hcalls : s'.calls = update s.calls thread call)
    (hlog : s'.log = events ++ s.log) (hnoGaps : NoGaps 0 boundaryHash s'.boundaries)
    (hcalled : ∀ i, s'.boundaries i ≠ 0 → .called (s'.boundaries i) ∈ s'.log)
    (hcall : CallOk s'.boundaries s'.log call)
    (hevents : ∀ event ∈ events, EventOk s'.boundaries s'.log event) : Ok s' where
  noGaps := hnoGaps
  called := hcalled
  calls := fun other => by
    rw [hcalls]
    rcases eq_or_ne other thread with rfl | hne
    · rw [Function.update_self]
      exact hcall
    · rw [Function.update_of_ne hne]
      exact (h.calls other).mono hcells (hlog ▸ List.subset_append_right _ _)
  log := fun event hevent => by
    rw [hlog] at hevent
    rcases List.mem_append.mp hevent with hnew | hold
    · exact hevents event hnew
    · exact (h.log event hold).mono hcells (hlog ▸ List.subset_append_right _ _)

/-- A thread goes on, and the table stays as it is. -/
theorem Ok.goOn {s : State w} (h : Ok s) (thread : ℕ) {call : Call w}
    (hcall : CallOk s.boundaries s.log call) : Ok (s.goOn thread call) :=
  h.next thread call [] (.refl _) rfl rfl h.noGaps h.called hcall (List.forall_mem_nil _)

/-- A thread returns, and the table stays as it is. -/
theorem Ok.leave {s : State w} (h : Ok s) (thread : ℕ) {event : Event w}
    (hevent : EventOk s.boundaries s.log event) : Ok (s.leave thread event) :=
  h.next thread .idle [event] (.refl _) rfl rfl h.noGaps
    (fun i hi => List.mem_cons_of_mem _ (h.called i hi)) trivial
    (List.forall_mem_singleton.mpr (hevent.mono (.refl _) (List.subset_cons_self _ _)))

/-- A register call goes on behind a cell that is taken. -/
theorem Ok.registerNext {s : State w} (h : Ok s) (thread : ℕ) {address : BitVec w}
    {slot : Fin capacity} {probe : ℕ} {lost lost' : Bool}
    (hcall : CallOk s.boundaries s.log (.registerLoad address slot probe lost))
    (hcell : s.boundaries slot ≠ 0)
    (hlost : lost' = false → lost = false ∧ s.boundaries slot ≠ address) :
    Ok (s.registerNext thread address slot probe lost') := by
  obtain ⟨hne, hcalled, hprobe, rfl, htaken, hpassed⟩ := hcall
  have htaken' := htaken.succ hcell
  have hpassed' : lost' = false →
      Passed 0 s.boundaries (boundaryHash address) address (probe + 1) := fun h =>
    (hpassed (hlost h).1).succ hcell (hlost h).2
  rw [State.registerNext]
  split
  next hmore =>
    exact h.goOn thread ⟨hne, hcalled, hmore, (Probing.slotAt_succ _ _).symm, htaken', hpassed'⟩
  next hend =>
    have hall : probe + 1 = capacity := by omega
    rw [hall] at htaken' hpassed'
    exact h.leave thread (.inr fun i =>
      ⟨htaken'.full i, fun hno => ((hpassed' hno).full i).2⟩)

/-- The swap fills the first free cell. -/
theorem Ok.fill {s : State w} (h : Ok s) (thread : ℕ) {address : BitVec w} {slot : Fin capacity}
    {probe : ℕ} {lost : Bool}
    (hcall : CallOk s.boundaries s.log (.registerSwap address slot probe lost))
    (hcell : s.boundaries slot = 0) :
    Ok (State.leave { s with boundaries := update s.boundaries slot address } thread
      (.registered address true lost)) := by
  obtain ⟨hne, hcalled, hprobe, rfl, htaken, hpassed⟩ := hcall
  obtain ⟨hnoGaps, hreach⟩ := h.noGaps.fill htaken hcell
  have hkeys : ∀ i, update s.boundaries (slotAt (boundaryHash address) probe) address i ≠ 0 →
      .called (update s.boundaries (slotAt (boundaryHash address) probe) address i) ∈ s.log := by
    intro i hi
    rcases eq_or_ne i (slotAt (boundaryHash address) probe) with rfl | hother
    · rw [Function.update_self]
      exact hcalled
    · rw [Function.update_of_ne hother] at hi ⊢
      exact h.called i hi
  exact h.next thread .idle [.registered address true lost] (Probing.grows_fill hcell) rfl rfl
    hnoGaps (fun i hi => List.mem_cons_of_mem _ (hkeys i hi)) trivial
    (List.forall_mem_singleton.mpr ⟨hne, hreach⟩)

/-- A load that finds its address. -/
theorem reachable_of_load {s : State w} {address : BitVec w} {probe : ℕ}
    (htaken : Taken 0 s.boundaries (boundaryHash address) probe)
    (h : s.boundaries (slotAt (boundaryHash address) probe) = address) :
    Reachable 0 s.boundaries (boundaryHash address) address :=
  ⟨probe, h, htaken⟩

theorem Ok.stepCall {s s' : State w} (h : Ok s) {thread : ℕ}
    (hstep : s.stepCall thread (s.calls thread) = some s') : Ok s' := by
  have hcall := h.calls thread
  generalize s.calls thread = call at hcall hstep
  cases call with
  | idle => exact nomatch hstep
  | registerLoad address slot probe lost =>
      have hcall' := hcall
      obtain ⟨hne, hcalled, hprobe, hslot, htaken, hpassed⟩ := hcall
      rw [State.stepCall] at hstep
      split at hstep
      next hfound =>
        obtain rfl := Option.some.inj hstep
        exact h.leave thread ⟨hne, reachable_of_load htaken (hslot ▸ hfound)⟩
      next hother =>
        split at hstep
        next =>
          obtain rfl := Option.some.inj hstep
          exact h.goOn thread hcall'
        next hcell =>
          obtain rfl := Option.some.inj hstep
          exact h.registerNext thread hcall' hcell fun hlost => ⟨hlost, hother⟩
  | registerSwap address slot probe lost =>
      rw [State.stepCall] at hstep
      split at hstep
      next hcell =>
        obtain rfl := Option.some.inj hstep
        exact h.fill thread hcall hcell
      next hcell =>
        obtain rfl := Option.some.inj hstep
        refine h.registerNext thread hcall hcell fun hlost => ?_
        obtain ⟨hno, hother⟩ := Bool.or_eq_false_iff.mp hlost
        exact ⟨hno, of_decide_eq_false hother⟩
  | lookup address slot probe known =>
      obtain ⟨hne, hprobe, rfl, hpassed, hknown⟩ := hcall
      rw [State.stepCall] at hstep
      split at hstep
      next hfound =>
        obtain rfl := Option.some.inj hstep
        refine h.leave thread ⟨fun _ => rfl, fun _ => ?_⟩
        have hcalled := h.called (slotAt (boundaryHash address) probe)
        rw [hfound] at hcalled
        exact hcalled hne
      next hother =>
        split at hstep
        next hfree =>
          obtain rfl := Option.some.inj hstep
          exact h.leave thread
            ⟨fun h => absurd hfree (hpassed.ne_free hne (hknown h)), fun h => nomatch h⟩
        next hcell =>
          have hpassed' := hpassed.succ hcell hother
          split at hstep
          next hmore =>
            obtain rfl := Option.some.inj hstep
            exact h.goOn thread
              ⟨hne, hmore, (Probing.slotAt_succ _ _).symm, hpassed', hknown⟩
          next hend =>
            obtain rfl := Option.some.inj hstep
            have hall : probe + 1 = capacity := by omega
            rw [hall] at hpassed'
            exact h.leave thread
              ⟨fun h => absurd (hknown h) hpassed'.not_reachable, fun h => nomatch h⟩

/-- A registered address is in the table. -/
theorem Ok.reachable_of_known {s : State w} (h : Ok s) {address : BitVec w}
    (hknown : s.known address = true) :
    address ≠ 0 ∧ Reachable 0 s.boundaries (boundaryHash address) address := by
  obtain ⟨event, hevent, heq⟩ := List.any_eq_true.mp hknown
  rcases Bool.or_eq_true_iff.mp heq with heq | heq
  · obtain rfl := of_decide_eq_true heq
    exact h.log _ hevent
  · obtain rfl := of_decide_eq_true heq
    exact h.log _ hevent

/-- Every step keeps the invariant. -/
theorem Ok.step {s s' : State w} (h : Ok s) {action : Action w}
    (hstep : Boundaries.step s action = some s') : Ok s' := by
  cases action with
  | step thread => exact h.stepCall hstep
  | lookup thread address =>
      rw [Boundaries.step] at hstep
      split at hstep
      next => exact nomatch hstep
      next =>
        split at hstep
        next hzero =>
          obtain rfl := Option.some.inj hstep
          exact h.leave thread
            ⟨fun hknown => absurd hzero (h.reachable_of_known hknown).1, fun h => nomatch h⟩
        next hne =>
          obtain rfl := Option.some.inj hstep
          exact h.goOn thread ⟨hne, by decide, (Probing.slotAt_zero _).symm,
            fun j hj => absurd hj (Nat.not_lt_zero j),
            fun hknown => (h.reachable_of_known hknown).2⟩
  | register thread address =>
      rw [Boundaries.step] at hstep
      split at hstep
      next => exact nomatch hstep
      next =>
        have hcalled : Ok { s with log := .called address :: s.log } :=
          h.next thread (s.calls thread) [.called address] (.refl _)
             (Function.update_eq_self _ _).symm rfl h.noGaps
            (fun i hi => List.mem_cons_of_mem _ (h.called i hi))
            ((h.calls thread).mono (.refl _) (List.subset_cons_self _ _))
            (List.forall_mem_singleton.mpr trivial)
        dsimp only at hstep
        split at hstep
        next hzero =>
          obtain rfl := Option.some.inj hstep
          exact hcalled.leave thread (.inl hzero)
        next hne =>
          obtain rfl := Option.some.inj hstep
          exact hcalled.goOn thread ⟨hne, List.mem_cons_self, by decide,
            (Probing.slotAt_zero _).symm, fun j hj => absurd hj (Nat.not_lt_zero j),
            fun _ j hj => absurd hj (Nat.not_lt_zero j)⟩

/-! ## Loops -/

/-- The atomic operations that a call has at most before it. -/
def Call.work : Call w → ℕ
  | .idle => 0
  | .registerLoad _ _ probe _ => 2 * (capacity - probe)
  | .registerSwap _ _ probe _ => 2 * (capacity - probe) - 1
  | .lookup _ _ probe _ => capacity - probe

/-- The action is an atomic operation of a thread. -/
def Action.isStep (thread : ℕ) : Action w → Bool
  | .step other => other = thread
  | _ => false

/-- The action is a call by a thread. -/
def Action.isCall (thread : ℕ) : Action w → Bool
  | .register other _ | .lookup other _ => other = thread
  | .step _ => false

@[simp] theorem State.goOn_calls (s : State w) (thread : ℕ) (call : Call w) :
    (s.goOn thread call).calls = update s.calls thread call := rfl

@[simp] theorem State.leave_calls (s : State w) (thread : ℕ) (event : Event w) :
    (s.leave thread event).calls = update s.calls thread .idle := rfl

@[simp] theorem State.goOn_goOn (s : State w) (thread : ℕ) (call call' : Call w) :
    (s.goOn thread call).goOn thread call' = s.goOn thread call' := by
  rw [State.goOn, State.goOn, State.goOn]
  dsimp only
  rw [Function.update_idem]

/-- The next cell is nearer to the end. -/
theorem State.registerNext_work (s : State w) (thread : ℕ) (address : BitVec w)
    (slot : Fin capacity) {probe : ℕ} (hprobe : probe < capacity) (lost : Bool) :
    ∃ call, (s.registerNext thread address slot probe lost).calls =
      update s.calls thread call ∧ call.work + 2 ≤ 2 * (capacity - probe) := by
  rw [State.registerNext]
  split
  next hmore =>
    refine ⟨_, rfl, ?_⟩
    rw [Call.work]
    omega
  next hend =>
    refine ⟨_, rfl, ?_⟩
    rw [Call.work]
    omega

/-- An atomic operation changes the call of its thread, which has less before it. -/
theorem State.stepCall_work {s s' : State w} {thread : ℕ}
    (hcall : CallOk s.boundaries s.log (s.calls thread))
    (hstep : s.stepCall thread (s.calls thread) = some s') :
    ∃ call, s'.calls = update s.calls thread call ∧ call.work + 1 ≤ (s.calls thread).work := by
  generalize s.calls thread = call at hcall hstep
  cases call with
  | idle => exact nomatch hstep
  | registerLoad address slot probe lost =>
      have hprobe := hcall.2.2.1
      rw [State.stepCall] at hstep
      split at hstep
      next =>
        obtain rfl := Option.some.inj hstep
        refine ⟨_, rfl, ?_⟩
        rw [Call.work, Call.work]
        omega
      next =>
        split at hstep
        next =>
          obtain rfl := Option.some.inj hstep
          refine ⟨_, rfl, ?_⟩
          rw [Call.work, Call.work]
          omega
        next =>
          obtain rfl := Option.some.inj hstep
          obtain ⟨call, hcalls, hwork⟩ :=
            s.registerNext_work thread address slot hprobe lost
          refine ⟨call, hcalls, ?_⟩
          rw [Call.work]
          omega
  | registerSwap address slot probe lost =>
      have hprobe := hcall.2.2.1
      rw [State.stepCall] at hstep
      split at hstep
      next =>
        obtain rfl := Option.some.inj hstep
        refine ⟨_, rfl, ?_⟩
        rw [Call.work, Call.work]
        omega
      next =>
        obtain rfl := Option.some.inj hstep
        obtain ⟨call, hcalls, hwork⟩ := s.registerNext_work thread address slot hprobe _
        refine ⟨call, hcalls, ?_⟩
        rw [Call.work]
        omega
  | lookup address slot probe known =>
      have hprobe := hcall.2.1
      have hleave : ∀ event : Event w, ∃ call, (s.leave thread event).calls =
          update s.calls thread call ∧
          call.work + 1 ≤ (Call.lookup address slot probe known).work := by
        intro event
        refine ⟨_, rfl, ?_⟩
        rw [Call.work, Call.work]
        omega
      rw [State.stepCall] at hstep
      split at hstep
      next =>
        obtain rfl := Option.some.inj hstep
        exact hleave _
      next =>
        split at hstep
        next =>
          obtain rfl := Option.some.inj hstep
          exact hleave _
        next =>
          split at hstep
          next =>
            obtain rfl := Option.some.inj hstep
            refine ⟨_, rfl, ?_⟩
            rw [Call.work, Call.work]
            omega
          next =>
            obtain rfl := Option.some.inj hstep
            exact hleave _

/-- A call has at most two atomic operations for each cell. -/
theorem Ok.work_step {s s' : State w} (h : Ok s) {action : Action w}
    (hstep : Boundaries.step s action = some s') (thread : ℕ) :
    (if action.isStep thread then 1 else 0) + (s'.calls thread).work ≤
      (s.calls thread).work + 2 * capacity * (if action.isCall thread then 1 else 0) := by
  have hbegin : ∀ {other : ℕ} {call : Call w}, s'.calls = update s.calls other call →
      call.work ≤ 2 * capacity →
      (s'.calls thread).work ≤
        (s.calls thread).work + 2 * capacity * (if decide (other = thread) then 1 else 0) := by
    intro other call hcalls hwork
    rw [hcalls]
    rcases eq_or_ne thread other with rfl | hne
    · rw [Function.update_self, if_pos (decide_eq_true rfl)]
      omega
    · rw [Function.update_of_ne hne]
      omega
  cases action with
  | register other address =>
      rw [Boundaries.step] at hstep
      split at hstep
      next => exact nomatch hstep
      next =>
        rw [if_neg (by simp [Action.isStep]), Nat.zero_add]
        dsimp only at hstep
        split at hstep
        next =>
          obtain rfl := Option.some.inj hstep
          exact hbegin rfl (Nat.zero_le _)
        next =>
          obtain rfl := Option.some.inj hstep
          exact hbegin rfl (Nat.le_refl _)
  | lookup other address =>
      rw [Boundaries.step] at hstep
      split at hstep
      next => exact nomatch hstep
      next =>
        rw [if_neg (by simp [Action.isStep]), Nat.zero_add]
        split at hstep
        next =>
          obtain rfl := Option.some.inj hstep
          exact hbegin rfl (Nat.zero_le _)
        next =>
          obtain rfl := Option.some.inj hstep
          refine hbegin rfl ?_
          rw [Call.work]
          omega
  | step other =>
      obtain ⟨call, hcalls, hwork⟩ := State.stepCall_work (h.calls other) hstep
      rw [hcalls]
      rcases eq_or_ne thread other with rfl | hne
      · rw [Function.update_self, if_pos (by simp [Action.isStep])]
        omega
      · rw [Function.update_of_ne hne, if_neg (by simp [Action.isStep, hne.symm])]
        omega

theorem Ok.work_run {as : List (Action w)} {s u : State w} (h : Ok s)
    (hrun : Transition.run Boundaries.step s as = some u) (thread : ℕ) :
    as.countP (·.isStep thread) + (u.calls thread).work ≤
      (s.calls thread).work + 2 * capacity * as.countP (·.isCall thread) := by
  induction as generalizing s with
  | nil =>
      cases hrun
      simp
  | cons action as ih =>
      obtain ⟨t, hstep, hrun⟩ := Transition.run_cons_eq_some.mp hrun
      have hrest := ih (h.step hstep) hrun
      have hfirst := h.work_step hstep thread
      rw [List.countP_cons, List.countP_cons, Nat.mul_add]
      omega

/-- A call that has not returned can go on. -/
theorem step_isSome {s : State w} {thread : ℕ} (h : s.calls thread ≠ .idle) :
    (step s (.step thread)).isSome := by
  rw [step]
  generalize s.calls thread = call at h
  cases call with
  | idle => exact absurd rfl h
  | registerLoad address slot probe lost =>
      rw [State.stepCall]
      split
      next => rfl
      next =>
        split
        next => rfl
        next => rfl
  | registerSwap address slot probe lost =>
      rw [State.stepCall]
      split
      next => rfl
      next => rfl
  | lookup address slot probe known =>
      rw [State.stepCall]
      split
      next => rfl
      next =>
        split
        next => rfl
        next =>
          split
          next => rfl
          next => rfl

/-! ## The set -/

/-- What is promised of the table. -/
structure Exact (s : State w) : Prop where
  /-- A registered address is found. -/
  found : ∀ address result, .found address true result ∈ s.log → result = true
  /-- An address that is found has been registered. -/
  sound : ∀ address known, .found address known true ∈ s.log → .called address ∈ s.log
  /-- A register call is refused if the address is zero or the table is full, without the address
  unless the call has lost a swap to it. -/
  refused : ∀ address lost, .registered address false lost ∈ s.log →
    address = 0 ∨ ∀ i, s.boundaries i ≠ 0 ∧ (lost = false → s.boundaries i ≠ address)

theorem Ok.exact {s : State w} (h : Ok s) : Exact s where
  found := fun _ _ hmem => (h.log _ hmem).1 rfl
  sound := fun _ _ hmem => (h.log _ hmem).2 rfl
  refused := fun _ _ hmem => h.log _ hmem

/-- The table is a set in every state that is reached, and every call ends. -/
theorem boundaries_exact {as : List (Action w)} {u : State w}
    (hrun : Transition.run step State.init as = some u) :
    Exact u ∧ ∀ thread,
      as.countP (·.isStep thread) ≤ 2 * capacity * as.countP (·.isCall thread) ∧
      (u.calls thread ≠ .idle → (step u (.step thread)).isSome) := by
  have hok : Ok u := Transition.run_invariant (fun h hstep => h.step hstep) ok_init hrun
  refine ⟨hok.exact, fun thread => ⟨?_, step_isSome⟩⟩
  have hwork := ok_init.work_run hrun thread
  have hidle : ((State.init (w := w)).calls thread).work = 0 := rfl
  omega

/-- Two addresses with the same first cell. -/
theorem boundaryHash_collides : boundaryHash 0x40101e#64 = boundaryHash 0x401135#64 := by
  decide +kernel

/-- Threads 0 and 1 register one of the addresses and thread 2 the other one.  All three find the
cell free, and thread 0 wins the swap.  Thread 1 has lost to its own address and registers it once
more, behind the cell that thread 2 has filled. -/
def racing : List (Action 64) :=
  [.register 0 0x40101e#64, .register 1 0x40101e#64, .register 2 0x401135#64,
    .step 0, .step 1, .step 2, .step 0, .step 1, .step 2, .step 2, .step 1, .step 2,
    .step 1, .step 1, .step 1,
    .lookup 3 0x401135#64, .step 3, .step 3, .lookup 4 0x40101e#64, .step 4]

theorem boundaries_exact_racing :
    ∃ u, Transition.run step State.init racing = some u ∧ Exact u ∧
      u.log = [.found 0x40101e#64 true true, .found 0x401135#64 true true,
        .registered 0x40101e#64 true true, .registered 0x401135#64 true false,
        .registered 0x40101e#64 true false, .called 0x401135#64, .called 0x40101e#64,
        .called 0x40101e#64] := by
  have hlog : (Transition.run step State.init racing).map State.log =
      some [.found 0x40101e#64 true true, .found 0x401135#64 true true,
        .registered 0x40101e#64 true true, .registered 0x401135#64 true false,
        .registered 0x40101e#64 true false, .called 0x401135#64, .called 0x40101e#64,
        .called 0x40101e#64] := by decide +kernel
  obtain ⟨u, hu, hlog⟩ := Option.map_eq_some_iff.mp hlog
  exact ⟨u, hu, (boundaries_exact hu).1, hlog⟩

/-! ## A lost swap -/

section

variable {s u : State w} {thread : ℕ} {address : BitVec w} {probe : ℕ} {lost : Bool}

/-- A register call passes cells with other addresses. -/
theorem run_walk (distance : ℕ)
    (hcall : s.calls thread =
      .registerLoad address (slotAt (boundaryHash address) probe) probe lost)
    (hprobe : probe + distance < capacity)
    (hcells : ∀ j, probe ≤ j → j < probe + distance →
      s.boundaries (slotAt (boundaryHash address) j) ≠ 0 ∧
      s.boundaries (slotAt (boundaryHash address) j) ≠ address) :
    Transition.run step s (List.replicate distance (.step thread)) =
      some (s.goOn thread (.registerLoad address
        (slotAt (boundaryHash address) (probe + distance)) (probe + distance) lost)) := by
  induction distance generalizing s probe with
  | zero =>
      rw [List.replicate_zero, Transition.run_nil, State.goOn, Nat.add_zero, ← hcall,
        Function.update_eq_self]
  | succ distance ih =>
      obtain ⟨hcell, hother⟩ := hcells probe (Nat.le_refl _) (by omega)
      have hfirst : step s (.step thread) = some (s.goOn thread (.registerLoad address
          (slotAt (boundaryHash address) (probe + 1)) (probe + 1) lost)) := by
        rw [step, hcall, State.stepCall, if_neg hother, if_neg hcell, State.registerNext,
          if_pos (by omega), Probing.slotAt_succ]
      have hsum : probe + 1 + distance = probe + (distance + 1) := by omega
      have hrest := ih (s := s.goOn thread (.registerLoad address
        (slotAt (boundaryHash address) (probe + 1)) (probe + 1) lost)) (Function.update_self ..)
        (by omega) fun j hlow hhigh => hcells j (by omega) (by omega)
      rw [List.replicate_succ, Transition.run_cons, hfirst, Option.bind_some, hrest, hsum,
        State.goOn_goOn]

/-- A register call gets to the swap of the first free cell. -/
theorem run_register (hidle : s.calls thread = .idle) (hne : address ≠ 0)
    (hprobe : probe < capacity)
    (hcells : ∀ j < probe, s.boundaries (slotAt (boundaryHash address) j) ≠ 0 ∧
      s.boundaries (slotAt (boundaryHash address) j) ≠ address)
    (hfree : s.boundaries (slotAt (boundaryHash address) probe) = 0) :
    ∃ as s', Transition.run step s as = some s' ∧ s'.boundaries = s.boundaries ∧
      s'.calls = update s.calls thread
        (.registerSwap address (slotAt (boundaryHash address) probe) probe false) := by
  have hbegin : step s (.register thread address) = some (State.goOn
      { s with log := .called address :: s.log } thread
      (.registerLoad address (boundaryHash address) 0 false)) := by
    rw [step, if_neg (not_not_intro hidle)]
    dsimp only
    rw [if_neg hne]
  have hwalk : Transition.run step (State.goOn { s with log := .called address :: s.log } thread
      (.registerLoad address (boundaryHash address) 0 false))
      (List.replicate probe (.step thread)) = _ :=
    run_walk probe (by rw [Probing.slotAt_zero]; exact Function.update_self ..) (by omega)
      fun j _ hj => hcells j (by omega)
  refine ⟨.register thread address :: (List.replicate probe (.step thread) ++ [.step thread]),
    ⟨s.boundaries, update s.calls thread (.registerSwap address
      (slotAt (boundaryHash address) probe) probe false), .called address :: s.log⟩, ?_, rfl, rfl⟩
  rw [Transition.run_cons, hbegin, Option.bind_some, Transition.run_append, hwalk,
    Option.bind_some, Transition.run_cons, step, State.goOn_calls, Function.update_self,
    State.stepCall, Nat.zero_add]
  simp only [State.goOn, hfree, hne.symm, if_true, if_false, Option.bind_some, Transition.run_nil,
    Function.update_idem]

/-- A swap of a free cell. -/
theorem step_swap {slot : Fin capacity}
    (hcall : s.calls thread = .registerSwap address slot probe lost)
    (hcell : s.boundaries slot = 0) :
    step s (.step thread) = some (State.leave
      { s with boundaries := update s.boundaries slot address } thread
      (.registered address true lost)) := by
  rw [step, hcall, State.stepCall, if_pos hcell]

/-- A register call that has only taken cells before it is refused. -/
theorem run_refused (hcall : s.calls thread =
      .registerLoad address (slotAt (boundaryHash address) probe) probe lost)
    (hprobe : probe < capacity)
    (hcells : ∀ j, probe ≤ j → j < capacity →
      s.boundaries (slotAt (boundaryHash address) j) ≠ 0 ∧
      s.boundaries (slotAt (boundaryHash address) j) ≠ address) :
    ∃ as, Transition.run step s as = some (s.leave thread (.registered address false lost)) := by
  obtain ⟨distance, hdistance⟩ := Nat.exists_eq_add_of_lt hprobe
  have hwalk := run_walk distance hcall (by omega) fun j hlow hhigh => hcells j hlow (by omega)
  obtain ⟨hcell, hother⟩ := hcells (probe + distance) (by omega) (by omega)
  refine ⟨List.replicate distance (.step thread) ++ [.step thread], ?_⟩
  rw [Transition.run_append, hwalk, Option.bind_some, Transition.run_cons, step,
    State.goOn_calls, Function.update_self, State.stepCall]
  have hlast : ¬probe + distance + 1 < capacity := by omega
  simp only [State.goOn, hcell, hother, State.registerNext, State.leave, hlast, if_false,
    Option.bind_some, Transition.run_nil, Function.update_idem]

end

/-- The first free cell of a search. -/
theorem exists_free {cells : Fin capacity → BitVec w} {i : Fin capacity} (hi : cells i = 0)
    (home : Fin capacity) :
    ∃ k < capacity, cells (slotAt home k) = 0 ∧ ∀ j < k, cells (slotAt home j) ≠ 0 := by
  obtain ⟨k, hk, rfl⟩ := Probing.exists_slotAt home i
  have hexists : ∃ k, cells (slotAt home k) = 0 := ⟨k, hi⟩
  exact ⟨Nat.find hexists, (Nat.find_min' hexists hi).trans_lt hk, Nat.find_spec hexists,
    fun j hj => Nat.find_min hexists hj⟩

/-- A table that one thread has filled with the first addresses. -/
structure Filled (s : State 64) (m : ℕ) : Prop where
  idle : ∀ thread, s.calls thread = .idle
  small : ∀ i, (s.boundaries i).toNat ≤ m
  card : (Finset.univ.filter fun i => s.boundaries i ≠ 0).card = m

theorem Filled.exists_free {s : State 64} {m : ℕ} (h : Filled s m) (hm : m < capacity) :
    ∃ i, s.boundaries i = 0 := by
  by_contra hno
  have hall : (Finset.univ.filter fun i => s.boundaries i ≠ 0) = Finset.univ :=
    Finset.filter_true_of_mem fun i _ hi => hno ⟨i, hi⟩
  have hcard := h.card
  rw [hall, Finset.card_univ, Fintype.card_fin] at hcard
  omega

theorem Filled.ne {s : State 64} {m : ℕ} (h : Filled s m) {address : BitVec 64}
    (haddress : m < address.toNat) (i : Fin capacity) : s.boundaries i ≠ address := by
  rintro rfl
  exact Nat.not_lt.mpr (h.small i) haddress

/-- The next address is put into a free cell. -/
theorem Filled.fill {s s' : State 64} {m : ℕ} (h : Filled s m) {address : BitVec 64}
    (haddress : address.toNat = m + 1) {i : Fin capacity} (hi : s.boundaries i = 0)
    (hidle : ∀ thread, s'.calls thread = .idle)
    (hboundaries : s'.boundaries = update s.boundaries i address) : Filled s' (m + 1) where
  idle := hidle
  small := fun j => by
    rw [hboundaries]
    rcases eq_or_ne j i with rfl | hne
    · rw [Function.update_self, haddress]
    · rw [Function.update_of_ne hne]
      exact Nat.le_succ_of_le (h.small j)
  card := by
    have hne : address ≠ 0 := by
      rintro rfl
      exact absurd haddress (by simp)
    have hinsert : (Finset.univ.filter fun j => s'.boundaries j ≠ 0) =
        insert i (Finset.univ.filter fun j => s.boundaries j ≠ 0) := by
      ext j
      rw [Finset.mem_insert, Finset.mem_filter_univ, Finset.mem_filter_univ, hboundaries]
      rcases eq_or_ne j i with rfl | hji
      · rw [Function.update_self]
        exact ⟨fun _ => .inl rfl, fun _ => hne⟩
      · rw [Function.update_of_ne hji]
        exact ⟨.inr, fun h => h.resolve_left hji⟩
    rw [hinsert, Finset.card_insert_of_notMem (by simp [hi]), h.card]

/-- An address as a number. -/
theorem toNat_address {m : ℕ} (hm : m + 1 ≤ capacity) :
    (BitVec.ofNat 64 (m + 1)).toNat = m + 1 ∧ BitVec.ofNat 64 (m + 1) ≠ 0 := by
  have hlt : m + 1 < 2 ^ 64 := Nat.lt_of_le_of_lt hm (by decide)
  have htoNat : (BitVec.ofNat 64 (m + 1)).toNat = m + 1 := by
    rw [BitVec.toNat_ofNat, Nat.mod_eq_of_lt hlt]
  refine ⟨htoNat, fun hzero => ?_⟩
  rw [hzero] at htoNat
  exact absurd htoNat (by simp)

/-- The table can be filled. -/
theorem exists_filled (m : ℕ) (hm : m < capacity) :
    ∃ as s, Transition.run step State.init as = some s ∧ Filled s m := by
  induction m with
  | zero => exact ⟨[], _, rfl, fun _ => rfl, fun _ => Nat.le_refl 0, by simp [State.init]⟩
  | succ m ih =>
      obtain ⟨as, s, hrun, hfilled⟩ := ih (by omega)
      obtain ⟨i, hi⟩ := hfilled.exists_free (by omega)
      obtain ⟨haddress, hne⟩ := toNat_address (m := m) (by omega)
      generalize BitVec.ofNat 64 (m + 1) = address at haddress hne
      obtain ⟨k, hk, hfree, htaken⟩ := Boundaries.exists_free hi (boundaryHash address)
      obtain ⟨bs, s₁, hregister, hboundaries, hcalls⟩ := run_register (hfilled.idle 0) hne hk
        (fun j hj => ⟨htaken j hj, hfilled.ne (by omega) _⟩) hfree
      have hswap := step_swap (s := s₁) (by rw [hcalls]; exact Function.update_self ..)
        (by rw [hboundaries]; exact hfree)
      generalize hs₂ : State.leave
        { s₁ with boundaries := update s₁.boundaries (slotAt (boundaryHash address) k) address } 0
        (.registered address true false) = s₂ at hswap
      refine ⟨as ++ (bs ++ [.step 0]), s₂, ?_,
        hfilled.fill haddress hfree (fun thread => ?_) ?_⟩
      · rw [Transition.run_append, hrun, Option.bind_some, Transition.run_append, hregister,
          Option.bind_some, Transition.run_cons, hswap, Option.bind_some, Transition.run_nil]
      · rw [← hs₂, State.leave_calls]
        dsimp only
        rw [hcalls, Function.update_idem]
        rcases eq_or_ne thread 0 with rfl | hthread
        · rw [Function.update_self]
        · rw [Function.update_of_ne hthread]
          exact hfilled.idle thread
      · rw [← hs₂, ← hboundaries]
        rfl

/-- One cell is left. -/
theorem Filled.only_free {s : State 64} (h : Filled s 65535) {i j : Fin capacity}
    (hi : s.boundaries i = 0) (hne : j ≠ i) : s.boundaries j ≠ 0 := by
  intro hj
  have hsubset : (Finset.univ.filter fun i => s.boundaries i ≠ 0) ⊆
      (Finset.univ.erase i).erase j := by
    intro l hl
    rw [Finset.mem_filter_univ] at hl
    refine Finset.mem_erase.mpr ⟨?_, Finset.mem_erase.mpr ⟨?_, Finset.mem_univ l⟩⟩
    · rintro rfl
      exact hl hj
    · rintro rfl
      exact hl hi
  have hcard := Finset.card_le_card hsubset
  rw [h.card, Finset.card_erase_of_mem (Finset.mem_erase.mpr ⟨hne, Finset.mem_univ j⟩),
    Finset.card_erase_of_mem (Finset.mem_univ i), Finset.card_univ, Fintype.card_fin] at hcard
  exact absurd hcard (by decide)

/-- Two calls for one address race for the last free cell.  The call that loses is refused although
the address is in the table. -/
theorem register_refuses_present :
    ∃ as, ∃ u : State 64, Transition.run step State.init as = some u ∧
      ∃ address, address ≠ 0 ∧ .registered address false true ∈ u.log ∧
        ∃ i, u.boundaries i = address := by
  obtain ⟨as, s, hrun, hfilled⟩ := exists_filled 65535 (by decide)
  obtain ⟨i, hi⟩ := hfilled.exists_free (by decide)
  obtain ⟨haddress, hne⟩ := toNat_address (m := 65535) (Nat.le_refl _)
  generalize BitVec.ofNat 64 (65535 + 1) = address at haddress hne
  obtain ⟨k, hk, hfree, htaken⟩ := Boundaries.exists_free hi (boundaryHash address)
  have hother : ∀ i, s.boundaries i ≠ address := hfilled.ne (by omega)
  -- The calls of the threads 0 and 1 both get to their swaps.
  obtain ⟨bs, s₁, hfirst, hboundaries₁, hcalls₁⟩ := run_register (hfilled.idle 0) hne hk
    (fun j hj => ⟨htaken j hj, hother _⟩) hfree
  have hidle₁ : s₁.calls 1 = .idle := by
    rw [hcalls₁, Function.update_of_ne Nat.one_ne_zero]
    exact hfilled.idle 1
  obtain ⟨cs, s₂, hsecond, hboundaries₂, hcalls₂⟩ := run_register hidle₁ hne hk
    (fun j hj => by rw [hboundaries₁]; exact ⟨htaken j hj, hother _⟩)
    (by rw [hboundaries₁]; exact hfree)
  rw [hboundaries₁] at hboundaries₂
  -- The first one wins.
  have hcall : s₂.calls 0 =
      .registerSwap address (slotAt (boundaryHash address) k) k false := by
    rw [hcalls₂, Function.update_of_ne Nat.zero_ne_one, hcalls₁, Function.update_self]
  have hwin := step_swap hcall (by rw [hboundaries₂]; exact hfree)
  generalize hs₃ : State.leave
    { s₂ with boundaries := update s₂.boundaries (slotAt (boundaryHash address) k) address } 0
    (.registered address true false) = s₃ at hwin
  have hcall₃ : s₃.calls 1 =
      .registerSwap address (slotAt (boundaryHash address) k) k false := by
    rw [← hs₃, State.leave_calls]
    dsimp only
    rw [Function.update_of_ne Nat.one_ne_zero, hcalls₂, Function.update_self]
  have hcell : s₃.boundaries (slotAt (boundaryHash address) k) = address := by
    rw [← hs₃]
    exact Function.update_self ..
  have hcells : ∀ j, k + 1 ≤ j → j < capacity →
      s₃.boundaries (slotAt (boundaryHash address) j) ≠ 0 ∧
      s₃.boundaries (slotAt (boundaryHash address) j) ≠ address := by
    intro j hlow hhigh
    have hslot : slotAt (boundaryHash address) j ≠ slotAt (boundaryHash address) k := fun h => by
      have := Probing.slotAt_inj _ hhigh hk h
      omega
    have hsame : s₃.boundaries (slotAt (boundaryHash address) j) =
        s.boundaries (slotAt (boundaryHash address) j) := by
      rw [← hs₃, ← hboundaries₂]
      exact Function.update_of_ne hslot ..
    rw [hsame]
    exact ⟨hfilled.only_free hfree hslot, hother _⟩
  -- The second one loses and goes on behind the cell.
  have hlose : step s₃ (.step 1) =
      some (s₃.registerNext 1 address (slotAt (boundaryHash address) k) k true) := by
    rw [step, hcall₃, State.stepCall, hcell, if_neg hne]
    simp
  obtain ⟨ds, hrefused⟩ : ∃ ds, Transition.run step s₃ (.step 1 :: ds) =
      some (s₃.leave 1 (.registered address false true)) := by
    rw [State.registerNext] at hlose
    split at hlose
    next hmore =>
      rw [← Probing.slotAt_succ] at hlose
      obtain ⟨ds, hds⟩ := run_refused (s := s₃.goOn 1 (.registerLoad address
        (slotAt (boundaryHash address) (k + 1)) (k + 1) true))
        (Function.update_self ..) hmore hcells
      refine ⟨ds, ?_⟩
      rw [Transition.run_cons, hlose, Option.bind_some, hds, State.goOn, State.leave, State.leave]
      dsimp only
      rw [Function.update_idem]
    next hend =>
      refine ⟨[], ?_⟩
      rw [Transition.run_cons, hlose, Option.bind_some, Transition.run_nil]
  refine ⟨as ++ (bs ++ (cs ++ (.step 0 :: .step 1 :: ds))),
    s₃.leave 1 (.registered address false true), ?_, address, hne, List.mem_cons_self,
    slotAt (boundaryHash address) k, hcell⟩
  rw [Transition.run_append, hrun, Option.bind_some, Transition.run_append, hfirst,
    Option.bind_some, Transition.run_append, hsecond, Option.bind_some, Transition.run_cons, hwin,
    Option.bind_some, hrefused]

end PinBridge.Boundaries
