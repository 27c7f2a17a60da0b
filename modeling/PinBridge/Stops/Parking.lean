import Mathlib.Data.Fintype.Basic
import PinBridge.Lib.Sizes
import PinBridge.Lib.Transition

/-!
# Parked threads

An application thread that comes to a breakpoint freezes in `park_current` until
the breaker releases it.  `PARK_LOCK` guards the grant of the one park slot, the
breaker takes the slot back with a swap of `PARKED`, and `PARK_SEM` wakes the
thread.  A wait does not reset the semaphore.  The woken thread clears it
afterwards, outside the lock.

So the level of one park can still be set, or be cleared, when the next one
waits: a thread that was granted the slot meanwhile runs on at once
(`left_unreleased`), or sleeps through its release.  `parked_until_released`
says that nothing of this happens when a thread is granted the slot only after
the previous one has left, and that any earlier grant can go wrong.
-/

namespace PinBridge.Parking

open Transition (run Always Guarded)
open scoped Sizes

variable {τ : Type*}

/-! ## States -/

/-- Where a call of `park_current` is.  From the grant on it is known whether the
slot was released since. -/
inductive ParkPc where
  /-- No call. -/
  | running
  /-- It is going to take `PARK_LOCK`. -/
  | locking (address : UInt64)
  /-- It is going to load `SUSPENDING`. -/
  | loadSuspending (address : UInt64)
  /-- It is going to load `PARKED`. -/
  | loadParked (address : UInt64)
  /-- It is going to store `PARKED_TID`. -/
  | storeTid (address : UInt64)
  /-- It is going to store `PARKED_IP`. -/
  | storeIp (address : UInt64)
  /-- It is going to store `STEPPING`. -/
  | storeStepping
  /-- It is going to store `PARKED`. -/
  | storeParked
  /-- It is going to unlock without the slot. -/
  | refused
  /-- It is going to unlock with the slot. -/
  | unlocking (released : Bool)
  /-- It is going to call `request_stop`. -/
  | stopping (released : Bool)
  /-- It waits on `PARK_SEM`. -/
  | waiting (released : Bool)
  /-- It is going to clear `PARK_SEM`. -/
  | clearing (released : Bool)
  deriving DecidableEq, Repr

/-- Where the breaker is. -/
inductive BreakerPc where
  /-- Between two calls. -/
  | idle
  /-- `begin_suspend` is going to take `PARK_LOCK`. -/
  | beginLock
  /-- It is going to store `SUSPENDING`. -/
  | beginStore
  /-- Its `release` is going to swap `PARKED`. -/
  | beginSwap
  /-- Its `release` is going to set `PARK_SEM`. -/
  | beginSet
  /-- It is going to unlock. -/
  | beginUnlock
  /-- `release` is going to swap `PARKED`. -/
  | releaseSwap
  /-- `release` is going to set `PARK_SEM`. -/
  | releaseSet
  deriving DecidableEq, Repr

/-- A holder of `PARK_LOCK`. -/
inductive Owner (τ : Type*) where
  | thread (t : τ)
  | breaker
  deriving DecidableEq

/-- The shared data, the threads and the breaker. -/
structure State (τ : Type*) where
  /-- `PARK_LOCK`. -/
  lock : Option (Owner τ)
  /-- `SUSPENDING`. -/
  suspending : Bool
  /-- `PARKED`. -/
  parked : Bool
  /-- `PARKED_TID`. -/
  parkedTid : Option τ
  /-- `PARKED_IP`. -/
  parkedIp : UInt64
  /-- `STEPPING`. -/
  stepping : Bool
  /-- A stop is requested. -/
  stopRequested : Bool
  /-- The level of `PARK_SEM`. -/
  sem : Bool
  /-- The application threads. -/
  threads : τ → ParkPc
  /-- The breaker. -/
  breaker : BreakerPc
  /-- A thread was granted the slot while `SUSPENDING` was set. -/
  grantedSuspended : Bool
  /-- A thread left `park_current` although its slot was not released. -/
  leftUnreleased : Bool

/-- Nobody has parked yet. -/
def State.init : State τ where
  lock := none
  suspending := false
  parked := false
  parkedTid := none
  parkedIp := 0
  stepping := false
  stopRequested := false
  sem := false
  threads _ := .running
  breaker := .idle
  grantedSuspended := false
  leftUnreleased := false

/-! ## Steps -/

/-- What happens next. -/
inductive Action (τ : Type*) where
  /-- A thread calls `park_current`. -/
  | park (t : τ) (address : UInt64)
  /-- A thread goes on. -/
  | thread (t : τ)
  /-- The breaker calls `begin_suspend`. -/
  | beginSuspend
  /-- The breaker calls `release`. -/
  | release
  /-- The breaker calls `end_suspend`. -/
  | endSuspend
  /-- The breaker goes on. -/
  | breaker

/-- The slot is taken back. -/
def ParkPc.release : ParkPc → ParkPc
  | .unlocking _ => .unlocking true
  | .stopping _ => .stopping true
  | .waiting _ => .waiting true
  | .clearing _ => .clearing true
  | pc => pc

/-- `PARKED` is swapped to false. -/
def State.swapParked (s : State τ) : State τ :=
  { s with parked := false, threads := fun t => (s.threads t).release }

section

variable [DecidableEq τ]

/-- A thread is at another place. -/
def State.goto (s : State τ) (t : τ) (pc : ParkPc) : State τ :=
  { s with threads := Function.update s.threads t pc }

/-- The next part of `park_current`. -/
def State.threadStep (s : State τ) (t : τ) : ParkPc → Option (State τ)
  | .running => none
  | .locking address =>
      if s.lock = none then
        some { s.goto t (.loadSuspending address) with lock := some (.thread t) }
      else none
  | .loadSuspending address =>
      some (s.goto t (if s.suspending then .refused else .loadParked address))
  | .loadParked address => some (s.goto t (if s.parked then .refused else .storeTid address))
  | .storeTid address => some { s.goto t (.storeIp address) with parkedTid := some t }
  | .storeIp address => some { s.goto t .storeStepping with parkedIp := address }
  | .storeStepping => some { s.goto t .storeParked with stepping := false }
  | .storeParked =>
      some { s.goto t (.unlocking false) with
        parked := true
        grantedSuspended := s.grantedSuspended || s.suspending }
  | .refused => some { s.goto t .running with lock := none }
  | .unlocking released => some { s.goto t (.stopping released) with lock := none }
  | .stopping released => some { s.goto t (.waiting released) with stopRequested := true }
  | .waiting released => if s.sem then some (s.goto t (.clearing released)) else none
  | .clearing released =>
      some { s.goto t .running with
        sem := false
        leftUnreleased := s.leftUnreleased || !released }

/-- The next part of `begin_suspend` or `release`. -/
def State.breakerStep (s : State τ) : BreakerPc → Option (State τ)
  | .idle => none
  | .beginLock =>
      if s.lock = none then some { s with lock := some .breaker, breaker := .beginStore } else none
  | .beginStore => some { s with suspending := true, breaker := .beginSwap }
  | .beginSwap =>
      some { s.swapParked with breaker := if s.parked then .beginSet else .beginUnlock }
  | .beginSet => some { s with sem := true, breaker := .beginUnlock }
  | .beginUnlock => some { s with lock := none, breaker := .idle }
  | .releaseSwap => some { s.swapParked with breaker := if s.parked then .releaseSet else .idle }
  | .releaseSet => some { s with sem := true, breaker := .idle }

/-- One action. -/
def State.step (s : State τ) : Action τ → Option (State τ)
  | .park t address => if s.threads t = .running then some (s.goto t (.locking address)) else none
  | .thread t => s.threadStep t (s.threads t)
  | .beginSuspend => if s.breaker = .idle then some { s with breaker := .beginLock } else none
  | .release => if s.breaker = .idle then some { s with breaker := .releaseSwap } else none
  | .endSuspend => if s.breaker = .idle then some { s with suspending := false } else none
  | .breaker => s.breakerStep s.breaker

end

/-! ## What holds -/

/-- The thread was granted the slot; the answer is whether it was released. -/
def ParkPc.grant : ParkPc → Option Bool
  | .unlocking released | .stopping released | .waiting released | .clearing released =>
      some released
  | _ => none

/-- The thread was granted the slot and has not come through its wait. -/
def ParkPc.asleep : ParkPc → Bool
  | .unlocking _ | .stopping _ | .waiting _ => true
  | _ => false

/-- A release has swapped `PARKED` and is going to set `PARK_SEM`. -/
def BreakerPc.setting : BreakerPc → Bool
  | .beginSet | .releaseSet => true
  | _ => false

/-- Parked threads are held and released exactly. -/
structure State.HeldUntilReleased (s : State τ) : Prop where
  /-- One thread at most holds the slot. -/
  exclusive : ∀ t u, (s.threads t).grant = some false → (s.threads u).grant = some false → t = u
  /-- No thread was granted the slot between `begin_suspend` and `end_suspend`. -/
  unsuspended : s.grantedSuspended = false
  /-- No thread left before its release. -/
  released : s.leftUnreleased = false
  /-- A released thread does not wait on a cleared semaphore. -/
  awake : ∀ t, s.threads t = .waiting true → s.breaker.setting = false → s.sem = true

/-- A thread is granted the slot only after the others have left. -/
def State.Vacant (s : State τ) : Action τ → Prop
  | .thread t => s.threads t = .storeParked → ∀ u, (s.threads u).grant = none
  | _ => True

instance [Fintype τ] (s : State τ) : (a : Action τ) → Decidable (s.Vacant a)
  | .thread _ => inferInstanceAs (Decidable (_ → _))
  | .park _ _ | .beginSuspend | .release | .endSuspend | .breaker =>
      inferInstanceAs (Decidable True)

/-! ## The invariant -/

/-- A thread at this place holds `PARK_LOCK`. -/
def ParkPc.locked : ParkPc → Bool
  | .loadSuspending _ | .loadParked _ | .storeTid _ | .storeIp _ | .storeStepping | .storeParked
  | .refused | .unlocking _ => true
  | _ => false

/-- The breaker at this place holds `PARK_LOCK`. -/
def BreakerPc.locked : BreakerPc → Bool
  | .beginStore | .beginSwap | .beginSet | .beginUnlock => true
  | _ => false

/-- A thread at this place has seen that `PARKED` is clear. -/
def ParkPc.sawFree : ParkPc → Bool
  | .storeTid _ | .storeIp _ | .storeStepping | .storeParked => true
  | _ => false

/-- A thread at this place has seen that `SUSPENDING` is clear. -/
def ParkPc.sawUnsuspended : ParkPc → Bool
  | .loadParked _ => true
  | pc => pc.sawFree

theorem ParkPc.locked_of_sawUnsuspended {p : ParkPc} (h : p.sawUnsuspended = true) :
    p.locked = true := by
  cases p <;> first | rfl | cases h

theorem ParkPc.locked_of_sawFree {p : ParkPc} (h : p.sawFree = true) : p.locked = true := by
  cases p <;> first | rfl | cases h

/-- What `PARK_LOCK` protects. -/
structure State.Inside (s : State τ) : Prop where
  /-- `PARK_LOCK` is held by the thread that is inside. -/
  lock : ∀ t, (s.threads t).locked = true → s.lock = some (.thread t)
  /-- `PARK_LOCK` is held by the breaker while it is inside. -/
  breakerLock : s.breaker.locked = true → s.lock = some .breaker
  /-- `SUSPENDING` stays clear under the lock. -/
  unsuspending : ∀ t, (s.threads t).sawUnsuspended = true → s.suspending = false
  /-- `PARKED` stays clear under the lock. -/
  free : ∀ t, (s.threads t).sawFree = true → s.parked = false

/-- What holds while threads are granted the vacant slot only. -/
structure State.Ok (s : State τ) : Prop extends s.Inside where
  /-- `PARKED` says that a granted slot was not released. -/
  parked_iff : s.parked = true ↔ ∃ t, (s.threads t).grant = some false
  /-- One thread is between its grant and its leave. -/
  single : ∀ t u, (s.threads t).grant.isSome = true → (s.threads u).grant.isSome = true → t = u
  /-- The level is that of the release of the slot. -/
  level : s.sem = true → ∃ t, (s.threads t).grant = some true
  /-- A released thread finds the level. -/
  awake : ∀ t, (s.threads t).asleep = true → (s.threads t).grant = some true →
    s.breaker.setting = false → s.sem = true
  /-- The breaker sets the level for a thread that waits. -/
  setting : s.breaker.setting = true →
    s.sem = false ∧ ∃ t, (s.threads t).asleep = true ∧ (s.threads t).grant = some true
  /-- A thread comes through its wait after its release. -/
  clearing : ∀ t r, s.threads t = .clearing r → r = true
  /-- Only that thread clears the level. -/
  unread : ∀ t r, s.threads t = .clearing r → s.sem = true
  /-- No thread was granted the slot under `SUSPENDING`. -/
  unsuspended : s.grantedSuspended = false
  /-- No thread left before its release. -/
  released : s.leftUnreleased = false

theorem State.Ok.heldUntilReleased {s : State τ} (h : s.Ok) : s.HeldUntilReleased where
  exclusive t u ht hu := h.single t u (by rw [ht]; rfl) (by rw [hu]; rfl)
  unsuspended := h.unsuspended
  released := h.released
  awake t ht hset := h.awake t (by rw [ht]; rfl) (by rw [ht]; rfl) hset

theorem State.init_ok : (State.init : State τ).Ok where
  lock t ht := by cases ht
  breakerLock hb := by cases hb
  unsuspending t ht := by cases ht
  free t ht := by cases ht
  parked_iff := by simp [State.init, ParkPc.grant]
  single t u ht hu := by cases ht
  level hsem := by cases hsem
  awake t ht := by cases ht
  setting hset := by cases hset
  clearing t r ht := by cases ht
  unread t r ht := by cases ht
  unsuspended := rfl
  released := rfl

variable {s s' : State τ} {t : τ}

/-- The lock of a thread that is inside is nobody else's. -/
theorem State.Ok.only (h : s.Ok) (ht : (s.threads t).locked = true) {u : τ} (hu : u ≠ t) :
    (s.threads u).locked = false := by
  by_contra hl
  have hl := h.lock u (by simpa using hl)
  rw [h.lock t ht] at hl
  cases hl
  exact hu rfl

/-- The breaker is not inside with a thread. -/
theorem State.Ok.alone (h : s.Ok) (ht : (s.threads t).locked = true) :
    s.breaker.locked = false := by
  by_contra hl
  have hl := h.breakerLock (by simpa using hl)
  rw [h.lock t ht] at hl
  cases hl

section

variable [DecidableEq τ]

/-- A thread goes on.  The lock may change hands. -/
theorem State.Inside.goto (h : s.Inside) {p : ParkPc} {l : Option (Owner τ)} {i : Option τ}
    {a : UInt64} {b r m v : Bool} (hself : p.locked = true → l = some (.thread t))
    (hlock : ∀ u, u ≠ t → (s.threads u).locked = true → l = some (.thread u))
    (hbreaker : s.breaker.locked = true → l = some .breaker)
    (hun : p.sawUnsuspended = true → s.suspending = false)
    (hfree : p.sawFree = true → s.parked = false) :
    State.Inside { s.goto t p with
      lock := l, parkedTid := i, parkedIp := a, stepping := b, stopRequested := r, sem := m,
      leftUnreleased := v } := by
  have hthread : ∀ u, (s.goto t p).threads u = if u = t then p else s.threads u := fun u =>
    Function.update_apply ..
  refine ⟨fun u hu => ?_, hbreaker, fun u hu => ?_, fun u hu => ?_⟩
  · rw [hthread] at hu
    split at hu
    next hut => exact hut ▸ hself hu
    next hut => exact hlock u hut hu
  · rw [hthread] at hu
    split at hu
    · exact hun hu
    · exact h.unsuspending u hu
  · rw [hthread] at hu
    split at hu
    · exact hfree hu
    · exact h.free u hu

/-- A thread that is outside goes on outside. -/
theorem State.Inside.goto_outside (h : s.Inside) {p : ParkPc} {m v : Bool}
    (hp : p.locked = false) (hun : p.sawUnsuspended = false) (hfree : p.sawFree = false) :
    State.Inside { s.goto t p with sem := m, leftUnreleased := v } := by
  refine h.goto (fun hl => ?_) (fun u _ hu => h.lock u hu) h.breakerLock (fun hf => ?_)
    (fun hf => ?_)
  · simp [hp] at hl
  · simp [hun] at hf
  · simp [hfree] at hf

/-- A thread goes on with its grant as it was.  The lock may change hands. -/
theorem State.Ok.move (h : s.Ok) {p : ParkPc} {l : Option (Owner τ)} {i : Option τ} {a : UInt64}
    {b r : Bool} (hgrant : p.grant = (s.threads t).grant)
    (hasleep : p.asleep = (s.threads t).asleep) (hclear : ∀ r, p ≠ .clearing r)
    (hself : p.locked = true → l = some (.thread t))
    (hlock : ∀ u, u ≠ t → (s.threads u).locked = true → l = some (.thread u))
    (hbreaker : s.breaker.locked = true → l = some .breaker)
    (hun : p.sawUnsuspended = true → s.suspending = false)
    (hfree : p.sawFree = true → s.parked = false) :
    State.Ok { s.goto t p with
      lock := l, parkedTid := i, parkedIp := a, stepping := b, stopRequested := r } := by
  have hthread : ∀ u, (s.goto t p).threads u = if u = t then p else s.threads u := fun u =>
    Function.update_apply ..
  have hgrants : ∀ u, ((s.goto t p).threads u).grant = (s.threads u).grant := fun u => by
    rw [hthread]
    split
    next hu => rw [hgrant, hu]
    next => rfl
  have hasleeps : ∀ u, ((s.goto t p).threads u).asleep = (s.threads u).asleep := fun u => by
    rw [hthread]
    split
    next hu => rw [hasleep, hu]
    next => rfl
  exact {
    toInside := h.toInside.goto hself hlock hbreaker hun hfree
    parked_iff := by
      simp only [hgrants]
      exact h.parked_iff
    single u v hu hv := h.single u v (hgrants u ▸ hu) (hgrants v ▸ hv)
    level hl := by simpa only [hgrants] using h.level hl
    awake u hu hg hb := h.awake u (hasleeps u ▸ hu) (hgrants u ▸ hg) hb
    setting hb := by
      simp only [hgrants, hasleeps]
      exact h.setting hb
    clearing u r hu := by
      rw [hthread] at hu
      split at hu
      · exact absurd hu (hclear r)
      · exact h.clearing u r hu
    unread u r hu := by
      rw [hthread] at hu
      split at hu
      · exact absurd hu (hclear r)
      · exact h.unread u r hu
    unsuspended := h.unsuspended
    released := h.released }

/-- A thread goes on inside. -/
theorem State.Ok.inside (h : s.Ok) {p : ParkPc} {i : Option τ} {a : UInt64} {b : Bool}
    (ht : (s.threads t).locked = true) (hgrant : p.grant = (s.threads t).grant)
    (hasleep : p.asleep = (s.threads t).asleep) (hclear : ∀ r, p ≠ .clearing r)
    (hun : p.sawUnsuspended = true → s.suspending = false)
    (hfree : p.sawFree = true → s.parked = false) :
    State.Ok { s.goto t p with parkedTid := i, parkedIp := a, stepping := b } :=
  h.move hgrant hasleep hclear (fun _ => h.lock t ht) (fun u _ hu => h.lock u hu)
    (fun hb => h.breakerLock hb) hun hfree

/-- A thread goes out and unlocks. -/
theorem State.Ok.unlock (h : s.Ok) {p : ParkPc} (ht : (s.threads t).locked = true)
    (hp : p.locked = false) (hgrant : p.grant = (s.threads t).grant)
    (hasleep : p.asleep = (s.threads t).asleep) (hclear : ∀ r, p ≠ .clearing r)
    (hun : p.sawUnsuspended = false) (hfree : p.sawFree = false) :
    State.Ok { s.goto t p with lock := none } := by
  refine h.move hgrant hasleep hclear (fun hl => ?_) (fun u hu hl => ?_) (fun hb => ?_)
    (fun hf => ?_) (fun hf => ?_)
  · simp [hp] at hl
  · simp [h.only ht hu] at hl
  · simp [h.alone ht] at hb
  · simp [hun] at hf
  · simp [hfree] at hf

/-- A thread goes on outside. -/
theorem State.Ok.outside (h : s.Ok) {p : ParkPc} {r : Bool} (hp : p.locked = false)
    (hgrant : p.grant = (s.threads t).grant)
    (hasleep : p.asleep = (s.threads t).asleep) (hclear : ∀ r, p ≠ .clearing r)
    (hun : p.sawUnsuspended = false) (hfree : p.sawFree = false) :
    State.Ok { s.goto t p with stopRequested := r } := by
  refine h.move hgrant hasleep hclear (fun hl => ?_) (fun u _ hu => h.lock u hu)
    (fun hb => h.breakerLock hb) (fun hf => ?_) (fun hf => ?_)
  · simp [hp] at hl
  · simp [hun] at hf
  · simp [hfree] at hf

/-- A thread is granted the slot that everybody has left. -/
theorem State.Ok.granted (h : s.Ok) (hpc : s.threads t = .storeParked)
    (hvacant : ∀ u, (s.threads u).grant = none) :
    State.Ok { s.goto t (.unlocking false) with
      parked := true, grantedSuspended := s.grantedSuspended || s.suspending } := by
  have hlocked : (s.threads t).locked = true := by rw [hpc]; rfl
  have hthread : ∀ u, (s.goto t (.unlocking false)).threads u =
      if u = t then .unlocking false else s.threads u := fun u => Function.update_apply ..
  have hsem : s.sem = false := by
    by_contra hsem
    obtain ⟨u, hu⟩ := h.level (by simpa using hsem)
    simp [hvacant u] at hu
  have hset : s.breaker.setting = false := by
    by_contra hset
    obtain ⟨-, u, -, hu⟩ := h.setting (by simpa using hset)
    simp [hvacant u] at hu
  have hheld : ∀ u b, ((s.goto t (.unlocking false)).threads u).grant = some b →
      u = t ∧ b = false := fun u b hu => by
      rw [hthread] at hu
      split at hu
      next hut => exact ⟨hut, (Option.some.inj hu).symm⟩
      next => simp [hvacant u] at hu
  exact {
    lock u hu := by
      rw [hthread] at hu
      split at hu
      next hut => exact hut ▸ h.lock t hlocked
      next hut => exact h.lock u hu
    breakerLock hb := h.breakerLock hb
    unsuspending u hu := by
      rw [hthread] at hu
      split at hu
      · cases hu
      · exact h.unsuspending u hu
    free u hu := by
      rw [hthread] at hu
      split at hu
      · cases hu
      next hut =>
        have hother := h.only hlocked hut
        rw [ParkPc.locked_of_sawFree hu] at hother
        cases hother
    parked_iff := by
      refine ⟨fun _ => ⟨t, ?_⟩, fun _ => rfl⟩
      show ((s.goto t (.unlocking false)).threads t).grant = some false
      rw [hthread, if_pos rfl]
      rfl
    single u v hu hv := by
      obtain ⟨_, hu⟩ := Option.isSome_iff_exists.mp hu
      obtain ⟨_, hv⟩ := Option.isSome_iff_exists.mp hv
      rw [(hheld u _ hu).1, (hheld v _ hv).1]
    level hl := by
      have hl : s.sem = true := hl
      simp [hsem] at hl
    awake u _ hg _ := by cases (hheld u _ hg).2
    setting hb := by
      have hb : s.breaker.setting = true := hb
      simp [hset] at hb
    clearing u r hu := by
      have hu : (s.goto t (.unlocking false)).threads u = .clearing r := hu
      rw [hthread] at hu
      split at hu
      · cases hu
      · exact h.clearing u r hu
    unread u r hu := by
      have hu : (s.goto t (.unlocking false)).threads u = .clearing r := hu
      rw [hthread] at hu
      split at hu
      · cases hu
      · exact h.unread u r hu
    unsuspended := by
      simp [h.unsuspended, h.unsuspending t (by rw [hpc]; rfl)]
    released := h.released }

/-- The released thread comes through its wait. -/
theorem State.Ok.woken (h : s.Ok) {r : Bool} (hpc : s.threads t = .waiting r)
    (hsem : s.sem = true) : (s.goto t (.clearing r)).Ok := by
  obtain ⟨u, hu⟩ := h.level hsem
  obtain rfl := h.single u t (by rw [hu]; rfl) (by rw [hpc]; rfl)
  rw [hpc] at hu
  obtain rfl : r = true := Option.some.inj hu
  have hthread : ∀ v, (s.goto u (.clearing true)).threads v =
      if v = u then .clearing true else s.threads v := fun v => Function.update_apply ..
  have hgrants : ∀ v, ((s.goto u (.clearing true)).threads v).grant = (s.threads v).grant :=
    fun v => by
      rw [hthread]
      split
      next hv => rw [hv, hpc, hu]; rfl
      next => rfl
  exact {
    toInside := h.toInside.goto_outside rfl rfl rfl
    parked_iff := by
      simp only [hgrants]
      exact h.parked_iff
    single v w hv hw := h.single v w (hgrants v ▸ hv) (hgrants w ▸ hw)
    level hl := by
      simp only [hgrants]
      exact h.level hl
    awake _ _ _ _ := hsem
    setting hb := by
      have hcleared := (h.setting hb).1
      simp [hsem] at hcleared
    clearing v r hv := by
      rw [hthread] at hv
      split at hv
      · cases hv
        rfl
      · exact h.clearing v r hv
    unread _ _ _ := hsem
    unsuspended := h.unsuspended
    released := h.released }

/-- A thread clears the semaphore and leaves. -/
theorem State.Ok.left (h : s.Ok) {r : Bool} (hpc : s.threads t = .clearing r) :
    State.Ok { s.goto t .running with sem := false, leftUnreleased := s.leftUnreleased || !r } := by
  obtain rfl := h.clearing t r hpc
  have hthread : ∀ u, (s.goto t .running).threads u = if u = t then .running else s.threads u :=
    fun u => Function.update_apply ..
  -- nobody else is between its grant and its leave
  have hvacant : ∀ u, ((s.goto t .running).threads u).grant = none := fun u => by
    rw [hthread]
    split
    next => rfl
    next hu =>
      by_contra hg
      exact hu (h.single u t (by simpa [Option.isSome_iff_ne_none] using hg) (by rw [hpc]; rfl))
  have hset : s.breaker.setting = false := by
    by_contra hset
    obtain ⟨-, u, hasleep, hu⟩ := h.setting (by simpa using hset)
    obtain rfl := h.single u t (by rw [hu]; rfl) (by rw [hpc]; rfl)
    rw [hpc] at hasleep
    cases hasleep
  exact {
    toInside := h.toInside.goto_outside rfl rfl rfl
    parked_iff := by
      have hparked : s.parked = false := by
        by_contra hparked
        obtain ⟨u, hu⟩ := h.parked_iff.mp (by simpa using hparked)
        obtain rfl := h.single u t (by rw [hu]; rfl) (by rw [hpc]; rfl)
        rw [hpc] at hu
        cases hu
      show s.parked = true ↔ _
      simp only [hparked, hvacant]
      simp
    single u v hu _ := by simp [hvacant u] at hu
    level hl := by cases hl
    awake u _ hg _ := by simp [hvacant u] at hg
    setting hb := by
      have hb : s.breaker.setting = true := hb
      simp [hset] at hb
    clearing u r hu := by
      have hgrant := hvacant u
      have hu : (s.goto t .running).threads u = .clearing r := hu
      rw [hu] at hgrant
      cases hgrant
    unread u r hu := by
      have hgrant := hvacant u
      have hu : (s.goto t .running).threads u = .clearing r := hu
      rw [hu] at hgrant
      cases hgrant
    unsuspended := h.unsuspended
    released := by simp [h.released] }

end

/-! ## The breaker -/

theorem ParkPc.locked_release (p : ParkPc) : p.release.locked = p.locked := by
  cases p <;> rfl

theorem ParkPc.sawUnsuspended_release (p : ParkPc) :
    p.release.sawUnsuspended = p.sawUnsuspended := by
  cases p <;> rfl

theorem ParkPc.asleep_release (p : ParkPc) : p.release.asleep = p.asleep := by
  cases p <;> rfl

theorem ParkPc.grant_release (p : ParkPc) : p.release.grant = p.grant.map fun _ => true := by
  cases p <;> rfl

theorem ParkPc.release_eq_clearing {p : ParkPc} {r : Bool} (h : p.release = .clearing r) :
    r = true := by
  cases p <;> cases h
  rfl

/-- A thread with the slot sleeps or is going to clear the semaphore. -/
theorem ParkPc.asleep_or_clearing {p : ParkPc} {r : Bool} (h : p.grant = some r) :
    p.asleep = true ∨ p = .clearing r := by
  cases p <;> cases h
  · exact .inl rfl
  · exact .inl rfl
  · exact .inl rfl
  · exact .inr rfl

/-- The breaker goes on.  The lock may change hands. -/
theorem State.Ok.breaks (h : s.Ok) {b : BreakerPc} {l : Option (Owner τ)}
    (hset : b.setting = s.breaker.setting)
    (hlock : ∀ u, (s.threads u).locked = true → l = some (.thread u))
    (hbreaker : b.locked = true → l = some .breaker) :
    State.Ok { s with lock := l, breaker := b } where
  lock := hlock
  breakerLock := hbreaker
  unsuspending := h.unsuspending
  free := h.free
  parked_iff := h.parked_iff
  single := h.single
  level := h.level
  awake u hu hg hb := h.awake u hu hg (hset ▸ hb)
  setting hb := h.setting (hset ▸ hb)
  clearing := h.clearing
  unread := h.unread
  unsuspended := h.unsuspended
  released := h.released

/-- No thread is inside with the breaker. -/
theorem State.Ok.outside_breaker (h : s.Ok) (hb : s.breaker.locked = true) (u : τ) :
    (s.threads u).locked = false := by
  by_contra hu
  have hbreaker := h.alone (t := u) (by simpa using hu)
  rw [hb] at hbreaker
  cases hbreaker

/-- The breaker takes the slot back. -/
theorem State.Ok.swapped (h : s.Ok) {b : BreakerPc} (hset : s.breaker.setting = false)
    (hb : b.setting = s.parked) (hbreaker : b.locked = true → s.lock = some .breaker) :
    State.Ok { s.swapParked with breaker := b } where
  lock u hu := h.lock u (ParkPc.locked_release _ ▸ hu)
  breakerLock := hbreaker
  unsuspending u hu := h.unsuspending u (ParkPc.sawUnsuspended_release _ ▸ hu)
  free _ _ := rfl
  parked_iff := by
    simp [State.swapParked, ParkPc.grant_release]
  single u v hu hv := by
    simp only [State.swapParked, ParkPc.grant_release, Option.isSome_map] at hu hv
    exact h.single u v hu hv
  level hl := by
    obtain ⟨u, hu⟩ := h.level hl
    exact ⟨u, by simp [State.swapParked, ParkPc.grant_release, hu]⟩
  awake u hu hg hfree := by
    have hfree : b.setting = false := hfree
    simp only [State.swapParked, ParkPc.grant_release, ParkPc.asleep_release] at hu hg
    obtain ⟨r, hr, -⟩ := Option.map_eq_some_iff.mp hg
    cases r with
    | true => exact h.awake u hu hr hset
    | false =>
        have hparked := h.parked_iff.mpr ⟨u, hr⟩
        rw [← hb, hfree] at hparked
        cases hparked
  setting hs := by
    have hparked : s.parked = true := hb ▸ hs
    obtain ⟨u, hu⟩ := h.parked_iff.mp hparked
    constructor
    · show s.sem = false
      by_contra hsem
      obtain ⟨v, hv⟩ := h.level (by simpa using hsem)
      obtain rfl := h.single u v (by rw [hu]; rfl) (by rw [hv]; rfl)
      rw [hu] at hv
      cases hv
    · refine ⟨u, ?_, ?_⟩
      · show (s.threads u).release.asleep = true
        rw [ParkPc.asleep_release]
        refine (ParkPc.asleep_or_clearing hu).resolve_right fun hclear => ?_
        cases h.clearing u false hclear
      · show (s.threads u).release.grant = some true
        rw [ParkPc.grant_release, hu]
        rfl
  clearing _ _ hu := ParkPc.release_eq_clearing hu
  unread u r hu := by
    have hu : (s.threads u).release = .clearing r := hu
    cases hpc : s.threads u with
    | clearing _ => exact h.unread u _ hpc
    | _ =>
        rw [hpc] at hu
        cases hu
  unsuspended := h.unsuspended
  released := h.released

/-- The breaker wakes the released thread. -/
theorem State.Ok.set (h : s.Ok) {b : BreakerPc} (hset : s.breaker.setting = true)
    (hb : b.setting = false) (hbreaker : b.locked = true → s.lock = some .breaker) :
    State.Ok { s with sem := true, breaker := b } where
  lock := h.lock
  breakerLock := hbreaker
  unsuspending := h.unsuspending
  free := h.free
  parked_iff := h.parked_iff
  single := h.single
  level _ := by
    obtain ⟨-, u, -, hu⟩ := h.setting hset
    exact ⟨u, hu⟩
  awake _ _ _ _ := rfl
  setting hs := by
    have hs : b.setting = true := hs
    simp [hb] at hs
  clearing := h.clearing
  unread _ _ _ := rfl
  unsuspended := h.unsuspended
  released := h.released

/-- `SUSPENDING` is stored while no thread relies on it. -/
theorem State.Ok.suspend (h : s.Ok) {b : BreakerPc} {v : Bool}
    (hv : v = false ∨ ∀ u, (s.threads u).locked = false) (hset : b.setting = s.breaker.setting)
    (hbreaker : b.locked = true → s.lock = some .breaker) :
    State.Ok { s with suspending := v, breaker := b } where
  lock := h.lock
  breakerLock := hbreaker
  unsuspending u hu := by
    refine hv.resolve_right fun hout => ?_
    have hlocked := hout u
    rw [ParkPc.locked_of_sawUnsuspended hu] at hlocked
    cases hlocked
  free := h.free
  parked_iff := h.parked_iff
  single := h.single
  level := h.level
  awake u hu hg hb := h.awake u hu hg (hset ▸ hb)
  setting hb := h.setting (hset ▸ hb)
  clearing := h.clearing
  unread := h.unread
  unsuspended := h.unsuspended
  released := h.released

theorem State.Ok.breakerStep (h : s.Ok) (hs' : s.breakerStep s.breaker = some s') : s'.Ok := by
  cases hpc : s.breaker with
  | idle =>
      rw [hpc] at hs'
      cases hs'
  | beginLock =>
      rw [hpc, State.breakerStep] at hs'
      split at hs'
      next hfree =>
        cases hs'
        refine h.breaks (by rw [hpc]; rfl) (fun u hu => ?_) (fun _ => rfl)
        have hlock := h.lock u hu
        rw [hfree] at hlock
        cases hlock
      next => cases hs'
  | beginStore =>
      rw [hpc] at hs'
      cases hs'
      have hlocked : s.breaker.locked = true := by rw [hpc]; rfl
      exact h.suspend (.inr (h.outside_breaker hlocked)) (by rw [hpc]; rfl)
        (fun _ => h.breakerLock hlocked)
  | beginSwap =>
      rw [hpc] at hs'
      cases hs'
      refine h.swapped (by rw [hpc]; rfl) ?_ (fun _ => h.breakerLock (by rw [hpc]; rfl))
      cases s.parked <;> rfl
  | beginSet =>
      rw [hpc] at hs'
      cases hs'
      exact h.set (by rw [hpc]; rfl) rfl (fun _ => h.breakerLock (by rw [hpc]; rfl))
  | beginUnlock =>
      rw [hpc] at hs'
      cases hs'
      refine h.breaks (by rw [hpc]; rfl) (fun u hu => ?_) (fun hl => by cases hl)
      rw [h.outside_breaker (by rw [hpc]; rfl) u] at hu
      cases hu
  | releaseSwap =>
      rw [hpc] at hs'
      cases hs'
      refine h.swapped (by rw [hpc]; rfl) ?_ ?_
      · cases s.parked <;> rfl
      · cases s.parked <;> simp [BreakerPc.locked]
  | releaseSet =>
      rw [hpc] at hs'
      cases hs'
      exact h.set (by rw [hpc]; rfl) rfl (fun hl => by cases hl)

variable [DecidableEq τ]

/-- A thread goes on.  It is granted the slot after the others have left. -/
theorem State.Ok.threadStep (h : s.Ok)
    (hvacant : s.threads t = .storeParked → ∀ u, (s.threads u).grant = none)
    (hs' : s.threadStep t (s.threads t) = some s') : s'.Ok := by
  cases hpc : s.threads t with
  | running =>
      rw [hpc] at hs'
      cases hs'
  | locking address =>
      rw [hpc, State.threadStep] at hs'
      split at hs'
      next hfree =>
        cases hs'
        refine h.move (by rw [hpc]; rfl) (by rw [hpc]; rfl) (fun r hr => by cases hr)
          (fun _ => rfl) (fun u _ hu => ?_) (fun hb => ?_) (fun hf => by cases hf)
          (fun hf => by cases hf)
        · have hlock := h.lock u hu
          rw [hfree] at hlock
          cases hlock
        · have hlock := h.breakerLock hb
          rw [hfree] at hlock
          cases hlock
      next => cases hs'
  | loadSuspending address =>
      rw [hpc, State.threadStep] at hs'
      cases hs'
      have hlocked : (s.threads t).locked = true := by rw [hpc]; rfl
      cases hsus : s.suspending with
      | true =>
          exact h.inside hlocked (by rw [hpc]; rfl) (by rw [hpc]; rfl) (fun r hr => by cases hr)
            (fun hf => by cases hf) (fun hf => by cases hf)
      | false =>
          exact h.inside hlocked (by rw [hpc]; rfl) (by rw [hpc]; rfl) (fun r hr => by cases hr)
            (fun _ => hsus) (fun hf => by cases hf)
  | loadParked address =>
      rw [hpc, State.threadStep] at hs'
      cases hs'
      have hlocked : (s.threads t).locked = true := by rw [hpc]; rfl
      have hsus := h.unsuspending t (by rw [hpc]; rfl)
      cases hparked : s.parked with
      | true =>
          exact h.inside hlocked (by rw [hpc]; rfl) (by rw [hpc]; rfl) (fun r hr => by cases hr)
            (fun hf => by cases hf) (fun hf => by cases hf)
      | false =>
          exact h.inside hlocked (by rw [hpc]; rfl) (by rw [hpc]; rfl) (fun r hr => by cases hr)
            (fun _ => hsus) (fun _ => hparked)
  | storeTid address =>
      rw [hpc] at hs'
      cases hs'
      exact h.inside (by rw [hpc]; rfl) (by rw [hpc]; rfl) (by rw [hpc]; rfl)
        (fun r hr => by cases hr) (fun _ => h.unsuspending t (by rw [hpc]; rfl))
        (fun _ => h.free t (by rw [hpc]; rfl))
  | storeIp address =>
      rw [hpc] at hs'
      cases hs'
      exact h.inside (by rw [hpc]; rfl) (by rw [hpc]; rfl) (by rw [hpc]; rfl)
        (fun r hr => by cases hr) (fun _ => h.unsuspending t (by rw [hpc]; rfl))
        (fun _ => h.free t (by rw [hpc]; rfl))
  | storeStepping =>
      rw [hpc] at hs'
      cases hs'
      exact h.inside (by rw [hpc]; rfl) (by rw [hpc]; rfl) (by rw [hpc]; rfl)
        (fun r hr => by cases hr) (fun _ => h.unsuspending t (by rw [hpc]; rfl))
        (fun _ => h.free t (by rw [hpc]; rfl))
  | storeParked =>
      rw [hpc] at hs'
      cases hs'
      exact h.granted hpc (hvacant hpc)
  | refused =>
      rw [hpc] at hs'
      cases hs'
      exact h.unlock (by rw [hpc]; rfl) rfl (by rw [hpc]; rfl) (by rw [hpc]; rfl)
        (fun r hr => by cases hr) rfl rfl
  | unlocking released =>
      rw [hpc] at hs'
      cases hs'
      exact h.unlock (by rw [hpc]; rfl) rfl (by rw [hpc]; rfl) (by rw [hpc]; rfl)
        (fun r hr => by cases hr) rfl rfl
  | stopping released =>
      rw [hpc] at hs'
      cases hs'
      exact h.outside rfl (by rw [hpc]; rfl) (by rw [hpc]; rfl) (fun r hr => by cases hr) rfl rfl
  | waiting released =>
      rw [hpc, State.threadStep] at hs'
      split at hs'
      next hsem =>
        cases hs'
        exact h.woken hpc hsem
      next => cases hs'
  | clearing released =>
      rw [hpc] at hs'
      cases hs'
      exact h.left hpc

/-- A step that grants the vacant slot only keeps the invariant. -/
theorem State.Ok.step (h : s.Ok) {a : Action τ} (hvacant : s.Vacant a)
    (hs' : s.step a = some s') : s'.Ok := by
  cases a with
  | park t address =>
      rw [State.step] at hs'
      split at hs'
      next hpc =>
        cases hs'
        exact h.outside rfl (by rw [hpc]; rfl) (by rw [hpc]; rfl) (fun r hr => by cases hr) rfl rfl
      next => cases hs'
  | thread t => exact h.threadStep hvacant hs'
  | beginSuspend =>
      rw [State.step] at hs'
      split at hs'
      next hpc =>
        cases hs'
        exact h.breaks (by rw [hpc]; rfl) h.lock (fun hl => by cases hl)
      next => cases hs'
  | release =>
      rw [State.step] at hs'
      split at hs'
      next hpc =>
        cases hs'
        exact h.breaks (by rw [hpc]; rfl) h.lock (fun hl => by cases hl)
      next => cases hs'
  | endSuspend =>
      rw [State.step] at hs'
      split at hs'
      next hpc =>
        cases hs'
        exact h.suspend (.inl rfl) rfl h.breakerLock
      next => cases hs'
  | breaker => exact h.breakerStep hs'

/-! ## An early grant -/

/-- A thread that finds the level set runs on. -/
theorem State.runs_on (s : State τ) (hpc : s.threads t = .unlocking false) (hsem : s.sem = true) :
    ∃ as s', run State.step s as = some s' ∧ s'.leftUnreleased = true := by
  have hlocking : (run State.step s [.thread t, .thread t, .thread t, .thread t]).map
      State.leftUnreleased = some true := by
    simp [run, State.step, State.threadStep, State.goto, hpc, hsem]
  exact ⟨_, Option.map_eq_some_iff.mp hlocking⟩

omit [DecidableEq τ] in
/-- The level is set for a thread that still has its grant, or the breaker is
going to set it. -/
theorem State.Ok.level_or_setting (h : s.Ok) {u : τ} (hparked : s.parked = false)
    (hu : (s.threads u).grant ≠ none) : s.sem = true ∨ s.breaker.setting = true := by
  obtain ⟨r, hr⟩ := Option.ne_none_iff_exists'.mp hu
  cases r with
  | false =>
      rw [h.parked_iff.mpr ⟨u, hr⟩] at hparked
      cases hparked
  | true =>
      obtain hasleep | hclearing := ParkPc.asleep_or_clearing hr
      · cases hset : s.breaker.setting with
        | true => exact .inr rfl
        | false => exact .inl (h.awake u hasleep hr hset)
      · exact .inl (h.unread u true hclearing)

/-- The breaker sets the level. -/
theorem State.step_setting (hset : s.breaker.setting = true) :
    ∃ s', s.step .breaker = some s' ∧ s'.sem = true ∧ s'.threads = s.threads := by
  cases hpc : s.breaker with
  | beginSet =>
      refine ⟨{ s with sem := true, breaker := .beginUnlock }, ?_, rfl, rfl⟩
      rw [State.step, hpc]
      rfl
  | releaseSet =>
      refine ⟨{ s with sem := true, breaker := .idle }, ?_, rfl, rfl⟩
      rw [State.step, hpc]
      rfl
  | _ =>
      rw [hpc] at hset
      cases hset

/-- A thread that is granted the slot too early can run on. -/
theorem State.Ok.overtaken (h : s.Ok) {u : τ} (hpc : s.threads t = .storeParked)
    (hu : (s.threads u).grant ≠ none) (hs' : s.step (.thread t) = some s') :
    ∃ as s'', run State.step s' as = some s'' ∧ s''.leftUnreleased = true := by
  rw [State.step, hpc] at hs'
  cases hs'
  have hgranted : (s.goto t (.unlocking false)).threads t = .unlocking false :=
    Function.update_self ..
  obtain hsem | hset := h.level_or_setting (h.free t (by rw [hpc]; rfl)) hu
  · exact State.runs_on _ hgranted hsem
  · obtain ⟨s₁, hs₁, hsem, hthreads⟩ := State.step_setting (s := { s.goto t (.unlocking false) with
        parked := true, grantedSuspended := s.grantedSuspended || s.suspending }) hset
    obtain ⟨as, s₂, hs₂, hleft⟩ := s₁.runs_on (hthreads ▸ hgranted) hsem
    exact ⟨.breaker :: as, s₂, Transition.run_cons_eq_some.mpr ⟨s₁, hs₁, hs₂⟩, hleft⟩

/-! ## Runs -/

/-- Parked threads are held and released exactly in the runs that grant a thread
the slot only after the others have left.  After such a run a thread that is
granted the slot earlier can leave before its release. -/
theorem parked_until_released {as : List (Action τ)}
    (hvacant : Guarded State.step State.Vacant State.init as) :
    Always State.step State.HeldUntilReleased State.init as ∧
      ∀ s s' t, run State.step State.init as = some s → s.step (.thread t) = some s' →
        ¬ s.Vacant (.thread t) →
          ∃ bs s'', run State.step s' bs = some s'' ∧ ¬ s''.HeldUntilReleased := by
  constructor
  · intro bs s hbs hrun
    have hok := hvacant.always (fun h hv hs' => h.step hv hs') State.init_ok bs s hbs hrun
    exact hok.heldUntilReleased
  · intro s s' t hrun hs' hnot
    have h := hvacant.invariant (fun h hv hs' => h.step hv hs') State.init_ok hrun
    obtain ⟨hpc, u, hu⟩ : s.threads t = .storeParked ∧ ∃ u, (s.threads u).grant ≠ none := by
      simpa [State.Vacant] using hnot
    obtain ⟨bs, s'', hs'', hleft⟩ := h.overtaken hpc hu hs'
    refine ⟨bs, s'', hs'', fun hgood => ?_⟩
    rw [hgood.released] at hleft
    cases hleft

/-- A thread parks and the breaker releases it. -/
def releasedPark (t : Fin 2) (address : UInt64) : List (Action (Fin 2)) :=
  .park t address :: List.replicate 9 (.thread t) ++ [.release, .breaker, .breaker] ++
    List.replicate 2 (.thread t)

/-- Two threads park one after the other and the breaker releases both. -/
def successiveParks : List (Action (Fin 2)) := releasedPark 0 0x1000 ++ releasedPark 1 0x2000

theorem successiveParks_released :
    Guarded State.step State.Vacant State.init successiveParks ∧
      (run State.step State.init successiveParks).isSome = true ∧
      Always State.step State.HeldUntilReleased State.init successiveParks :=
  have hvacant : Guarded State.step State.Vacant State.init successiveParks := by decide +kernel
  ⟨hvacant, by decide +kernel, (parked_until_released hvacant).1⟩

/-- A thread parks and `begin_suspend` releases it.  It comes through its wait,
and before it clears the semaphore another thread is granted the slot. -/
def overtakingPark : List (Action (Fin 2)) :=
  .park 0 0x1000 :: List.replicate 9 (.thread 0) ++
    .beginSuspend :: List.replicate 5 .breaker ++
  .thread 0 :: .endSuspend :: .park 1 0x2000 :: List.replicate 11 (.thread 1)

/-- The second thread leaves although nobody released it. -/
theorem left_unreleased :
    ∃ s, run State.step State.init overtakingPark = some s ∧ s.parked = true ∧
      s.threads 1 = .running ∧ ¬ s.HeldUntilReleased := by
  have hrun : (run State.step State.init overtakingPark).map
      (fun s => (s.parked, s.threads 1, s.leftUnreleased)) = some (true, .running, true) := by
    decide
  obtain ⟨s, hs, heq⟩ := Option.map_eq_some_iff.mp hrun
  obtain ⟨hparked, hpc, hleft⟩ : s.parked = true ∧ s.threads 1 = .running ∧
      s.leftUnreleased = true := by simpa using heq
  refine ⟨s, hs, hparked, hpc, fun hgood => ?_⟩
  rw [hgood.released] at hleft
  cases hleft

end PinBridge.Parking
