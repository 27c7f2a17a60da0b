import PinBridge.Traps.Step

/-!
# The claim of a stop

`STOP_CLAIMED` is a lock without an owner.  The thread that has taken it is the only one in the
scan or in the stores to `PENDING_TID`, `PENDING_ADDRESS` and `PENDING_MASK`, and while a mask is
pending or being published there is no such thread (`Claimed`).  This needs `on_resume` to clear
the claim only when nobody holds it and nothing is pending.  The mutex keeps `set`, `remove` and
the loop of `publish_stopped` apart (`Locked`), and a slot that `set` fills is not active until
`set` stores `active`.
-/

namespace PinBridge.Traps

variable {τ : Type*}

/-! ## The guard -/

/-- The thread has taken the claim. -/
def CallPc.holds : CallPc → Bool
  | .scan .. | .release _ | .post .. => true
  | _ => false

/-- The thread has loaded `active` of slot `i`, or has put the slot into its mask. -/
def CallPc.uses (i : SlotIndex) : CallPc → Bool
  | .scan _ mask j _ op => (i == j && op != .active) || decide (i ∈ mask)
  | .post _ mask _ => decide (i ∈ mask)
  | _ => false

/-- The thread has stored `PENDING_TID`. -/
def CallPc.posting : CallPc → Bool
  | .post _ _ op => op != .threadId
  | _ => false

/-- A call that a live trap matches finds the claim taken only by an execution that a trap
matches.  A one-shot trap is not retired before `set` has counted it. -/
def CallPc.Undisturbed (s : State τ) (t : τ) : CallPc → Prop
  | .claim _ => s.stopClaimed = true → s.log.covered t = ∅ ∨ s.ClaimMatches
  | .scan _ _ i _ .retire => s.control.counting i = false
  | _ => True

/-- `set` does not write a slot that an execution uses or that is pending. -/
def ControlPc.Undisturbed (s : State τ) : ControlPc τ → Prop
  | .set _ i op =>
      op = .count ∨ i ∉ s.pendingMask ∧ ∀ h ∈ s.log.holder, (s.threads h).uses i = false
  | _ => True

/-- `on_resume` does not clear what an execution has stored since, nor its claim. -/
def BreakerPc.Undisturbed (s : State τ) : BreakerPc τ → Prop
  | .clearThread | .clearAddress =>
      s.pendingMask = ∅ ∧ ∀ h ∈ s.log.holder, (s.threads h).posting = false
  | .clearClaim => s.pendingMask = ∅ ∧ s.log.holder = none
  | _ => True

/-- The three conditions at the next access of a party. -/
def Undisturbed (s : State τ) : Action τ → Prop
  | .execute t => (s.threads t).Undisturbed s t
  | .control => s.control.Undisturbed s
  | .breaker => s.breaker.Undisturbed s
  | _ => True

instance (s : State τ) (t : τ) : (pc : CallPc) → Decidable (pc.Undisturbed s t)
  | .claim _ => inferInstanceAs (Decidable (_ → _ ∨ _))
  | .scan _ _ i _ .retire => inferInstanceAs (Decidable (s.control.counting i = false))
  | .idle | .release _ | .post .. => isTrue trivial
  | .scan _ _ _ _ .active | .scan _ _ _ _ .start | .scan _ _ _ _ (.limit _)
  | .scan _ _ _ _ (.threadId _ _) | .scan _ _ _ _ .oneShot | .scan _ _ _ _ .oneShotAgain
  | .scan _ _ _ _ .uncount | .scan _ _ _ _ .hit => isTrue trivial

instance (s : State τ) : (pc : ControlPc τ) → Decidable (pc.Undisturbed s)
  | .set _ i op =>
      inferInstanceAs (Decidable (op = .count ∨
        i ∉ s.pendingMask ∧ ∀ h ∈ s.log.holder, (s.threads h).uses i = false))
  | .idle | .search .. | .remove _ | .uncount _ | .free _ => isTrue trivial

instance (s : State τ) : (pc : BreakerPc τ) → Decidable (pc.Undisturbed s)
  | .clearThread | .clearAddress =>
      inferInstanceAs (Decidable (_ ∧ ∀ h ∈ s.log.holder, (s.threads h).posting = false))
  | .clearClaim => inferInstanceAs (Decidable (_ ∧ _))
  | .idle | .swap _ | .loadThread .. | .loadAddress .. | .read .. => isTrue trivial

instance (s : State τ) : (a : Action τ) → Decidable (Undisturbed s a)
  | .execute t => inferInstanceAs (Decidable ((s.threads t).Undisturbed s t))
  | .control => inferInstanceAs (Decidable (s.control.Undisturbed s))
  | .breaker => inferInstanceAs (Decidable (s.breaker.Undisturbed s))
  | .call _ _ | .set _ | .remove _ | .publish _ | .resume => isTrue trivial

/-! ## The mutex -/

/-- What the mutex protects. -/
structure Locked (s : State τ) : Prop where
  mutex : s.breaker.locked = true → s.control = .idle
  used : ∀ i, (s.slots i).active = true → (s.slots i).used = true
  filling : ∀ spec i op, s.control = .set spec i op →
    (s.slots i).active = decide (op = .count) ∧ (op ≠ .nextId → (s.slots i).used = true)
  freeing : ∀ i, s.control = .uncount i ∨ s.control = .free i → (s.slots i).active = false

theorem State.modify_slots (s : State τ) (i j : SlotIndex) (f : Slot τ → Slot τ) :
    (s.modify i f).slots j = if j = i then f (s.slots j) else s.slots j := by
  unfold State.modify
  by_cases hj : j = i
  · subst hj
    simp
  · simp [hj]

theorem State.miss_eq (s : State τ) (t : τ) (address : UInt64) (covered : Finset SlotIndex) :
    ∃ missed, s.miss t address covered = { s with log := { s.log with missed := missed } } := by
  unfold State.miss
  split
  · exact ⟨s.log.missed, rfl⟩
  · exact ⟨_, rfl⟩

variable (is64 : Bool)

/-- What a thread in `on_execute` leaves alone. -/
structure Frame (s s' : State τ) (t : τ) : Prop where
  control : s'.control = s.control
  breaker : s'.breaker = s.breaker
  threads : ∀ u, u ≠ t → s'.threads u = s.threads u
  trap : ∀ j, (s'.slots j).toTrap = (s.slots j).toTrap
  used : ∀ j, (s'.slots j).used = (s.slots j).used
  active : ∀ j, (s'.slots j).active = (s.slots j).active ∨
    (s'.slots j).active = false ∧ (s.control.counting j = true → ¬ (s.threads t).Undisturbed s t)

theorem Locked.frame {s s' : State τ} {t : τ} (h : Locked s) (hframe : Frame s s' t)
    (hguard : (s.threads t).Undisturbed s t) : Locked s' := by
  have hactive : ∀ i, (s'.slots i).active = true → (s.slots i).active = true := by
    intro i hi
    rcases hframe.active i with heq | ⟨hfalse, -⟩
    · rwa [heq] at hi
    · rw [hfalse] at hi
      cases hi
  refine ⟨?_, ?_, ?_, ?_⟩
  · rw [hframe.breaker, hframe.control]
    exact h.mutex
  · intro i hi
    rw [hframe.used]
    exact h.used i (hactive i hi)
  · intro spec i op hcontrol
    rw [hframe.control] at hcontrol
    obtain ⟨hfill, hused⟩ := h.filling spec i op hcontrol
    refine ⟨?_, by rwa [hframe.used]⟩
    rcases hframe.active i with heq | ⟨hfalse, hcount⟩
    · rw [heq, hfill]
    · cases op with
      | count => exact absurd hguard (hcount (by rw [hcontrol]; simp [ControlPc.counting]))
      | _ => exact hfalse
  · intro i hcontrol
    rw [hframe.control] at hcontrol
    by_contra hi
    exact Bool.false_ne_true
      ((h.freeing i hcontrol).symm.trans (hactive i (Bool.not_eq_false _ ▸ hi)))

theorem SetOp.write_active (spec : Spec τ) (id : UInt32) (slot : Slot τ) (op : SetOp) :
    (op.write spec id slot).active = (decide (op = .active) || slot.active) := by
  cases op <;> rfl

theorem SetOp.write_used (spec : Spec τ) (id : UInt32) (slot : Slot τ) (op : SetOp) :
    (op.write spec id slot).used = (decide (op = .nextId) || slot.used) := by
  cases op <;> rfl

theorem Locked.setSlot {s : State τ} (h : Locked s) {spec : Spec τ} {i : SlotIndex} {op : SetOp}
    (hcontrol : s.control = .set spec i op) : Locked (s.setSlot is64 spec i op) := by
  obtain ⟨hfill, hused⟩ := h.filling spec i op hcontrol
  have hslots : ∀ j, (s.setSlot is64 spec i op).slots j =
      if j = i then op.write spec s.nextId (s.slots j) else s.slots j :=
    fun j => State.modify_slots s i j (fun slot => op.write spec s.nextId slot)
  have hnext : ∀ spec' j op', (s.setSlot is64 spec i op).control = .set spec' j op' →
      j = i ∧ op.next = some op' := by
    intro spec' j op' hnew
    simp only [State.setSlot] at hnew
    split at hnew
    · rename_i op'' hop
      cases hnew
      exact ⟨rfl, hop⟩
    · cases hnew
  refine ⟨?_, ?_, ?_, ?_⟩
  · intro hlocked
    rw [h.mutex hlocked] at hcontrol
    cases hcontrol
  · intro j
    rw [hslots]
    split
    · rename_i hj
      subst hj
      rw [SetOp.write_active, SetOp.write_used, hfill]
      cases op <;> simp_all
    · exact h.used j
  · intro spec' j op' hnew
    obtain ⟨rfl, hop⟩ := hnext spec' j op' hnew
    rw [hslots, if_pos rfl, SetOp.write_active, SetOp.write_used, hfill]
    cases op <;> cases hop <;> simp_all
  · intro j hnew
    simp only [State.setSlot] at hnew
    split at hnew <;> rcases hnew with hnew | hnew <;> cases hnew

theorem Locked.control {s s' : State τ} (h : Locked s) (hstep : s.controlStep is64 = some s') :
    Locked s' := by
  unfold State.controlStep at hstep
  have hbreaker : s.breaker.locked = true → s.control ≠ .idle → False :=
    fun hlocked hidle => hidle (h.mutex hlocked)
  cases hcontrol : s.control with
  | idle =>
      rw [hcontrol] at hstep
      cases hstep
  | search spec pending i rest =>
      simp only [hcontrol] at hstep
      split at hstep <;> cases hstep
      · rename_i hfree
        refine ⟨fun hlocked => (hbreaker hlocked (hcontrol ▸ nofun)).elim, h.used, ?_, nofun⟩
        intro spec' j op hnew
        cases hnew
        refine ⟨?_, fun hne => absurd rfl hne⟩
        show (s.slots i).active = false
        rcases hfree.1 with hunused | hinactive
        · by_contra hactive
          rw [h.used i (Bool.not_eq_false _ ▸ hactive)] at hunused
          cases hunused
        · exact hinactive
      · refine ⟨fun hlocked => (hbreaker hlocked (hcontrol ▸ nofun)).elim, h.used, ?_, ?_⟩
        · intro spec' j op hnew
          cases rest <;> cases hnew
        · intro j hnew
          cases rest <;> rcases hnew with hnew | hnew <;> cases hnew
  | set spec i op =>
      rw [hcontrol] at hstep
      cases hstep
      exact h.setSlot is64 hcontrol
  | remove i =>
      simp only [hcontrol] at hstep
      split at hstep <;> cases hstep
      · refine ⟨fun hlocked => (hbreaker hlocked (hcontrol ▸ nofun)).elim, ?_, nofun, ?_⟩
        · intro j
          simp only [State.deactivate, State.modify_slots]
          split
          · exact nofun
          · exact h.used j
        · intro j hnew
          rcases hnew with hnew | hnew <;> cases hnew
          simp only [State.deactivate, State.modify_slots, if_pos]
      · rename_i hinactive
        refine ⟨fun hlocked => (hbreaker hlocked (hcontrol ▸ nofun)).elim, h.used, nofun, ?_⟩
        intro j hnew
        rcases hnew with hnew | hnew <;> cases hnew
        exact Bool.not_eq_true _ ▸ hinactive
  | uncount i =>
      rw [hcontrol] at hstep
      cases hstep
      refine ⟨fun hlocked => (hbreaker hlocked (hcontrol ▸ nofun)).elim, h.used, nofun, ?_⟩
      intro j hnew
      rcases hnew with hnew | hnew <;> cases hnew
      exact h.freeing i (.inl hcontrol)
  | free i =>
      rw [hcontrol] at hstep
      cases hstep
      refine ⟨fun _ => rfl, ?_, nofun, ?_⟩
      · intro j
        simp only [State.modify_slots]
        split
        · rename_i hj
          subst hj
          rw [h.freeing j (.inr hcontrol)]
          exact nofun
        · exact h.used j
      · intro j hnew
        rcases hnew with hnew | hnew <;> cases hnew

/-- What `set` and `remove` leave alone. -/
theorem State.controlStep_eq {s s' : State τ} (hstep : s.controlStep is64 = some s') :
    s'.threads = s.threads ∧ s'.breaker = s.breaker ∧ s'.stopClaimed = s.stopClaimed ∧
      s'.pendingMask = s.pendingMask ∧ s'.pendingTid = s.pendingTid ∧
      s'.pendingAddress = s.pendingAddress ∧ s'.published = s.published ∧
      s'.log.holder = s.log.holder ∧ s'.log.matched = s.log.matched ∧
      s'.log.missed = s.log.missed := by
  unfold State.controlStep at hstep
  split at hstep
  case h_1 => cases hstep
  case h_3 | h_5 | h_6 =>
    cases hstep
    exact ⟨rfl, rfl, rfl, rfl, rfl, rfl, rfl, rfl, rfl, rfl⟩
  all_goals
    split at hstep <;> cases hstep <;> exact ⟨rfl, rfl, rfl, rfl, rfl, rfl, rfl, rfl, rfl, rfl⟩

/-! ## Threads -/

variable [DecidableEq τ]

theorem Frame.goto (s : State τ) (t : τ) (pc : CallPc) : Frame s (s.goto t pc) t where
  control := rfl
  breaker := rfl
  threads _ hu := Function.update_of_ne hu _ _
  trap _ := rfl
  used _ := rfl
  active _ := .inl rfl

theorem Frame.scan {s : State τ} {t : τ} {address : UInt64} {mask : Finset SlotIndex}
    {i : SlotIndex} {rest : List SlotIndex} {op : ScanOp}
    (hpc : s.threads t = .scan address mask i rest op) :
    Frame s (s.scan is64 t address mask i rest op) t := by
  cases op with
  | active =>
      simp only [State.scan]
      split
      · split <;> exact { Frame.goto s t _ with }
      · exact Frame.goto s t _
  | start => exact Frame.goto s t _
  | limit start => exact Frame.goto s t _
  | threadId start limit =>
      simp only [State.scan]
      split <;> exact Frame.goto s t _
  | oneShot => exact Frame.goto s t _
  | retire =>
      simp only [State.scan]
      split
      · refine { Frame.goto s t _ with trap := ?_, used := ?_, active := ?_ }
        · intro j
          simp only [State.goto, State.deactivate, State.modify_slots]
          split <;> rfl
        · intro j
          simp only [State.goto, State.deactivate, State.modify_slots]
          split <;> rfl
        · intro j
          simp only [State.goto, State.deactivate, State.modify_slots]
          split
          · rename_i hj
            refine .inr ⟨rfl, fun hcount hguard => ?_⟩
            rw [hpc] at hguard
            rw [hj] at hcount
            exact Bool.false_ne_true (hguard.symm.trans hcount)
          · exact .inl rfl
      · exact Frame.goto s t _
  | oneShotAgain => exact Frame.goto s t _
  | uncount => exact { Frame.goto s t _ with }
  | hit =>
      refine { Frame.goto s t _ with trap := ?_, used := ?_, active := ?_ }
      · intro j
        simp only [State.scan, State.goto, State.modify_slots]
        split <;> rfl
      · intro j
        simp only [State.scan, State.goto, State.modify_slots]
        split <;> rfl
      · intro j
        simp only [State.scan, State.goto, State.modify_slots]
        split <;> exact .inl rfl

theorem Frame.execute {s s' : State τ} {t : τ} (h : s.execute is64 t = some s') :
    Frame s s' t := by
  unfold State.execute at h
  cases hpc : s.threads t with
  | idle =>
      rw [hpc] at h
      cases h
  | claim address =>
      rw [hpc] at h
      cases h
      unfold State.claim
      split
      · split
        · exact Frame.goto s t _
        · obtain ⟨missed, hmiss⟩ := s.miss_eq t address (s.log.covered t)
          rw [hmiss]
          exact { Frame.goto s t _ with }
      · exact { Frame.goto s t _ with }
  | scan address mask i rest op =>
      rw [hpc] at h
      cases h
      exact Frame.scan is64 hpc
  | release address =>
      rw [hpc] at h
      cases h
      obtain ⟨missed, hmiss⟩ := s.miss_eq t address (s.log.covered t)
      rw [hmiss]
      exact { Frame.goto s t _ with }
  | post address mask op =>
      rw [hpc] at h
      cases h
      cases op <;> exact { Frame.goto s t _ with }

theorem Frame.call (s : State τ) (t : τ) (address : UInt64) : Frame s (s.call t address) t := by
  unfold State.call
  split
  · obtain ⟨missed, hmiss⟩ := s.miss_eq t address (s.matching t address)
    rw [hmiss]
    exact ⟨rfl, rfl, fun _ _ => rfl, fun _ => rfl, fun _ => rfl, fun _ => .inl rfl⟩
  · exact { Frame.goto s t _ with }

theorem Locked.breaker {s s' : State τ} (h : Locked s) (hstep : s.breakerStep = some s') :
    Locked s' := by
  have hsame : ∀ s'', s''.control = s.control → s''.slots = s.slots →
      (s''.breaker.locked = true → s.control = .idle) → Locked s'' := by
    intro s'' hcontrol hslots hmutex
    refine ⟨?_, ?_, ?_, ?_⟩
    · rwa [hcontrol]
    · rw [hslots]
      exact h.used
    · rw [hcontrol, hslots]
      exact h.filling
    · rw [hcontrol, hslots]
      exact h.freeing
  have hnext : s.breaker.locked = true → ∀ e done rest,
      Locked (s.readNext e done rest) := by
    intro hlocked e done rest
    cases rest with
    | nil => exact hsame _ rfl rfl fun _ => h.mutex hlocked
    | cons i rest => exact hsame _ rfl rfl fun _ => h.mutex hlocked
  unfold State.breakerStep at hstep
  cases hbreaker : s.breaker with
  | idle =>
      rw [hbreaker] at hstep
      cases hstep
  | swap generation =>
      simp only [hbreaker] at hstep
      split at hstep <;> cases hstep
      rename_i hidle
      exact hsame _ rfl rfl fun _ => hidle
  | loadThread generation mask =>
      rw [hbreaker] at hstep
      cases hstep
      exact hsame _ rfl rfl fun _ => h.mutex (by rw [hbreaker]; rfl)
  | loadAddress generation mask thread =>
      rw [hbreaker] at hstep
      cases hstep
      exact hnext (by rw [hbreaker]; rfl) _ _ _
  | read i rest field e done =>
      have hlocked : s.breaker.locked = true := by rw [hbreaker]; rfl
      simp only [hbreaker] at hstep
      split at hstep <;> cases hstep
      · exact hsame _ rfl rfl fun _ => h.mutex hlocked
      · exact hnext hlocked _ _ _
  | clearThread | clearAddress | clearClaim =>
      rw [hbreaker] at hstep
      cases hstep
      exact hsame _ rfl rfl nofun

theorem Locked.step {s s' : State τ} {a : Action τ} (h : Locked s) (hguard : Undisturbed s a)
    (hstep : step is64 s a = some s') : Locked s' := by
  cases a with
  | call t address =>
      simp only [Traps.step] at hstep
      split at hstep <;> cases hstep
      rename_i hidle
      refine h.frame (.call s t address) ?_
      rw [hidle]
      exact trivial
  | execute t => exact h.frame (.execute is64 hstep) hguard
  | set spec =>
      simp only [Traps.step] at hstep
      split at hstep
      · cases hstep
        exact h
      split at hstep <;> cases hstep
      rename_i hfree
      refine ⟨fun hlocked => ?_, h.used, nofun, fun j hnew => ?_⟩
      · rw [hfree.2] at hlocked
        cases hlocked
      · rcases hnew with hnew | hnew <;> cases hnew
  | remove id =>
      simp only [Traps.step] at hstep
      split at hstep
      case isFalse => cases hstep
      rename_i hfree
      split at hstep <;> cases hstep
      · refine ⟨fun hlocked => ?_, h.used, nofun, fun j hnew => ?_⟩
        · rw [hfree.2] at hlocked
          cases hlocked
        · rcases hnew with hnew | hnew <;> cases hnew
      · exact h
  | control => exact h.control is64 hstep
  | publish generation =>
      simp only [Traps.step] at hstep
      split at hstep <;> cases hstep
      split
      · exact h
      · exact ⟨nofun, h.used, h.filling, h.freeing⟩
  | resume =>
      simp only [Traps.step] at hstep
      split at hstep <;> cases hstep
      exact ⟨nofun, h.used, h.filling, h.freeing⟩
  | breaker => exact h.breaker hstep

/-! ## The claim -/

/-- There is at most one holder, and none while a stop is pending or being published. -/
structure Claimed (s : State τ) : Prop where
  holder : ∀ t, (s.threads t).holds = true ↔ s.log.holder = some t
  taken : s.log.holder ≠ none → s.stopClaimed = true
  swap : ∀ generation, s.breaker = .swap generation → s.pendingMask ≠ ∅
  posted : s.pendingMask ≠ ∅ ∨ s.breaker.locked = true →
    s.stopClaimed = true ∧ s.log.holder = none

theorem CallPc.holds_next (address : UInt64) (mask : Finset SlotIndex) (rest : List SlotIndex) :
    (CallPc.next address mask rest).holds = true := by
  cases rest with
  | nil =>
      simp only [CallPc.next]
      split <;> rfl
  | cons i rest => rfl

/-- The program counters of a step of thread `t`. -/
theorem Claimed.of_threads {s s' : State τ} {t : τ} (h : Claimed s)
    (hthreads : ∀ u, u ≠ t → s'.threads u = s.threads u)
    (hpc : (s'.threads t).holds = (s.threads t).holds)
    (hholder : s'.log.holder = s.log.holder) (hclaim : s'.stopClaimed = s.stopClaimed)
    (hmask : s'.pendingMask = s.pendingMask) (hbreaker : s'.breaker = s.breaker) :
    Claimed s' := by
  refine ⟨fun u => ?_, ?_, ?_, ?_⟩
  · rw [hholder, ← h.holder]
    by_cases hu : u = t
    · rw [hu, hpc]
    · rw [hthreads u hu]
  · rw [hholder, hclaim]
    exact h.taken
  · rw [hbreaker, hmask]
    exact h.swap
  · rw [hbreaker, hmask, hclaim, hholder]
    exact h.posted

theorem Claimed.call {s : State τ} (h : Claimed s) {t : τ} (address : UInt64)
    (hpc : s.threads t = .idle) : Claimed (s.call t address) := by
  unfold State.call
  split
  · obtain ⟨missed, hmiss⟩ := s.miss_eq t address (s.matching t address)
    rw [hmiss]
    exact ⟨h.holder, h.taken, h.swap, h.posted⟩
  · refine h.of_threads (fun u hu => Function.update_of_ne hu _ _) ?_ rfl rfl rfl rfl
    simp [State.goto, hpc, CallPc.holds]

theorem Claimed.claim {s : State τ} (h : Claimed s) {t : τ} {address : UInt64}
    (hpc : s.threads t = .claim address) : Claimed (s.claim t address) := by
  have hidle : ∀ missed, Claimed ({ s with log := { s.log with missed := missed } }.goto t .idle) := by
    intro missed
    refine h.of_threads (t := t) (fun u hu => Function.update_of_ne hu _ _) ?_ rfl rfl rfl rfl
    simp [State.goto, hpc, CallPc.holds]
  unfold State.claim
  split
  · split
    · exact hidle s.log.missed
    · obtain ⟨missed, hmiss⟩ := s.miss_eq t address (s.log.covered t)
      rw [hmiss]
      exact hidle missed
  · rename_i hfree
    have hnone : s.log.holder = none := by
      by_contra hsome
      exact hfree (h.taken hsome)
    refine ⟨fun u => ?_, fun _ => rfl, h.swap, fun hposted => absurd (h.posted hposted).1 hfree⟩
    by_cases hu : u = t
    · subst hu
      simp [State.goto, CallPc.holds_next]
    · have := h.holder u
      rw [hnone] at this
      simp [State.goto, hu, Ne.symm hu, this]

theorem State.scan_threads (s : State τ) (t : τ) (address : UInt64) (mask : Finset SlotIndex)
    (i : SlotIndex) (rest : List SlotIndex) (op : ScanOp) :
    ((s.scan is64 t address mask i rest op).threads t).holds = true := by
  cases op <;> simp only [State.scan] <;> repeat' split
  all_goals
    simp only [State.goto, Function.update_self]
    first
      | exact CallPc.holds_next _ _ _
      | rfl

theorem Claimed.scan {s : State τ} (h : Claimed s) {t : τ} {address : UInt64}
    {mask : Finset SlotIndex} {i : SlotIndex} {rest : List SlotIndex} {op : ScanOp}
    (hpc : s.threads t = .scan address mask i rest op) :
    Claimed (s.scan is64 t address mask i rest op) := by
  have hframe := Frame.scan is64 hpc
  refine h.of_threads hframe.threads ?_ ?_ ?_ ?_ hframe.breaker
  · rw [State.scan_threads, hpc]
    rfl
  all_goals
    cases op <;> simp only [State.scan] <;> repeat' split
    all_goals rfl

/-- The holder is done. -/
theorem Claimed.finish {s s' : State τ} (h : Claimed s) {t : τ} (hpc : (s.threads t).holds = true)
    (hthreads : s'.threads = Function.update s.threads t .idle) (hholder : s'.log.holder = none)
    (hbreaker : s'.breaker = s.breaker)
    (hposted : s'.pendingMask ≠ ∅ → s'.stopClaimed = true) : Claimed s' := by
  have hsome : s.log.holder = some t := (h.holder t).mp hpc
  have hnot : ¬ (s.pendingMask ≠ ∅ ∨ s.breaker.locked = true) := fun hposted => by
    rw [(h.posted hposted).2] at hsome
    cases hsome
  refine ⟨fun u => ?_, fun hne => absurd hholder hne, ?_, ?_⟩
  · rw [hthreads, hholder]
    by_cases hu : u = t
    · subst hu
      simp [CallPc.holds]
    · have := h.holder u
      rw [hsome] at this
      simp [hu, this, Ne.symm hu]
  · intro generation hswap
    rw [hbreaker] at hswap
    exact absurd (.inl (h.swap generation hswap)) hnot
  · rintro (hmask | hlocked)
    · exact ⟨hposted hmask, hholder⟩
    · rw [hbreaker] at hlocked
      exact absurd (.inr hlocked) hnot

theorem Claimed.execute {s s' : State τ} (h : Claimed s) {t : τ}
    (hstep : s.execute is64 t = some s') : Claimed s' := by
  unfold State.execute at hstep
  cases hpc : s.threads t with
  | idle =>
      rw [hpc] at hstep
      cases hstep
  | claim address =>
      rw [hpc] at hstep
      cases hstep
      exact h.claim hpc
  | scan address mask i rest op =>
      rw [hpc] at hstep
      cases hstep
      exact h.scan is64 hpc
  | release address =>
      rw [hpc] at hstep
      cases hstep
      have hholds : (s.threads t).holds = true := by rw [hpc]; rfl
      obtain ⟨missed, hmiss⟩ := s.miss_eq t address (s.log.covered t)
      rw [hmiss]
      refine h.finish hholds rfl rfl rfl fun hmask => ?_
      have := (h.posted (.inl hmask)).2
      rw [(h.holder t).mp hholds] at this
      cases this
  | post address mask op =>
      rw [hpc] at hstep
      cases hstep
      have hholds : (s.threads t).holds = true := by rw [hpc]; rfl
      have hsome : s.log.holder = some t := (h.holder t).mp hholds
      cases op with
      | threadId | address =>
          refine h.of_threads (t := t) (fun u hu => Function.update_of_ne hu _ _) ?_ rfl rfl rfl rfl
          simp [State.post, State.goto, hpc, CallPc.holds]
      | mask =>
          exact h.finish hholds rfl rfl rfl fun _ => h.taken (by rw [hsome]; exact nofun)

theorem Claimed.breaker {s s' : State τ} (h : Claimed s) (hguard : s.breaker.Undisturbed s)
    (hstep : s.breakerStep = some s') : Claimed s' := by
  have hreading : s.breaker.locked = true → ∀ s'' : State τ, s''.threads = s.threads →
      s''.log = s.log → s''.stopClaimed = s.stopClaimed → s''.pendingMask = s.pendingMask →
      (∀ generation, s''.breaker ≠ .swap generation) → Claimed s'' := by
    intro hlocked s'' hthreads hlog hclaim hmask hswap
    have hposted := h.posted (.inr hlocked)
    refine ⟨?_, ?_, fun generation heq => absurd heq (hswap generation), fun _ => ?_⟩
    · rw [hthreads, hlog]
      exact h.holder
    · rw [hlog, hclaim]
      exact h.taken
    · rwa [hclaim, hlog]
  unfold State.breakerStep at hstep
  cases hbreaker : s.breaker with
  | idle =>
      rw [hbreaker] at hstep
      cases hstep
  | swap generation =>
      simp only [hbreaker] at hstep
      split at hstep <;> cases hstep
      exact ⟨h.holder, h.taken, nofun, fun _ => h.posted (.inl (h.swap generation hbreaker))⟩
  | loadThread generation mask =>
      rw [hbreaker] at hstep
      cases hstep
      exact hreading (by rw [hbreaker]; rfl) _ rfl rfl rfl rfl nofun
  | loadAddress generation mask thread =>
      rw [hbreaker] at hstep
      cases hstep
      have hlocked : s.breaker.locked = true := by rw [hbreaker]; rfl
      cases slotsOf mask <;> exact hreading hlocked _ rfl rfl rfl rfl nofun
  | read i rest field e done =>
      have hlocked : s.breaker.locked = true := by rw [hbreaker]; rfl
      simp only [hbreaker] at hstep
      split at hstep <;> cases hstep
      · exact hreading hlocked _ rfl rfl rfl rfl nofun
      · cases rest <;> exact hreading hlocked _ rfl rfl rfl rfl nofun
  | clearThread | clearAddress =>
      rw [hbreaker] at hstep hguard
      cases hstep
      exact ⟨h.holder, h.taken, nofun, fun hposted =>
        hposted.elim (fun hmask => absurd hguard.1 hmask) nofun⟩
  | clearClaim =>
      rw [hbreaker] at hstep hguard
      cases hstep
      exact ⟨h.holder, fun hsome => absurd hguard.2 hsome, nofun, fun hposted =>
        hposted.elim (fun hmask => absurd hguard.1 hmask) nofun⟩

theorem Claimed.step {s s' : State τ} {a : Action τ} (h : Claimed s) (hguard : Undisturbed s a)
    (hstep : step is64 s a = some s') : Claimed s' := by
  have hsame : ∀ s'' : State τ, s''.threads = s.threads → s''.log.holder = s.log.holder →
      s''.stopClaimed = s.stopClaimed → s''.pendingMask = s.pendingMask →
      s''.breaker = s.breaker → Claimed s'' := by
    intro s'' hthreads hholder hclaim hmask hbreaker
    refine ⟨?_, ?_, ?_, ?_⟩
    · rw [hthreads, hholder]
      exact h.holder
    · rw [hholder, hclaim]
      exact h.taken
    · rw [hbreaker, hmask]
      exact h.swap
    · rw [hbreaker, hmask, hclaim, hholder]
      exact h.posted
  cases a with
  | call t address =>
      simp only [Traps.step] at hstep
      split at hstep <;> cases hstep
      rename_i hidle
      exact h.call address hidle
  | execute t => exact h.execute is64 hstep
  | set spec =>
      simp only [Traps.step] at hstep
      repeat' split at hstep
      all_goals cases hstep
      · exact h
      · exact hsame _ rfl rfl rfl rfl rfl
  | remove id =>
      simp only [Traps.step] at hstep
      repeat' split at hstep
      all_goals cases hstep
      · exact hsame _ rfl rfl rfl rfl rfl
      · exact h
  | control =>
      obtain ⟨hthreads, hbreaker, hclaim, hmask, -, -, -, hholder, -⟩ :=
        State.controlStep_eq is64 hstep
      exact hsame _ hthreads hholder hclaim hmask hbreaker
  | publish generation =>
      simp only [Traps.step] at hstep
      split at hstep <;> cases hstep
      split
      · exact h
      · rename_i hmask
        refine ⟨h.holder, h.taken, fun _ _ => hmask, fun hposted => ?_⟩
        exact hposted.elim (fun hmask => h.posted (.inl hmask)) nofun
  | resume =>
      simp only [Traps.step] at hstep
      split at hstep <;> cases hstep
      exact ⟨h.holder, h.taken, nofun, fun hposted =>
        hposted.elim (fun hmask => absurd rfl hmask) nofun⟩
  | breaker => exact h.breaker hguard hstep

end PinBridge.Traps
