import PinBridge.Traps.Count

/-!
# Traps that are not missed

`on_execute` returns at three places without a claim.  `ACTIVE_COUNT` is zero: then there is no
live trap, since the counter counts every live trap and every trap whose decrement is still owed
(`Counted`).  The claim is taken: then the holder is an execution that a trap matches, by the
guard.  The mask is empty after the scan: then no trap has been live and has matched since the
call, since the scan leaves a slot out only if its trap is not live or does not match
(`CallPc.Covered`).
-/

namespace PinBridge.Traps

open Transition

variable {τ : Type*}

/-! ## The scan -/

section Scan

variable [DecidableEq τ]

/-- The slots that a call has to find are live and match, and the scan has not left them out. -/
def CallPc.Covered (s : State τ) (t : τ) : CallPc → Prop
  | .idle | .post .. => True
  | .claim address =>
      ∀ j ∈ s.log.covered t, s.live j = true ∧ (s.slots j).covers t address = true
  | .scan address mask i rest _ =>
      ∀ j ∈ s.log.covered t, (s.live j = true ∧ (s.slots j).covers t address = true) ∧
        (j ∈ mask ∨ j = i ∨ j ∈ rest)
  | .release _ => s.log.covered t = ∅

end Scan

/-- Slots that a call has to find stay live and stay what they are. -/
theorem CallPc.Covered.mono [DecidableEq τ] {s s' : State τ} {t : τ} {pc : CallPc}
    (h : pc.Covered s t)
    (hlive : ∀ j ∈ s'.log.covered t, j ∈ s.log.covered t ∧ (s.live j = true →
      s'.live j = true ∧ (s'.slots j).toTrap = (s.slots j).toTrap)) : pc.Covered s' t := by
  have hcovers : ∀ j address, (s'.slots j).toTrap = (s.slots j).toTrap →
      (s'.slots j).covers t address = (s.slots j).covers t address := fun j address htrap =>
    congrArg (fun trap => trap.covers t address) htrap
  cases pc with
  | idle | post => trivial
  | claim address =>
      intro j hj
      obtain ⟨hmem, hstay⟩ := hlive j hj
      obtain ⟨hl, hc⟩ := h j hmem
      exact ⟨(hstay hl).1, (hcovers j address (hstay hl).2).trans hc⟩
  | scan address mask i rest op =>
      intro j hj
      obtain ⟨hmem, hstay⟩ := hlive j hj
      obtain ⟨⟨hl, hc⟩, hplace⟩ := h j hmem
      exact ⟨⟨(hstay hl).1, (hcovers j address (hstay hl).2).trans hc⟩, hplace⟩
  | release address =>
      refine Finset.eq_empty_of_forall_notMem fun j hj => ?_
      have := (hlive j hj).1
      rw [show s.log.covered t = ∅ from h] at this
      exact Finset.notMem_empty j this

variable [DecidableEq τ]

theorem CallPc.Covered.next {s : State τ} {t : τ} {address : UInt64} {mask : Finset SlotIndex}
    {rest : List SlotIndex}
    (h : ∀ j ∈ s.log.covered t, (s.live j = true ∧ (s.slots j).covers t address = true) ∧
      (j ∈ mask ∨ j ∈ rest)) : (CallPc.next address mask rest).Covered s t := by
  cases rest with
  | nil =>
      simp only [CallPc.next]
      split
      · rename_i hmask
        refine Finset.eq_empty_of_forall_notMem fun j hj => ?_
        rcases (h j hj).2 with hmem | hmem
        · rw [hmask] at hmem
          exact Finset.notMem_empty j hmem
        · cases hmem
      · trivial
  | cons i rest =>
      intro j hj
      obtain ⟨hl, hplace⟩ := h j hj
      exact ⟨hl, hplace.imp_right List.mem_cons.mp⟩

variable (is64 : Bool)

/-- A step of a scan retires no slot that any call still has to find. -/
theorem State.scan_covered {s : State τ} {t : τ} {address : UInt64} {mask : Finset SlotIndex}
    {i : SlotIndex} {rest : List SlotIndex} {op : ScanOp}
    (hpc : s.threads t = .scan address mask i rest op) (u : τ) (j : SlotIndex)
    (hj : j ∈ (s.scan is64 t address mask i rest op).log.covered u) :
    j ∈ s.log.covered u ∧ (s.live j = true →
      (s.scan is64 t address mask i rest op).live j = true ∧
        ((s.scan is64 t address mask i rest op).slots j).toTrap = (s.slots j).toTrap) := by
  have htrap := (Frame.scan is64 hpc).trap j
  refine ⟨?_, fun hlive => ⟨?_, htrap⟩⟩
  · cases op <;> simp only [State.scan] at hj <;> repeat' split at hj
    all_goals
      first
        | exact hj
        | exact Finset.mem_of_mem_erase hj
  · cases op with
    | retire =>
        simp only [State.scan] at hj ⊢
        split at hj <;> rename_i hactive
        · rw [if_pos hactive]
          have hne : j ≠ i := Finset.ne_of_mem_erase hj
          simp only [State.live, State.goto, State.deactivate, State.modify_slots, if_neg hne]
          exact hlive
        · rw [if_neg hactive]
          exact hlive
    | hit =>
        simp only [State.scan, State.live, State.goto, State.modify_slots] at hlive ⊢
        split <;> exact hlive
    | active =>
        simp only [State.scan]
        repeat' split
        all_goals exact hlive
    | threadId lo hi =>
        simp only [State.scan]
        split <;> exact hlive
    | start | limit | oneShot | oneShotAgain | uncount => exact hlive

/-- A scan leaves a slot out only if its trap is not live or does not match. -/
theorem State.scan_coverage {s : State τ} {t : τ} {address : UInt64} {mask : Finset SlotIndex}
    {i : SlotIndex} {rest : List SlotIndex} {op : ScanOp}
    (hpc : s.threads t = .scan address mask i rest op)
    (hrecorded : (CallPc.scan address mask i rest op).Recorded s t)
    (h : (CallPc.scan address mask i rest op).Covered s t) :
    ((s.scan is64 t address mask i rest op).threads t).Covered
      (s.scan is64 t address mask i rest op) t := by
  -- with slot `i` left out
  have hleave : (∀ j ∈ s.log.covered t, j ≠ i) → ∀ j ∈ s.log.covered t,
      (s.live j = true ∧ (s.slots j).covers t address = true) ∧ (j ∈ mask ∨ j ∈ rest) :=
    fun hout j hj => ⟨(h j hj).1, (h j hj).2.imp_right fun hrest =>
      hrest.resolve_left (hout j hj)⟩
  have hinactive : (s.slots i).active ≠ true → ∀ j ∈ s.log.covered t, j ≠ i := by
    rintro hdead j hj rfl
    exact hdead (State.active_of_live (h j hj).1.1)
  have hstay := h.mono fun j hj => State.scan_covered is64 hpc t j hj
  cases op with
  | active =>
      simp only [State.scan] at hstay ⊢
      split at hstay <;> rename_i hactive
      · rw [if_pos hactive]
        split <;> simp only [State.goto, Function.update_self] <;> exact h
      · rw [if_neg hactive]
        simp only [State.goto, Function.update_self]
        exact .next (hleave (hinactive hactive))
  | start | limit | oneShot | oneShotAgain | uncount =>
      simp only [State.scan, State.goto, Function.update_self]
      exact h
  | threadId lo hi =>
      simp only [State.scan]
      split <;> simp only [State.goto, Function.update_self]
      · exact h
      · rename_i hcovers
        rw [hrecorded.2.1, hrecorded.2.2.1] at hcovers
        refine .next (hleave ?_)
        rintro j hj rfl
        exact hcovers (h j hj).1.2
  | retire =>
      simp only [State.scan] at hstay ⊢
      split at hstay <;> rename_i hactive
      · rw [if_pos hactive]
        simp only [State.goto, Function.update_self]
        exact hstay
      · rw [if_neg hactive]
        simp only [State.goto, Function.update_self]
        exact .next (hleave (hinactive hactive))
  | hit =>
      simp only [State.scan, State.goto, Function.update_self] at hstay ⊢
      refine .next fun j hj => ?_
      obtain ⟨hl, hplace⟩ := hstay j hj
      refine ⟨hl, ?_⟩
      rcases hplace with hmem | rfl | hmem
      · exact .inl (Finset.mem_insert_of_mem hmem)
      · exact .inl (Finset.mem_insert_self j mask)
      · exact .inr hmem

/-! ## Steps -/

omit [DecidableEq τ] in
/-- `set` and `remove` retire no slot that a call still has to find, and `set` fills none. -/
theorem State.controlStep_covered {s s' : State τ} (hlocked : Locked s)
    (hstep : s.controlStep is64 = some s') (u : τ) (j : SlotIndex)
    (hj : j ∈ s'.log.covered u) : j ∈ s.log.covered u ∧ (s.live j = true →
      s'.live j = true ∧ (s'.slots j).toTrap = (s.slots j).toTrap) := by
  unfold State.controlStep at hstep
  cases hcontrol : s.control with
  | idle =>
      rw [hcontrol] at hstep
      cases hstep
  | search spec pending i rest =>
      simp only [hcontrol] at hstep
      split at hstep <;> cases hstep
      · exact ⟨hj, fun hlive => ⟨(State.live_eq rfl).trans (State.active_of_live (s := s) hlive), rfl⟩⟩
      · refine ⟨hj, fun hlive => ⟨(State.live_eq ?_).trans (State.active_of_live (s := s) hlive), rfl⟩⟩
        cases rest <;> rfl
  | set spec i op =>
      rw [hcontrol] at hstep
      cases hstep
      refine ⟨hj, fun hlive => ?_⟩
      obtain ⟨hfill, -⟩ := hlocked.filling spec i op hcontrol
      have hji : j ≠ i := by
        rintro rfl
        rw [State.live, hcontrol, hfill] at hlive
        cases op <;> simp [ControlPc.counting] at hlive
      have hslot : (s.setSlot is64 spec i op).slots j = s.slots j := by
        simp [State.setSlot, State.modify, hji]
      refine ⟨(State.live_eq ?_).trans ?_, by rw [hslot]⟩
      · cases op <;> simp [State.setSlot, SetOp.next, ControlPc.counting, hji]
      · rw [hslot]
        exact State.active_of_live hlive
  | remove i =>
      simp only [hcontrol] at hstep
      split at hstep <;> cases hstep
      · refine ⟨Finset.mem_of_mem_erase hj, fun hlive => ?_⟩
        have hji : j ≠ i := Finset.ne_of_mem_erase hj
        have hslot : (s.deactivate i).slots j = s.slots j := by
          simp only [State.deactivate, State.modify_slots, if_neg hji]
        refine ⟨(State.live_eq rfl).trans ?_, congrArg Slot.toTrap hslot⟩
        exact (congrArg Slot.active hslot).trans (State.active_of_live hlive)
      · exact ⟨hj, fun hlive => ⟨(State.live_eq rfl).trans (State.active_of_live (s := s) hlive), rfl⟩⟩
  | uncount i =>
      rw [hcontrol] at hstep
      cases hstep
      exact ⟨hj, fun hlive => ⟨(State.live_eq rfl).trans (State.active_of_live (s := s) hlive), rfl⟩⟩
  | free i =>
      rw [hcontrol] at hstep
      cases hstep
      refine ⟨hj, fun hlive => ⟨(State.live_eq rfl).trans ?_, ?_⟩⟩
      · simp only [State.modify_slots]
        split <;> exact State.active_of_live hlive
      · simp only [State.modify_slots]
        split <;> rfl

/-- Every call finds what it has to find. -/
structure Found (s : State τ) : Prop where
  counted : ∃ counted, Counted s counted
  calls : ∀ t, (s.threads t).Covered s t
  missed : s.log.missed = []

/-- With `ACTIVE_COUNT` at zero there is no trap to be found. -/
theorem State.matching_eq_empty {s : State τ} {counted : SlotIndex → Bool} (h : Counted s counted)
    (hcount : s.activeCount = 0) (t : τ) (address : UInt64) : s.matching t address = ∅ := by
  refine Finset.filter_eq_empty_iff.mpr fun i _ hi => ?_
  have hlive := h.live i (Bool.and_eq_true_iff.mp hi).1
  rw [h.count] at hcount
  exact Tally.count_eq_zero.mp hcount i hlive

theorem State.mem_matching {s : State τ} {t : τ} {address : UInt64} {i : SlotIndex} :
    i ∈ s.matching t address ↔ s.live i = true ∧ (s.slots i).covers t address = true := by
  simp [State.matching]

omit [DecidableEq τ] in
theorem State.miss_empty (s : State τ) (t : τ) (address : UInt64) : s.miss t address ∅ = s :=
  if_pos rfl

theorem CallPc.Covered.same {s s' : State τ} {t : τ} {pc : CallPc} (h : pc.Covered s t)
    (hslots : s'.slots = s.slots) (hcontrol : s'.control = s.control)
    (hcovered : s'.log.covered t = s.log.covered t) : pc.Covered s' t := by
  refine h.mono fun j hj => ⟨hcovered ▸ hj, fun hlive => ?_⟩
  rw [State.live, hslots, hcontrol]
  exact ⟨hlive, rfl⟩

theorem Found.call {s : State τ} (h : Found s) {t : τ} (hidle : s.threads t = .idle)
    (address : UInt64) : Found (s.call t address) := by
  obtain ⟨counted, hcounted⟩ := h.counted
  have hframe := Frame.call s t address
  unfold State.call at hframe ⊢
  split at hframe <;> rename_i hcount
  · rw [if_pos hcount, State.matching_eq_empty hcounted hcount t address, State.miss_empty]
    exact h
  · rw [if_neg hcount]
    refine ⟨⟨counted, hcounted.of_frame hframe rfl (fun _ => rfl) fun i => ?_⟩, fun u => ?_,
      h.missed⟩
    · simp only [State.goto, Function.update_self, hidle]
      exact Iff.rfl
    · by_cases hu : u = t
      · subst hu
        simp only [State.goto, Function.update_self]
        intro j hj
        simp only [Function.update_self] at hj
        exact State.mem_matching.mp hj
      · rw [hframe.threads u hu]
        exact (h.calls u).same rfl rfl (Function.update_of_ne hu _ _)

theorem Found.claim {s : State τ} (h : Found s) {t : τ} {address : UInt64}
    (hpc : s.threads t = .claim address) (hguard : (s.threads t).Undisturbed s t) :
    Found (s.claim t address) := by
  obtain ⟨counted, hcounted⟩ := h.counted
  have hcall := h.calls t
  rw [hpc] at hguard hcall
  unfold State.claim
  split
  · rename_i hclaimed
    -- the guard: a call that a live trap matches is excused
    have hsame : (if s.ClaimMatches then s else s.miss t address (s.log.covered t)) = s := by
      split
      · rfl
      · rename_i hnot
        rw [(hguard hclaimed).resolve_right hnot, State.miss_empty]
    rw [hsame]
    refine ⟨⟨counted, hcounted.of_frame (.goto s t .idle) rfl (fun _ => rfl) fun i => ?_⟩,
      fun u => ?_, h.missed⟩
    · simp only [State.goto, Function.update_self, hpc]
      exact Iff.rfl
    · by_cases hu : u = t
      · subst hu
        simp only [State.goto, Function.update_self]
        trivial
      · rw [(Frame.goto s t .idle).threads u hu]
        exact (h.calls u).same rfl rfl rfl
  · refine ⟨⟨counted, hcounted.of_frame { Frame.goto s t _ with } rfl (fun _ => rfl)
      fun i => ?_⟩, fun u => ?_, h.missed⟩
    · simp only [State.goto, Function.update_self, hpc]
      exact iff_of_false CallPc.not_owes_next id
    · by_cases hu : u = t
      · subst hu
        simp only [State.goto, Function.update_self]
        exact .next fun j hj => ⟨hcall j hj, .inr (List.mem_finRange j)⟩
      · simp only [State.goto, Function.update_of_ne hu]
        exact (h.calls u).same rfl rfl rfl

theorem Found.scan {s : State τ} (h : Found s) (hlocked : Locked s) (hclaimed : Claimed s)
    (hattributed : Attributed s) {t : τ} {address : UInt64} {mask : Finset SlotIndex}
    {i : SlotIndex} {rest : List SlotIndex} {op : ScanOp}
    (hpc : s.threads t = .scan address mask i rest op)
    (hguard : (s.threads t).Undisturbed s t) : Found (s.scan is64 t address mask i rest op) := by
  obtain ⟨counted, hcounted⟩ := h.counted
  have hrecorded := hattributed.calls t
  have hcall := h.calls t
  rw [hpc] at hrecorded hcall
  refine ⟨hcounted.scan is64 hlocked hclaimed hpc hrecorded hguard, fun u => ?_, ?_⟩
  · by_cases hu : u = t
    · rw [hu]
      exact State.scan_coverage is64 hpc hrecorded hcall
    · rw [(Frame.scan is64 hpc).threads u hu]
      exact (h.calls u).mono fun j hj => State.scan_covered is64 hpc u j hj
  · rw [(s.scan_fields is64 t address mask i rest op).2.2.2]
    exact h.missed

theorem Found.execute {s s' : State τ} (h : Found s) (hlocked : Locked s) (hclaimed : Claimed s)
    (hattributed : Attributed s) {t : τ} (hguard : (s.threads t).Undisturbed s t)
    (hstep : s.execute is64 t = some s') : Found s' := by
  have hframe := Frame.execute is64 hstep
  unfold State.execute at hstep
  cases hpc : s.threads t with
  | idle =>
      rw [hpc] at hstep
      cases hstep
  | claim address =>
      rw [hpc] at hstep
      cases hstep
      exact h.claim hpc hguard
  | scan address mask i rest op =>
      rw [hpc] at hstep
      cases hstep
      exact h.scan is64 hlocked hclaimed hattributed hpc hguard
  | release address =>
      obtain ⟨counted, hcounted⟩ := h.counted
      have hempty := h.calls t
      rw [hpc] at hstep hempty
      cases hstep
      rw [show s.log.covered t = ∅ from hempty, State.miss_empty] at hframe ⊢
      refine ⟨⟨counted, hcounted.of_frame hframe rfl (fun _ => rfl) fun i => ?_⟩, fun u => ?_,
        h.missed⟩
      · simp only [State.goto, Function.update_self, hpc]
        exact Iff.rfl
      · by_cases hu : u = t
        · subst hu
          simp only [State.goto, Function.update_self]
          trivial
        · rw [hframe.threads u hu]
          exact (h.calls u).same rfl rfl rfl
  | post address mask op =>
      obtain ⟨counted, hcounted⟩ := h.counted
      rw [hpc] at hstep
      cases hstep
      refine ⟨⟨counted, hcounted.of_frame hframe ?_ (fun j => ?_) fun j => ?_⟩, fun u => ?_, ?_⟩
      · cases op <;> rfl
      · cases op <;> rfl
      · cases op <;> simp only [State.post, State.goto, Function.update_self, hpc] <;> exact Iff.rfl
      · by_cases hu : u = t
        · subst hu
          cases op <;> simp only [State.post, State.goto, Function.update_self] <;> trivial
        · rw [hframe.threads u hu]
          cases op <;> exact (h.calls u).same rfl rfl rfl
      · cases op <;> exact h.missed

theorem Found.control {s s' : State τ} (h : Found s) (hlocked : Locked s) (hclaimed : Claimed s)
    (hguard : s.control.Undisturbed s) (hstep : s.controlStep is64 = some s') : Found s' := by
  obtain ⟨counted, hcounted⟩ := h.counted
  obtain ⟨hthreads, -, -, -, -, -, -, -, -, hmissed⟩ := State.controlStep_eq is64 hstep
  refine ⟨hcounted.control is64 hlocked hclaimed hguard hstep, fun u => ?_, ?_⟩
  · rw [hthreads]
    exact (h.calls u).mono fun j hj => State.controlStep_covered is64 hlocked hstep u j hj
  · rw [hmissed]
    exact h.missed

/-- A step that touches neither the slots nor the calls. -/
theorem Found.same {s s' : State τ} (h : Found s) (hslots : s'.slots = s.slots)
    (hthreads : s'.threads = s.threads) (hlog : s'.log = s.log)
    (hcount : s'.activeCount = s.activeCount)
    (hcounting : ∀ j, s'.control.counting j = s.control.counting j)
    (hcontrol : ∀ j, s'.control = .uncount j ↔ s.control = .uncount j) : Found s' := by
  obtain ⟨counted, hcounted⟩ := h.counted
  have hlive : ∀ j, s'.live j = s.live j := fun j => by
    rw [State.live, State.live, hslots, hcounting]
  refine ⟨⟨counted, hcounted.of_same hcount hlive hcontrol (fun u j => ?_) fun j _ => ?_⟩,
    fun u => ?_, ?_⟩
  · rw [hthreads]
    exact CallPc.owes_congr (by rw [hslots])
  · rw [hslots]
  · rw [hthreads]
    refine (h.calls u).mono fun j hj => ⟨by rwa [hlog] at hj, fun hl => ⟨?_, by rw [hslots]⟩⟩
    rwa [hlive]
  · rw [hlog]
    exact h.missed

theorem State.breakerStep_eq {s s' : State τ} (hstep : s.breakerStep = some s') :
    s'.slots = s.slots ∧ s'.threads = s.threads ∧ s'.log = s.log ∧
      s'.activeCount = s.activeCount ∧ s'.control = s.control := by
  have hnext : ∀ e done rest, (s.readNext e done rest).slots = s.slots ∧
      (s.readNext e done rest).threads = s.threads ∧ (s.readNext e done rest).log = s.log ∧
      (s.readNext e done rest).activeCount = s.activeCount ∧
      (s.readNext e done rest).control = s.control := by
    intro e done rest
    cases rest <;> exact ⟨rfl, rfl, rfl, rfl, rfl⟩
  unfold State.breakerStep at hstep
  split at hstep
  case h_1 => cases hstep
  case h_2 =>
    split at hstep <;> cases hstep
    exact ⟨rfl, rfl, rfl, rfl, rfl⟩
  case h_4 =>
    cases hstep
    exact hnext _ _ _
  case h_5 =>
    split at hstep <;> cases hstep
    · exact ⟨rfl, rfl, rfl, rfl, rfl⟩
    · exact hnext _ _ _
  all_goals
    cases hstep
    exact ⟨rfl, rfl, rfl, rfl, rfl⟩

theorem Found.step {s s' : State τ} {a : Action τ} (h : Found s) (hlocked : Locked s)
    (hclaimed : Claimed s) (hattributed : Attributed s) (hguard : Undisturbed s a)
    (hstep : step is64 s a = some s') : Found s' := by
  cases a with
  | call t address =>
      simp only [Traps.step] at hstep
      split at hstep <;> cases hstep
      rename_i hidle
      exact h.call hidle address
  | execute t => exact h.execute is64 hlocked hclaimed hattributed hguard hstep
  | set spec =>
      simp only [Traps.step] at hstep
      split at hstep
      · cases hstep
        exact h
      split at hstep <;> cases hstep
      rename_i hfree
      refine h.same rfl rfl rfl rfl (fun j => ?_) fun j => ?_
      · rw [hfree.1]
        rfl
      · rw [hfree.1]
        exact iff_of_false (by rintro ⟨⟩) (by rintro ⟨⟩)
  | remove id =>
      simp only [Traps.step] at hstep
      split at hstep
      case isFalse => cases hstep
      rename_i hfree
      split at hstep <;> cases hstep
      · refine h.same rfl rfl rfl rfl (fun j => ?_) fun j => ?_
        · rw [hfree.1]
          rfl
        · rw [hfree.1]
          exact iff_of_false (by rintro ⟨⟩) (by rintro ⟨⟩)
      · exact h
  | control => exact h.control is64 hlocked hclaimed hguard hstep
  | publish generation =>
      simp only [Traps.step] at hstep
      split at hstep <;> cases hstep
      split
      · exact h
      · exact h.same rfl rfl rfl rfl (fun _ => rfl) fun _ => Iff.rfl
  | resume =>
      simp only [Traps.step] at hstep
      split at hstep <;> cases hstep
      exact h.same rfl rfl rfl rfl (fun _ => rfl) fun _ => Iff.rfl
  | breaker =>
      obtain ⟨hslots, hthreads, hlog, hcount, hcontrol⟩ := State.breakerStep_eq hstep
      exact h.same hslots hthreads hlog hcount (fun j => by rw [hcontrol]) fun j => by rw [hcontrol]

/-! ## Runs -/

/-- Every invariant of the traps. -/
structure Ok (s : State τ) : Prop where
  locked : Locked s
  claimed : Claimed s
  attributed : Attributed s
  found : Found s

theorem Ok.init : Ok (State.init : State τ) where
  locked := ⟨nofun, nofun, nofun, fun _ h => h.elim nofun nofun⟩
  claimed := ⟨fun _ => iff_of_false nofun nofun, fun h => absurd rfl h, nofun,
    fun h => h.elim (fun hmask => absurd rfl hmask) nofun⟩
  attributed := ⟨fun _ => trivial, fun h => absurd rfl h, trivial, nofun⟩
  found := by
    refine ⟨⟨fun _ => false, ?_, nofun, ?_, nofun, nofun⟩, fun _ => trivial, rfl⟩
    · exact (Tally.count_eq_zero.mpr fun _ => Bool.false_ne_true).symm
    · rintro i (h | ⟨t, h⟩)
      · cases h
      · exact h.elim

theorem Ok.step {s s' : State τ} {a : Action τ} (h : Ok s) (hguard : Undisturbed s a)
    (hstep : step is64 s a = some s') : Ok s' where
  locked := h.locked.step is64 hguard hstep
  claimed := h.claimed.step is64 hguard hstep
  attributed := h.attributed.step is64 h.locked h.claimed hguard hstep
  found := h.found.step is64 h.locked h.claimed h.attributed hguard hstep

/-- No call that a live trap matches is missed, and every published stop is that of a live trap
that matched. -/
structure Faithful (s : State τ) : Prop where
  missed : s.log.missed = []
  published : ∀ e ∈ s.published, e.Accounted s.log.matched

/-- The traps are faithful in every state of an undisturbed run of any threads and operations. -/
theorem faithful_of_undisturbed {as : List (Action τ)}
    (h : Guarded (step is64) Undisturbed State.init as) :
    Always (step is64) Faithful (State.init : State τ) as := by
  have hok := Guarded.always (I := Ok) (fun hok hguard hstep => hok.step is64 hguard hstep) h Ok.init
  intro pre s hpre hrun
  have hs := hok pre s hpre hrun
  exact ⟨hs.found.missed, hs.attributed.published⟩

/-! ## Three runs -/

/-- `set`, with the first slot free. -/
def setFirst (spec : Spec Nat) : List (Action Nat) := .set spec :: List.replicate 9 .control

/-- A one-shot trap is hit, published and resumed. -/
def hitOnce : List (Action Nat) :=
  setFirst ⟨0x1000, 0x1001, true, some 1⟩ ++ .call 1 0x1000 :: List.replicate 76 (.execute 1) ++
    .publish 7 :: List.replicate 9 .breaker ++ .resume :: List.replicate 3 .breaker

theorem faithful_of_undisturbed_run :
    Always (step true) Faithful (State.init : State Nat) hitOnce :=
  faithful_of_undisturbed true (by decide +kernel)

/-- Thread 1 runs outside the trap and holds the claim when thread 2 runs into it. -/
def probed : List (Action Nat) :=
  setFirst ⟨0x1000, 0x1001, false, none⟩ ++
    [.call 1 0x5000, .execute 1, .call 2 0x1000, .execute 2]

/-- Thread 1 has retired a one-shot trap, and the next `set` takes its slot before the mask is
stored. -/
def reused : List (Action Nat) :=
  setFirst ⟨0x1000, 0x1001, true, none⟩ ++ [.call 1 0x1000] ++ List.replicate 75 (.execute 1) ++
    setFirst ⟨0x2000, 0x2001, false, none⟩ ++ [.execute 1, .publish 7] ++ List.replicate 9 .breaker

/-- A trap is missed on the first run, and the second publishes a trap that nobody ran into. -/
theorem trap_missed_and_misattributed :
    (¬ ∀ (is64 : Bool) (as : List (Action Nat)) (s : State Nat),
      run (step is64) State.init as = some s → s.log.missed = []) ∧
    ¬ ∀ (is64 : Bool) (as : List (Action Nat)) (s : State Nat),
      run (step is64) State.init as = some s → ∀ e ∈ s.published, e.Accounted s.log.matched := by
  constructor
  · intro h
    have hmissed : (run (step true) State.init probed).map (fun s => s.log.missed) =
        some [(2, 0x1000)] := by decide +kernel
    obtain ⟨s, hrun, hs⟩ := Option.map_eq_some_iff.mp hmissed
    rw [h true probed s hrun] at hs
    cases hs
  · intro h
    have hpublished : (run (step true) State.init reused).map (fun s =>
        (s.published.map (fun e => e.trap.id), s.log.matched.map fun m => m.trap.id)) =
        some ([2], [1]) := by decide +kernel
    obtain ⟨s, hrun, hs⟩ := Option.map_eq_some_iff.mp hpublished
    obtain ⟨hids, hmatched⟩ := Prod.mk.inj hs
    obtain ⟨e, he, hid⟩ := List.mem_map.mp (hids ▸ List.mem_cons_self)
    obtain ⟨m, hm, -, -, htrap, -⟩ := h true reused s hrun e he
    have : m.trap.id ∈ ([1] : List UInt32) := hmatched ▸ List.mem_map_of_mem hm
    rw [← htrap, hid] at this
    cases List.mem_singleton.mp this

end PinBridge.Traps
