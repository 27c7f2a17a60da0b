import PinBridge.Traps.Claim

/-!
# Published stops

Every event that `publish_stopped` submits describes a trap that was live when its thread ran
`on_execute` at its address, and that matched it.  The thread in the scan has matched the slots
of its mask (`CallPc.Recorded`), the mask that is pending belongs to the thread and the address
that are pending, and the loop of `publish_stopped` reads slots that nobody fills
(`BreakerPc.Recorded`).
-/

namespace PinBridge.Traps

variable {τ : Type*}

/-! ## What is recorded -/

/-- The trap in slot `i` was live and matched thread `t` when it ran at the address. -/
def State.Recorded (s : State τ) (t : τ) (address : UInt64) (i : SlotIndex) : Prop :=
  ⟨t, address, (s.slots i).toTrap⟩ ∈ s.log.matched

/-- The event describes a match. -/
def Event.Accounted (matched : List (Match τ)) (e : Event τ) : Prop :=
  ∃ m ∈ matched, e.thread = some m.thread ∧ e.address = m.address ∧ e.trap = m.trap ∧
    e.filtered = m.trap.threadId.isSome

section Scan

variable [DecidableEq τ]

/-- What the loads of a scan at slot `i` have established. -/
def ScanOp.Recorded (s : State τ) (t : τ) (address : UInt64) (i : SlotIndex) : ScanOp → Prop
  | .active => True
  | .start => (s.slots i).covers t address = true → s.Recorded t address i
  | .limit lo =>
      lo = (s.slots i).start ∧ ((s.slots i).covers t address = true → s.Recorded t address i)
  | .threadId lo hi =>
      lo = (s.slots i).start ∧ hi = (s.slots i).limit ∧
        ((s.slots i).covers t address = true → s.Recorded t address i)
  | .retire => s.Recorded t address i ∧ (s.slots i).oneShot = true
  | .oneShot | .oneShotAgain | .uncount | .hit => s.Recorded t address i

def CallPc.Recorded (s : State τ) (t : τ) : CallPc → Prop
  | .scan address mask i _ op =>
      (∀ j ∈ mask, s.Recorded t address j) ∧ op.Recorded s t address i
  | .post address mask op =>
      (∀ j ∈ mask, s.Recorded t address j) ∧ (op ≠ .threadId → s.pendingTid = some t) ∧
        (op = .mask → s.pendingAddress = address)
  | _ => True

end Scan

/-- The event has the fields of the slot that come before `field`. -/
def Event.Agrees (slot : Slot τ) (e : Event τ) : Field → Prop
  | .start => True
  | .limit =>
      e.trap = { slot.toTrap with
        limit := e.trap.limit, oneShot := e.trap.oneShot, threadId := e.trap.threadId }
  | .hits | .oneShot =>
      e.trap = { slot.toTrap with oneShot := e.trap.oneShot, threadId := e.trap.threadId }
  | .filtered => e.trap = { slot.toTrap with threadId := e.trap.threadId }
  | .threadId =>
      e.trap = { slot.toTrap with threadId := e.trap.threadId } ∧
        e.filtered = slot.threadId.isSome

def BreakerPc.Recorded (s : State τ) : BreakerPc τ → Prop
  | .loadThread _ mask =>
      ∃ t, s.pendingTid = some t ∧ ∀ i ∈ mask, s.Recorded t s.pendingAddress i
  | .loadAddress _ mask thread =>
      ∃ t, thread = some t ∧ ∀ i ∈ mask, s.Recorded t s.pendingAddress i
  | .read i rest field e done =>
      (∃ t, e.thread = some t ∧ ∀ j ∈ i :: rest, s.Recorded t e.address j) ∧
        e.Agrees (s.slots i) field ∧ ∀ e ∈ done, e.Accounted s.log.matched
  | _ => True

/-- Everything that is pending, being published or published is recorded. -/
structure Attributed [DecidableEq τ] (s : State τ) : Prop where
  calls : ∀ t, (s.threads t).Recorded s t
  pending : s.pendingMask ≠ ∅ →
    ∃ t, s.pendingTid = some t ∧ ∀ i ∈ s.pendingMask, s.Recorded t s.pendingAddress i
  breaker : s.breaker.Recorded s
  published : ∀ e ∈ s.published, e.Accounted s.log.matched

/-! ## Frames -/

theorem Event.Accounted.mono {matched matched' : List (Match τ)} {e : Event τ}
    (h : e.Accounted matched) (hsub : matched ⊆ matched') : e.Accounted matched' := by
  obtain ⟨m, hm, he⟩ := h
  exact ⟨m, hsub hm, he⟩

theorem State.Recorded.mono {s s' : State τ} {t : τ} {address : UInt64} {i : SlotIndex}
    (h : s.Recorded t address i) (htrap : (s'.slots i).toTrap = (s.slots i).toTrap)
    (hsub : s.log.matched ⊆ s'.log.matched) : s'.Recorded t address i := by
  unfold State.Recorded
  rw [htrap]
  exact hsub h

/-- Nothing that the breaker thread looks at has changed. -/
theorem BreakerPc.Recorded.mono {s s' : State τ} {pc : BreakerPc τ} (h : pc.Recorded s)
    (htrap : pc.locked = true → ∀ j, (s'.slots j).toTrap = (s.slots j).toTrap)
    (hsub : s.log.matched ⊆ s'.log.matched)
    (hthread : pc.locked = true → s'.pendingTid = s.pendingTid)
    (haddress : pc.locked = true → s'.pendingAddress = s.pendingAddress) : pc.Recorded s' := by
  cases pc with
  | loadThread generation mask =>
      obtain ⟨t, ht, hmask⟩ := h
      refine ⟨t, (hthread rfl).trans ht, fun i hi => ?_⟩
      rw [haddress rfl]
      exact (hmask i hi).mono (htrap rfl i) hsub
  | loadAddress generation mask thread =>
      obtain ⟨t, ht, hmask⟩ := h
      refine ⟨t, ht, fun i hi => ?_⟩
      rw [haddress rfl]
      exact (hmask i hi).mono (htrap rfl i) hsub
  | read i rest field e done =>
      obtain ⟨⟨t, ht, hrest⟩, hagrees, hdone⟩ := h
      refine ⟨⟨t, ht, fun j hj => (hrest j hj).mono (htrap rfl j) hsub⟩, ?_,
        fun e he => (hdone e he).mono hsub⟩
      have hslot := htrap rfl i
      cases field <;> simp only [Event.Agrees, hslot] at hagrees ⊢ <;> exact hagrees
  | idle | swap | clearThread | clearAddress | clearClaim => trivial

theorem Event.Agrees.read {slot : Slot τ} {e : Event τ} {field next : Field}
    (h : e.Agrees slot field) (hnext : field.next = some next) :
    (field.read slot e).Agrees slot next := by
  cases field <;> cases hnext
  · rfl
  · simp only [Event.Agrees, Field.read] at h ⊢
    rw [h]
  · exact h
  · simp only [Event.Agrees, Field.read] at h ⊢
    rw [h]
  · exact ⟨h, rfl⟩

theorem Event.Agrees.complete {slot : Slot τ} {e : Event τ} {field : Field}
    (h : e.Agrees slot field) (hnext : field.next = none) :
    (field.read slot e).trap = slot.toTrap ∧
      (field.read slot e).filtered = slot.threadId.isSome := by
  cases field <;> cases hnext
  refine ⟨?_, h.2⟩
  simp only [Field.read]
  rw [h.1]

theorem Field.read_place (field : Field) (slot : Slot τ) (e : Event τ) :
    (field.read slot e).thread = e.thread ∧ (field.read slot e).address = e.address := by
  cases field <;> exact ⟨rfl, rfl⟩

/-- Only the stores of `set` change what a slot describes. -/
theorem State.controlStep_trap (is64 : Bool) {s s' : State τ} (hstep : s.controlStep is64 = some s')
    (j : SlotIndex) : (s'.slots j).toTrap = (s.slots j).toTrap ∨
      ∃ spec op, s.control = .set spec j op ∧ op ≠ .count := by
  unfold State.controlStep at hstep
  split at hstep
  case h_1 => cases hstep
  case h_2 => split at hstep <;> cases hstep <;> exact .inl rfl
  case h_3 spec i op hcontrol =>
    cases hstep
    by_cases hj : j = i
    · subst hj
      by_cases hop : op = .count
      · subst hop
        exact .inl (by simp [State.setSlot, State.modify, SetOp.write])
      · exact .inr ⟨spec, op, hcontrol, hop⟩
    · exact .inl (by simp [State.setSlot, State.modify, hj])
  case h_4 i hcontrol =>
    split at hstep <;> cases hstep
    · simp only [State.deactivate, State.modify_slots]
      split <;> exact .inl rfl
    · exact .inl rfl
  case h_5 =>
    cases hstep
    exact .inl rfl
  case h_6 i hcontrol =>
    cases hstep
    simp only [State.modify_slots]
    split <;> exact .inl rfl

variable [DecidableEq τ]

/-- Nothing that a thread in `on_execute` has looked at has changed. -/
theorem CallPc.Recorded.mono {s s' : State τ} {t : τ} {pc : CallPc} (h : pc.Recorded s t)
    (htrap : ∀ j, pc.uses j = true → (s'.slots j).toTrap = (s.slots j).toTrap)
    (hsub : s.log.matched ⊆ s'.log.matched)
    (hthread : pc.posting = true → s'.pendingTid = s.pendingTid)
    (haddress : pc.posting = true → s'.pendingAddress = s.pendingAddress) : pc.Recorded s' t := by
  cases pc with
  | idle | claim | release => trivial
  | scan address mask i rest op =>
      obtain ⟨hmask, hop⟩ := h
      refine ⟨fun j hj => (hmask j hj).mono (htrap j (by simp [CallPc.uses, hj])) hsub, ?_⟩
      have hslot : op ≠ .active → (s'.slots i).toTrap = (s.slots i).toTrap := fun hne =>
        htrap i (by simp [CallPc.uses, hne])
      have hstart : op ≠ .active → (s'.slots i).start = (s.slots i).start := fun hne =>
        congrArg (fun trap => trap.start) (hslot hne)
      have hlimit : op ≠ .active → (s'.slots i).limit = (s.slots i).limit := fun hne =>
        congrArg (fun trap => trap.limit) (hslot hne)
      have hcovers : op ≠ .active →
          (s'.slots i).covers t address = (s.slots i).covers t address := fun hne =>
        congrArg (fun trap => trap.covers t address) (hslot hne)
      cases op with
      | active => trivial
      | start => exact fun hc => (hop ((hcovers nofun).symm.trans hc)).mono (hslot nofun) hsub
      | limit start =>
          exact ⟨hop.1.trans (hstart nofun).symm, fun hc =>
            (hop.2 ((hcovers nofun).symm.trans hc)).mono (hslot nofun) hsub⟩
      | threadId start limit =>
          exact ⟨hop.1.trans (hstart nofun).symm, hop.2.1.trans (hlimit nofun).symm, fun hc =>
            (hop.2.2 ((hcovers nofun).symm.trans hc)).mono (hslot nofun) hsub⟩
      | retire =>
          refine ⟨hop.1.mono (hslot nofun) hsub, ?_⟩
          exact (congrArg (fun trap => trap.oneShot) (hslot nofun)).trans hop.2
      | oneShot | oneShotAgain | uncount | hit =>
          exact State.Recorded.mono hop (hslot nofun) hsub
  | post address mask op =>
      obtain ⟨hmask, hthread', haddress'⟩ := h
      refine ⟨fun j hj => (hmask j hj).mono (htrap j (by simp [CallPc.uses, hj])) hsub, ?_, ?_⟩
      · intro hop
        rw [hthread (by simpa [CallPc.posting] using hop)]
        exact hthread' hop
      · intro hop
        rw [haddress (by simp [CallPc.posting, hop])]
        exact haddress' hop

theorem CallPc.Recorded.of_not_holds {s : State τ} {t : τ} {pc : CallPc} (h : pc.holds ≠ true) :
    pc.Recorded s t := by
  cases pc with
  | idle | claim => trivial
  | scan | release | post => exact absurd rfl h

theorem CallPc.Recorded.next {s : State τ} {t : τ} {address : UInt64} {mask : Finset SlotIndex}
    (h : ∀ j ∈ mask, s.Recorded t address j) (rest : List SlotIndex) :
    (CallPc.next address mask rest).Recorded s t := by
  cases rest with
  | nil =>
      simp only [CallPc.next]
      split
      · trivial
      · exact ⟨h, fun hne => absurd rfl hne, (by rintro ⟨⟩)⟩
  | cons i rest => exact ⟨h, trivial⟩

theorem CallPc.holds_of_uses {pc : CallPc} {i : SlotIndex} (h : pc.uses i = true) :
    pc.holds = true := by
  cases pc with
  | idle | claim => cases h
  | scan | release | post => rfl

theorem CallPc.holds_of_posting {pc : CallPc} (h : pc.posting = true) : pc.holds = true := by
  cases pc with
  | idle | claim => cases h
  | scan | release | post => rfl

/-! ## Steps -/

variable (is64 : Bool)

/-- The rest of the state after a step of thread `t`, which holds the claim. -/
theorem Attributed.of_frame {s s' : State τ} {t : τ} (h : Attributed s) (hclaimed : Claimed s)
    (hholds : (s.threads t).holds = true) (hframe : Frame s s' t)
    (hpc : (s'.threads t).Recorded s' t) (hsub : s.log.matched ⊆ s'.log.matched)
    (hpending : s'.pendingMask = s.pendingMask ∨
      ∃ t, s'.pendingTid = some t ∧ ∀ i ∈ s'.pendingMask, s'.Recorded t s'.pendingAddress i)
    (hpublished : s'.published = s.published) : Attributed s' := by
  have hholder := (hclaimed.holder t).mp hholds
  have hnone : ¬ (s.pendingMask ≠ ∅ ∨ s.breaker.locked = true) := fun hposted => by
    rw [(hclaimed.posted hposted).2] at hholder
    cases hholder
  refine ⟨fun u => ?_, ?_, ?_, ?_⟩
  · by_cases hu : u = t
    · rw [hu]
      exact hpc
    · rw [hframe.threads u hu]
      refine .of_not_holds fun hholds' => hu ?_
      exact Option.some.inj (((hclaimed.holder u).mp hholds').symm.trans hholder)
  · rcases hpending with hmask | hpending
    · rw [hmask]
      exact fun hne => absurd (.inl hne) hnone
    · exact fun _ => hpending
  · rw [hframe.breaker]
    exact h.breaker.mono (fun hlocked => absurd (.inr hlocked) hnone) hsub
      (fun hlocked => absurd (.inr hlocked) hnone) (fun hlocked => absurd (.inr hlocked) hnone)
  · rw [hpublished]
    exact fun e he => (h.published e he).mono hsub

/-- The rest of the state after a step of thread `t` that only reads. -/
theorem Attributed.of_read {s s' : State τ} {t : τ} (h : Attributed s) (hframe : Frame s s' t)
    (hpc : (s'.threads t).Recorded s' t) (hmatched : s'.log.matched = s.log.matched)
    (hmask : s'.pendingMask = s.pendingMask) (hthread : s'.pendingTid = s.pendingTid)
    (haddress : s'.pendingAddress = s.pendingAddress) (hpublished : s'.published = s.published) :
    Attributed s' := by
  have hsub : s.log.matched ⊆ s'.log.matched := by
    rw [hmatched]
    exact List.Subset.refl _
  refine ⟨fun u => ?_, ?_, ?_, ?_⟩
  · by_cases hu : u = t
    · rw [hu]
      exact hpc
    · rw [hframe.threads u hu]
      exact (h.calls u).mono (fun j _ => hframe.trap j) hsub (fun _ => hthread) fun _ => haddress
  · rw [hmask, hthread, haddress]
    intro hne
    obtain ⟨u, hu, hrecorded⟩ := h.pending hne
    exact ⟨u, hu, fun i hi => (hrecorded i hi).mono (hframe.trap i) hsub⟩
  · rw [hframe.breaker]
    exact h.breaker.mono (fun _ => hframe.trap) hsub (fun _ => hthread) fun _ => haddress
  · rw [hpublished]
    exact fun e he => (h.published e he).mono hsub

theorem Attributed.call {s : State τ} (h : Attributed s) (t : τ) (address : UInt64) :
    Attributed (s.call t address) := by
  have hframe := Frame.call s t address
  unfold State.call at hframe ⊢
  split at hframe <;> rename_i hcount
  · rw [if_pos hcount]
    obtain ⟨missed, hmiss⟩ := s.miss_eq t address (s.matching t address)
    rw [hmiss] at hframe ⊢
    exact h.of_read hframe (h.calls t) rfl rfl rfl rfl rfl
  · rw [if_neg hcount]
    refine h.of_read hframe ?_ rfl rfl rfl rfl rfl
    simp only [State.goto, Function.update_self]
    trivial

theorem Attributed.claim {s : State τ} (h : Attributed s) {t : τ} {address : UInt64}
    (hframe : Frame s (s.claim t address) t) : Attributed (s.claim t address) := by
  have hidle : ∀ missed,
      Attributed ({ s with log := { s.log with missed := missed } }.goto t .idle) := by
    intro missed
    refine h.of_read { Frame.goto s t .idle with } ?_ rfl rfl rfl rfl rfl
    simp only [State.goto, Function.update_self]
    trivial
  unfold State.claim at hframe ⊢
  split at hframe <;> rename_i hclaimed
  · rw [if_pos hclaimed]
    split
    · exact hidle s.log.missed
    · obtain ⟨missed, hmiss⟩ := s.miss_eq t address (s.log.covered t)
      rw [hmiss]
      exact hidle missed
  · rw [if_neg hclaimed]
    refine h.of_read hframe ?_ rfl rfl rfl rfl rfl
    simp only [State.goto, Function.update_self]
    exact .next (fun j hj => absurd hj (Finset.notMem_empty j)) _

theorem State.scan_recorded {s : State τ} {t : τ} {address : UInt64} {mask : Finset SlotIndex}
    {i : SlotIndex} {rest : List SlotIndex} {op : ScanOp}
    (hpc : s.threads t = .scan address mask i rest op)
    (h : (CallPc.scan address mask i rest op).Recorded s t) :
    ((s.scan is64 t address mask i rest op).threads t).Recorded
      (s.scan is64 t address mask i rest op) t := by
  have hframe := Frame.scan is64 hpc
  obtain ⟨hmask, hop⟩ := h
  cases op with
  | active =>
      simp only [State.scan]
      split
      · split <;> simp only [State.goto, Function.update_self]
        · exact ⟨fun j hj => List.mem_cons_of_mem _ (hmask j hj), fun _ => List.mem_cons_self⟩
        · rename_i hcovers
          exact ⟨hmask, fun hc => absurd hc hcovers⟩
      · simp only [State.goto, Function.update_self]
        exact .next hmask rest
  | start =>
      simp only [State.scan, State.goto, Function.update_self]
      exact ⟨hmask, rfl, hop⟩
  | limit lo =>
      simp only [State.scan, State.goto, Function.update_self]
      exact ⟨hmask, hop.1, rfl, hop.2⟩
  | threadId lo hi =>
      simp only [State.scan]
      split <;> simp only [State.goto, Function.update_self]
      · rename_i hcovers
        rw [hop.1, hop.2.1] at hcovers
        exact ⟨hmask, hop.2.2 hcovers⟩
      · exact .next hmask rest
  | oneShot =>
      simp only [State.scan, State.goto, Function.update_self]
      split
      · rename_i hone
        exact ⟨hmask, hop, hone⟩
      · exact ⟨hmask, hop⟩
  | retire =>
      have hmono : ∀ j, s.Recorded t address j →
          (s.scan is64 t address mask i rest .retire).Recorded t address j := fun j hj => by
        refine hj.mono (hframe.trap j) ?_
        simp only [State.scan]
        split <;> exact List.Subset.refl _
      simp only [State.scan] at hmono ⊢
      split at hmono <;> rename_i hactive
      · rw [if_pos hactive]
        simp only [State.goto, Function.update_self]
        exact ⟨fun j hj => hmono j (hmask j hj), hmono i hop.1⟩
      · rw [if_neg hactive]
        simp only [State.goto, Function.update_self]
        exact .next hmask rest
  | oneShotAgain =>
      simp only [State.scan, State.goto, Function.update_self]
      split <;> exact ⟨hmask, hop⟩
  | uncount =>
      simp only [State.scan, State.goto, Function.update_self]
      exact ⟨hmask, hop⟩
  | hit =>
      have hmono : ∀ j, s.Recorded t address j →
          (s.scan is64 t address mask i rest .hit).Recorded t address j := fun j hj =>
        hj.mono (hframe.trap j) (List.Subset.refl _)
      simp only [State.scan, State.goto, Function.update_self] at hmono ⊢
      refine .next (fun j hj => ?_) rest
      rcases Finset.mem_insert.mp hj with rfl | hj
      · exact hmono j hop
      · exact hmono j (hmask j hj)

theorem State.scan_fields (s : State τ) (t : τ) (address : UInt64) (mask : Finset SlotIndex)
    (i : SlotIndex) (rest : List SlotIndex) (op : ScanOp) :
    s.log.matched ⊆ (s.scan is64 t address mask i rest op).log.matched ∧
      (s.scan is64 t address mask i rest op).pendingMask = s.pendingMask ∧
      (s.scan is64 t address mask i rest op).published = s.published ∧
      (s.scan is64 t address mask i rest op).log.missed = s.log.missed := by
  cases op with
  | active =>
      simp only [State.scan]
      split
      · split
        · exact ⟨List.subset_cons_self _ _, rfl, rfl, rfl⟩
        · exact ⟨List.Subset.refl _, rfl, rfl, rfl⟩
      · exact ⟨List.Subset.refl _, rfl, rfl, rfl⟩
  | threadId | retire =>
      simp only [State.scan]
      split <;> exact ⟨List.Subset.refl _, rfl, rfl, rfl⟩
  | start | limit | oneShot | oneShotAgain | uncount | hit =>
      exact ⟨List.Subset.refl _, rfl, rfl, rfl⟩

theorem Attributed.execute {s s' : State τ} (h : Attributed s) (hclaimed : Claimed s) {t : τ}
    (hstep : s.execute is64 t = some s') : Attributed s' := by
  have hframe := Frame.execute is64 hstep
  have hcall := h.calls t
  unfold State.execute at hstep
  cases hpc : s.threads t with
  | idle =>
      rw [hpc] at hstep
      cases hstep
  | claim address =>
      rw [hpc] at hstep
      cases hstep
      exact h.claim hframe
  | scan address mask i rest op =>
      rw [hpc] at hstep hcall
      cases hstep
      obtain ⟨hsub, hmask, hpublished, -⟩ := s.scan_fields is64 t address mask i rest op
      exact h.of_frame hclaimed (by rw [hpc]; rfl) hframe (State.scan_recorded is64 hpc hcall)
        hsub (.inl hmask) hpublished
  | release address =>
      have hholds : (s.threads t).holds = true := by rw [hpc]; rfl
      rw [hpc] at hstep
      cases hstep
      obtain ⟨missed, hmiss⟩ := s.miss_eq t address (s.log.covered t)
      rw [hmiss] at hframe ⊢
      refine h.of_frame hclaimed hholds hframe ?_ (List.Subset.refl _) (.inl rfl) rfl
      simp only [State.goto, Function.update_self]
      trivial
  | post address mask op =>
      have hholds : (s.threads t).holds = true := by rw [hpc]; rfl
      rw [hpc] at hstep hcall
      cases hstep
      obtain ⟨hmask, hthread, haddress⟩ := hcall
      cases op with
      | threadId =>
          refine h.of_frame hclaimed hholds hframe ?_ (List.Subset.refl _) (.inl rfl) rfl
          simp only [State.post, State.goto, Function.update_self]
          exact ⟨hmask, fun _ => rfl, (by rintro ⟨⟩)⟩
      | address =>
          refine h.of_frame hclaimed hholds hframe ?_ (List.Subset.refl _) (.inl rfl) rfl
          simp only [State.post, State.goto, Function.update_self]
          exact ⟨hmask, fun _ => hthread (by rintro ⟨⟩), fun _ => rfl⟩
      | mask =>
          refine h.of_frame hclaimed hholds hframe ?_ (List.Subset.refl _) (.inr ⟨t, ?_⟩) rfl
          · simp only [State.post, State.goto, Function.update_self]
            trivial
          · refine ⟨hthread (by rintro ⟨⟩), fun i hi => ?_⟩
            have := hmask i hi
            rw [← haddress rfl] at this
            exact this

theorem Attributed.control {s s' : State τ} (h : Attributed s) (hlocked : Locked s)
    (hclaimed : Claimed s) (hguard : s.control.Undisturbed s)
    (hstep : s.controlStep is64 = some s') : Attributed s' := by
  obtain ⟨hthreads, hbreaker, -, hmask, hthread, haddress, hpublished, -, hmatched, -⟩ :=
    State.controlStep_eq is64 hstep
  have hsub : s.log.matched ⊆ s'.log.matched := by
    rw [hmatched]
    exact List.Subset.refl _
  have hnot : s.breaker.locked ≠ true := fun hbusy => by
    unfold State.controlStep at hstep
    rw [hlocked.mutex hbusy] at hstep
    cases hstep
  -- `set` writes a slot that nobody looks at
  have htrap : ∀ j, (s'.slots j).toTrap = (s.slots j).toTrap ∨
      j ∉ s.pendingMask ∧ ∀ u, (s.threads u).uses j ≠ true := by
    intro j
    rcases State.controlStep_trap is64 hstep j with hsame | ⟨spec, op, hcontrol, hop⟩
    · exact .inl hsame
    · rw [hcontrol] at hguard
      obtain ⟨hpending, hholder⟩ := hguard.resolve_left hop
      refine .inr ⟨hpending, fun u huses => ?_⟩
      have := hholder u ((hclaimed.holder u).mp (CallPc.holds_of_uses huses))
      rw [this] at huses
      cases huses
  refine ⟨fun u => ?_, ?_, ?_, ?_⟩
  · rw [hthreads]
    refine (h.calls u).mono (fun j hj => ?_) hsub (fun _ => hthread) fun _ => haddress
    exact (htrap j).resolve_right fun hunused => hunused.2 u hj
  · rw [hmask, hthread, haddress]
    intro hne
    obtain ⟨u, hu, hrecorded⟩ := h.pending hne
    refine ⟨u, hu, fun i hi => (hrecorded i hi).mono ?_ hsub⟩
    exact (htrap i).resolve_right fun hunused => hunused.1 hi
  · rw [hbreaker]
    exact h.breaker.mono (fun hbusy => absurd hbusy hnot) hsub (fun _ => hthread)
      fun _ => haddress
  · rw [hpublished]
    exact fun e he => (h.published e he).mono hsub

/-! ## Publishing -/

/-- The rest of the state after a step of the breaker thread. -/
theorem Attributed.of_breaker {s s' : State τ} (h : Attributed s) (hslots : s'.slots = s.slots)
    (hlog : s'.log = s.log) (hthreads : s'.threads = s.threads)
    (hplace : s'.pendingTid = s.pendingTid ∧ s'.pendingAddress = s.pendingAddress ∨
      ∀ u, (s.threads u).posting ≠ true)
    (hpending : s'.pendingMask = ∅ ∨ s'.pendingMask = s.pendingMask ∧
      s'.pendingTid = s.pendingTid ∧ s'.pendingAddress = s.pendingAddress)
    (hbreaker : s'.breaker.Recorded s')
    (hpublished : ∀ e ∈ s'.published, e.Accounted s.log.matched) : Attributed s' := by
  have hsub : s.log.matched ⊆ s'.log.matched := by
    rw [hlog]
    exact List.Subset.refl _
  refine ⟨fun u => ?_, fun hne => ?_, hbreaker, ?_⟩
  · rw [hthreads]
    have hsame : (s.threads u).posting = true →
        s'.pendingTid = s.pendingTid ∧ s'.pendingAddress = s.pendingAddress := fun hposting =>
      hplace.resolve_right fun hnone => hnone u hposting
    exact (h.calls u).mono (fun j _ => by rw [hslots]) hsub (fun hp => (hsame hp).1)
      fun hp => (hsame hp).2
  · obtain ⟨hmask, hthread, haddress⟩ := hpending.resolve_left hne
    rw [hmask] at hne ⊢
    rw [hthread, haddress]
    obtain ⟨u, hu, hrecorded⟩ := h.pending hne
    exact ⟨u, hu, fun i hi => (hrecorded i hi).mono (by rw [hslots]) hsub⟩
  · rw [hlog]
    exact hpublished

/-- The breaker thread at the next slot of the mask, or past the last. -/
theorem Attributed.readNext {s : State τ} (h : Attributed s) {e : Event τ} {done : List (Event τ)}
    {rest : List SlotIndex} {t : τ} (ht : e.thread = some t)
    (hrest : ∀ j ∈ rest, s.Recorded t e.address j)
    (hdone : ∀ e ∈ done, e.Accounted s.log.matched) : Attributed (s.readNext e done rest) := by
  cases rest with
  | nil =>
      refine h.of_breaker rfl rfl rfl (.inl ⟨rfl, rfl⟩) (.inr ⟨rfl, rfl, rfl⟩) trivial fun e he => ?_
      exact (List.mem_append.mp he).elim (h.published e) (hdone e)
  | cons i rest =>
      exact h.of_breaker rfl rfl rfl (.inl ⟨rfl, rfl⟩) (.inr ⟨rfl, rfl, rfl⟩)
        ⟨⟨t, ht, hrest⟩, trivial, hdone⟩ h.published

theorem Attributed.breakerStep {s s' : State τ} (h : Attributed s) (hclaimed : Claimed s)
    (hguard : s.breaker.Undisturbed s) (hstep : s.breakerStep = some s') : Attributed s' := by
  have hrecorded := h.breaker
  have hposting : (∀ t ∈ s.log.holder, (s.threads t).posting = false) →
      ∀ u, (s.threads u).posting ≠ true := fun hnone u hu => by
    rw [hnone u ((hclaimed.holder u).mp (CallPc.holds_of_posting hu))] at hu
    cases hu
  unfold State.breakerStep at hstep
  cases hbreaker : s.breaker with
  | idle =>
      rw [hbreaker] at hstep
      cases hstep
  | swap generation =>
      simp only [hbreaker] at hstep
      split at hstep <;> cases hstep
      exact h.of_breaker rfl rfl rfl (.inl ⟨rfl, rfl⟩) (.inl rfl)
        (h.pending (hclaimed.swap generation hbreaker)) h.published
  | loadThread generation mask =>
      rw [hbreaker] at hstep hrecorded
      cases hstep
      exact h.of_breaker rfl rfl rfl (.inl ⟨rfl, rfl⟩) (.inr ⟨rfl, rfl, rfl⟩) hrecorded h.published
  | loadAddress generation mask thread =>
      rw [hbreaker] at hstep hrecorded
      cases hstep
      obtain ⟨t, ht, hmask⟩ := hrecorded
      exact h.readNext ht (fun j hj => hmask j (of_decide_eq_true (List.mem_filter.mp hj).2)) nofun
  | read i rest field e done =>
      rw [hbreaker] at hrecorded
      simp only [hbreaker] at hstep
      obtain ⟨⟨t, ht, hrest⟩, hagrees, hdone⟩ := hrecorded
      obtain ⟨hthread, haddress⟩ := field.read_place (s.slots i) e
      split at hstep <;> cases hstep
      · rename_i field' hnext
        refine h.of_breaker rfl rfl rfl (.inl ⟨rfl, rfl⟩) (.inr ⟨rfl, rfl, rfl⟩)
          ⟨⟨t, hthread.trans ht, ?_⟩, hagrees.read hnext, hdone⟩ h.published
        rw [haddress]
        exact hrest
      · rename_i hnext
        obtain ⟨htrap, hfiltered⟩ := hagrees.complete hnext
        refine h.readNext (hthread.trans ht) ?_ fun e' he' => ?_
        · show ∀ j ∈ rest, s.Recorded t (field.read (s.slots i) e).address j
          rw [haddress]
          exact fun j hj => hrest j (List.mem_cons_of_mem _ hj)
        · rcases List.mem_append.mp he' with he' | he'
          · exact hdone e' he'
          · obtain rfl := List.mem_singleton.mp he'
            exact ⟨_, hrest i List.mem_cons_self, hthread.trans ht, haddress, htrap, hfiltered⟩
  | clearThread | clearAddress =>
      rw [hbreaker] at hstep hguard
      cases hstep
      exact h.of_breaker rfl rfl rfl (.inr (hposting hguard.2)) (.inl hguard.1) trivial h.published
  | clearClaim =>
      rw [hbreaker] at hstep hguard
      cases hstep
      exact h.of_breaker rfl rfl rfl (.inl ⟨rfl, rfl⟩) (.inl hguard.1) trivial h.published

theorem Attributed.step {s s' : State τ} {a : Action τ} (h : Attributed s) (hlocked : Locked s)
    (hclaimed : Claimed s) (hguard : Undisturbed s a) (hstep : step is64 s a = some s') :
    Attributed s' := by
  cases a with
  | call t address =>
      simp only [Traps.step] at hstep
      split at hstep <;> cases hstep
      exact h.call t address
  | execute t => exact h.execute is64 hclaimed hstep
  | set spec =>
      simp only [Traps.step] at hstep
      repeat' split at hstep
      all_goals cases hstep
      · exact h
      · exact h.of_breaker rfl rfl rfl (.inl ⟨rfl, rfl⟩) (.inr ⟨rfl, rfl, rfl⟩) h.breaker h.published
  | remove id =>
      simp only [Traps.step] at hstep
      repeat' split at hstep
      all_goals cases hstep
      · exact h.of_breaker rfl rfl rfl (.inl ⟨rfl, rfl⟩) (.inr ⟨rfl, rfl, rfl⟩) h.breaker h.published
      · exact h
  | control => exact h.control is64 hlocked hclaimed hguard hstep
  | publish generation =>
      simp only [Traps.step] at hstep
      split at hstep <;> cases hstep
      split
      · exact h
      · exact h.of_breaker rfl rfl rfl (.inl ⟨rfl, rfl⟩) (.inr ⟨rfl, rfl, rfl⟩) trivial h.published
  | resume =>
      simp only [Traps.step] at hstep
      split at hstep <;> cases hstep
      exact h.of_breaker rfl rfl rfl (.inl ⟨rfl, rfl⟩) (.inl rfl) trivial h.published
  | breaker => exact h.breakerStep hclaimed hguard hstep

end PinBridge.Traps
