import PinBridge.Traps.Attribution

/-!
# The counter of the traps

`any_active` reads `ACTIVE_COUNT` without the mutex.  `set` counts a trap after it has stored
`active`, and a trap is uncounted after `active` has been cleared: by `remove`, or by the
execution that has retired it.  So the counter counts the live traps and the decrements that are
still owed (`Counted`), and it is not zero while a trap is live.
-/

namespace PinBridge.Traps

open Breakpoints (usizeCount usizePred usizeCount_gt usizePred_of_pos)

variable {τ : Type*}

/-! ## The counter -/

/-- The thread has retired slot `i` and has not yet decremented the counter. -/
def CallPc.Owes (s : State τ) (i : SlotIndex) : CallPc → Prop
  | .scan _ _ j _ op => j = i ∧ (op = .uncount ∨ op = .oneShotAgain ∧ (s.slots i).oneShot = true)
  | _ => False

/-- The counter is one too high for slot `i`. -/
def State.Owed (s : State τ) (i : SlotIndex) : Prop :=
  s.control = .uncount i ∨ ∃ t, (s.threads t).Owes s i

/-- `ACTIVE_COUNT` counts the live traps and the decrements that are owed. -/
structure Counted (s : State τ) (counted : SlotIndex → Bool) : Prop where
  count : s.activeCount = Tally.count (· = true) counted
  live : ∀ i, s.live i = true → counted i = true
  owed : ∀ i, s.Owed i → counted i = true ∧ (s.slots i).active = false
  only : ∀ i, counted i = true → s.live i = true ∨ s.Owed i
  once : ∀ i t, s.control = .uncount i → ¬ (s.threads t).Owes s i

theorem count_le (counted : SlotIndex → Bool) :
    Tally.count (· = true) counted ≤ maxExecutionTraps := by
  have := Tally.count_le_card (p := (· = true)) (g := counted)
  rwa [Fintype.card_fin] at this

theorem usizePred_count (is64 : Bool) {counted : SlotIndex → Bool} {i : SlotIndex}
    (h : counted i = true) : usizePred is64 (Tally.count (· = true) counted) =
      Tally.count (· = true) (Function.update counted i false) := by
  have hcount := Tally.count_update (p := (· = true)) (g := counted) i false
  rw [if_pos h, if_neg Bool.false_ne_true, Nat.add_zero] at hcount
  have hle := count_le counted
  have hsize : maxExecutionTraps < usizeCount is64 := usizeCount_gt is64
  rw [usizePred_of_pos (by omega) (by omega)]
  omega

theorem usizeSucc_count (is64 : Bool) {counted : SlotIndex → Bool} {i : SlotIndex}
    (h : counted i = false) : (Tally.count (· = true) counted + 1) % usizeCount is64 =
      Tally.count (· = true) (Function.update counted i true) := by
  have hcount := Tally.count_update (p := (· = true)) (g := counted) i true
  rw [if_neg (by simp [h]), if_pos rfl, Nat.add_zero] at hcount
  have hle := count_le (Function.update counted i true)
  have hsize : maxExecutionTraps < usizeCount is64 := usizeCount_gt is64
  rw [← hcount, Nat.mod_eq_of_lt (by omega)]

theorem State.live_eq {s : State τ} {i : SlotIndex} (h : s.control.counting i = false) :
    s.live i = (s.slots i).active := by
  unfold State.live
  rw [h, Bool.not_false, Bool.and_true]

theorem State.active_of_live {s : State τ} {i : SlotIndex} (h : s.live i = true) :
    (s.slots i).active = true :=
  (Bool.and_eq_true_iff.mp h).1

/-! ## Steps -/

variable (is64 : Bool)

theorem CallPc.owes_congr {s s' : State τ} {i : SlotIndex} {pc : CallPc}
    (h : (s'.slots i).oneShot = (s.slots i).oneShot) : pc.Owes s' i ↔ pc.Owes s i := by
  cases pc with
  | scan address mask j rest op =>
      unfold CallPc.Owes
      rw [h]
  | idle | claim | release | post => exact Iff.rfl

theorem CallPc.not_owes_next {s : State τ} {i : SlotIndex} {address : UInt64}
    {mask : Finset SlotIndex} {rest : List SlotIndex} :
    ¬ (CallPc.next address mask rest).Owes s i := by
  cases rest with
  | nil =>
      simp only [CallPc.next]
      split <;> exact id
  | cons j rest =>
      rintro ⟨-, hop | hop⟩
      · cases hop
      · cases hop.1

theorem Frame.live {s s' : State τ} {t : τ} (h : Frame s s' t)
    (hactive : ∀ i, (s'.slots i).active = (s.slots i).active) (i : SlotIndex) :
    s'.live i = s.live i := by
  unfold State.live
  rw [hactive, h.control]

theorem Frame.owes {s s' : State τ} {t u : τ} (h : Frame s s' t) (hu : u ≠ t) (i : SlotIndex) :
    (s'.threads u).Owes s' i ↔ (s.threads u).Owes s i := by
  rw [h.threads u hu]
  exact CallPc.owes_congr (congrArg (fun trap => trap.oneShot) (h.trap i))

/-- A step that changes neither the counter nor what it has to count. -/
theorem Counted.of_same {s s' : State τ} {counted : SlotIndex → Bool} (h : Counted s counted)
    (hcount : s'.activeCount = s.activeCount) (hlive : ∀ j, s'.live j = s.live j)
    (hcontrol : ∀ j, s'.control = .uncount j ↔ s.control = .uncount j)
    (howes : ∀ u j, (s'.threads u).Owes s' j ↔ (s.threads u).Owes s j)
    (hactive : ∀ j, s.Owed j → (s'.slots j).active = (s.slots j).active) : Counted s' counted := by
  have howed : ∀ j, s'.Owed j ↔ s.Owed j := fun j =>
    or_congr (hcontrol j) (exists_congr fun u => howes u j)
  refine ⟨hcount.trans h.count, fun j => ?_, fun j hj => ?_, fun j => ?_, fun j u => ?_⟩
  · rw [hlive]
    exact h.live j
  · rw [howed] at hj
    rw [hactive j hj]
    exact h.owed j hj
  · rw [howed, hlive]
    exact h.only j
  · rw [hcontrol, howes]
    exact h.once j u

/-- A step of thread `t` that does not touch the counter. -/
theorem Counted.of_frame {s s' : State τ} {counted : SlotIndex → Bool} {t : τ}
    (h : Counted s counted) (hframe : Frame s s' t) (hcount : s'.activeCount = s.activeCount)
    (hactive : ∀ i, (s'.slots i).active = (s.slots i).active)
    (howes : ∀ i, (s'.threads t).Owes s' i ↔ (s.threads t).Owes s i) : Counted s' counted := by
  refine h.of_same hcount (hframe.live hactive) (fun j => by rw [hframe.control]) (fun u j => ?_)
    fun j _ => hactive j
  by_cases hu : u = t
  · rw [hu]
    exact howes j
  · exact hframe.owes hu j

theorem CallPc.not_owes_scan {s : State τ} {i j : SlotIndex} {address : UInt64}
    {mask : Finset SlotIndex} {rest : List SlotIndex} {op : ScanOp} (huncount : op ≠ .uncount)
    (hagain : op = .oneShotAgain → (s.slots i).oneShot = false) :
    ¬ (CallPc.scan address mask i rest op).Owes s j := by
  rintro ⟨rfl, hop | ⟨hop, hone⟩⟩
  · exact huncount hop
  · rw [hagain hop] at hone
    cases hone

/-- The counter is decremented for slot `i`, which is the only decrement that is owed for it. -/
theorem Counted.decrement {s s' : State τ} {counted : SlotIndex → Bool} {i : SlotIndex}
    (h : Counted s counted) (howes : s.Owed i)
    (hcount : s'.activeCount = usizePred is64 s.activeCount)
    (hlive : ∀ j, s'.live j = s.live j) (hactive : ∀ j, (s'.slots j).active = (s.slots j).active)
    (howed : ∀ j, s'.Owed j ↔ s.Owed j ∧ j ≠ i)
    (honce : ∀ j t, s'.control = .uncount j → ¬ (s'.threads t).Owes s' j) :
    Counted s' (Function.update counted i false) := by
  obtain ⟨hcounted, hdead⟩ := h.owed i howes
  refine ⟨?_, fun j hj => ?_, fun j hj => ?_, fun j hj => ?_, honce⟩
  · rw [hcount, h.count, usizePred_count is64 hcounted]
  · rw [hlive] at hj
    have hji : j ≠ i := by
      rintro rfl
      rw [State.active_of_live hj] at hdead
      cases hdead
    rw [Function.update_of_ne hji]
    exact h.live j hj
  · obtain ⟨hj, hji⟩ := (howed j).mp hj
    rw [Function.update_of_ne hji, hactive]
    exact h.owed j hj
  · have hji : j ≠ i := by
      rintro rfl
      rw [Function.update_self] at hj
      cases hj
    rw [Function.update_of_ne hji] at hj
    rw [hlive, howed]
    exact (h.only j hj).imp_right fun hj => ⟨hj, hji⟩

theorem CallPc.uses_of_owes {s : State τ} {i : SlotIndex} {pc : CallPc} (h : pc.Owes s i) :
    pc.uses i = true := by
  cases pc with
  | scan address mask j rest op =>
      obtain ⟨rfl, hop⟩ := h
      have hne : op ≠ .active := by
        rintro rfl
        rcases hop with hop | hop
        · cases hop
        · cases hop.1
      simp [CallPc.uses, hne]
  | idle | claim | release | post => exact h.elim

/-- `set` counts the trap it has put into slot `i`. -/
theorem Counted.increment {s : State τ} {counted : SlotIndex → Bool} {spec : Spec τ}
    {i : SlotIndex} (h : Counted s counted) (hlocked : Locked s)
    (hcontrol : s.control = .set spec i .count) :
    Counted (s.setSlot is64 spec i .count) (Function.update counted i true) := by
  have hactive : (s.slots i).active = true := (hlocked.filling spec i .count hcontrol).1
  have hnot : ¬ s.Owed i := fun howed => by
    rw [(h.owed i howed).2] at hactive
    cases hactive
  have hnew : counted i = false := by
    by_contra hcounted
    rcases h.only i (Bool.not_eq_false _ ▸ hcounted) with hlive | howed
    · rw [State.live, hcontrol] at hlive
      simp [ControlPc.counting] at hlive
    · exact hnot howed
  have hslots : ∀ j, (s.setSlot is64 spec i .count).slots j = s.slots j := fun j => by
    simp [State.setSlot, State.modify, SetOp.write]
  have hlive : ∀ j, (s.setSlot is64 spec i .count).live j = (s.slots j).active := fun j =>
    (State.live_eq rfl).trans (congrArg Slot.active (hslots j))
  have howed : ∀ j, (s.setSlot is64 spec i .count).Owed j ↔ s.Owed j := fun j =>
    or_congr (iff_of_false (by rintro ⟨⟩) (by rw [hcontrol]; rintro ⟨⟩))
      (exists_congr fun u => CallPc.owes_congr (by rw [hslots j]))
  refine ⟨?_, fun j hj => ?_, fun j hj => ?_, fun j hj => ?_, ?_⟩
  · rw [← usizeSucc_count is64 hnew, ← h.count]
    rfl
  · by_cases hji : j = i
    · rw [hji, Function.update_self]
    · rw [Function.update_of_ne hji]
      refine h.live j ((State.live_eq ?_).trans ((hlive j).symm.trans hj))
      rw [hcontrol]
      simp [ControlPc.counting, hji]
  · rw [howed] at hj
    have hji : j ≠ i := by
      rintro rfl
      exact hnot hj
    rw [hslots, Function.update_of_ne hji]
    exact h.owed j hj
  · rw [hlive, howed]
    by_cases hji : j = i
    · exact .inl (hji ▸ hactive)
    · rw [Function.update_of_ne hji] at hj
      exact (h.only j hj).imp_left State.active_of_live
  · intro j t hcontrol'
    cases hcontrol'

/-- `remove` retires the trap of slot `i` and owes the decrement. -/
theorem Counted.deactivate {s : State τ} {counted : SlotIndex → Bool} {i : SlotIndex}
    (h : Counted s counted) (hcontrol : s.control = .remove i)
    (hactive : (s.slots i).active = true) :
    Counted { s.deactivate i with control := .uncount i } counted := by
  have hcounting : ∀ j, s.control.counting j = false := fun j => by rw [hcontrol]; rfl
  have hslots : ∀ j, j ≠ i → (s.deactivate i).slots j = s.slots j := fun j hj => by
    simp only [State.deactivate, State.modify_slots, if_neg hj]
  have hdead : ((s.deactivate i).slots i).active = false := by
    simp only [State.deactivate, State.modify_slots, if_pos]
  have hlive : ∀ j, ({ s.deactivate i with control := .uncount i } : State τ).live j =
      ((s.deactivate i).slots j).active := fun j => State.live_eq rfl
  have howes : ∀ u j, (s.threads u).Owes { s.deactivate i with control := .uncount i } j ↔
      (s.threads u).Owes s j := fun u j => CallPc.owes_congr (by
    simp only [State.deactivate, State.modify_slots]
    split <;> rfl)
  have hnot : ¬ s.Owed i := fun howed => by
    rw [(h.owed i howed).2] at hactive
    cases hactive
  refine ⟨h.count, fun j hj => ?_, fun j hj => ?_, fun j hj => ?_, fun j u hj => ?_⟩
  · rw [hlive] at hj
    have hji : j ≠ i := by
      rintro rfl
      rw [hdead] at hj
      cases hj
    rw [hslots j hji] at hj
    exact h.live j ((State.live_eq (hcounting j)).trans hj)
  · rcases hj with hj | ⟨u, hj⟩
    · cases hj
      exact ⟨h.live i ((State.live_eq (hcounting i)).trans hactive), hdead⟩
    · have howed : s.Owed j := .inr ⟨u, (howes u j).mp hj⟩
      have hji : j ≠ i := by
        rintro rfl
        exact hnot howed
      show _ ∧ ((s.deactivate i).slots j).active = false
      rw [hslots j hji]
      exact h.owed j howed
  · by_cases hji : j = i
    · rw [hji]
      exact .inr (.inl rfl)
    · rw [hlive, hslots j hji]
      refine (h.only j hj).imp State.active_of_live ?_
      rintro (hj | ⟨u, hj⟩)
      · rw [hcontrol] at hj
        cases hj
      · exact .inr ⟨u, (howes u j).mpr hj⟩
  · cases hj
    exact fun hj => hnot (.inr ⟨u, (howes u i).mp hj⟩)

theorem Counted.setSlot {s : State τ} {counted : SlotIndex → Bool} {spec : Spec τ}
    {i : SlotIndex} {op : SetOp} (h : Counted s counted) (hlocked : Locked s)
    (hclaimed : Claimed s) (hcontrol : s.control = .set spec i op)
    (hguard : s.control.Undisturbed s) :
    ∃ counted', Counted (s.setSlot is64 spec i op) counted' := by
  obtain ⟨hfill, -⟩ := hlocked.filling spec i op hcontrol
  have hslots : ∀ j, j ≠ i → (s.setSlot is64 spec i op).slots j = s.slots j := fun j hj => by
    simp [State.setSlot, State.modify, hj]
  have hcounting : ∀ j, j ≠ i → s.control.counting j = false := fun j hj => by
    rw [hcontrol]
    cases op <;> simp [ControlPc.counting, hj]
  have hcounting' : ∀ j, j ≠ i → (s.setSlot is64 spec i op).control.counting j = false :=
    fun j hj => by cases op <;> simp [State.setSlot, SetOp.next, ControlPc.counting, hj]
  have hother : ∀ j, j ≠ i → (s.setSlot is64 spec i op).live j = s.live j := fun j hj => by
    rw [State.live_eq (hcounting j hj), State.live_eq (hcounting' j hj), hslots j hj]
  by_cases hop : op = .count
  · subst hop
    exact ⟨_, h.increment is64 hlocked hcontrol⟩
  · rw [hcontrol] at hguard
    obtain ⟨-, hholder⟩ := hguard.resolve_left hop
    have hunused : ∀ u pc, s.threads u = pc → ∀ s'' : State τ, ¬ pc.Owes s'' i := by
      rintro u pc rfl s'' hu
      have huses := CallPc.uses_of_owes hu
      rw [hholder u ((hclaimed.holder u).mp (CallPc.holds_of_uses huses))] at huses
      cases huses
    have hinactive : (s.slots i).active = false := by simpa [hop] using hfill
    have hlive : (s.setSlot is64 spec i op).live i = false := by
      cases op <;>
        simp_all [State.live, State.setSlot, State.modify, SetOp.write, SetOp.next,
          ControlPc.counting]
    refine ⟨counted, h.of_same ?_ (fun j => ?_) (fun j => ?_) (fun u j => ?_) fun j hj => ?_⟩
    · simp [State.setSlot, hop]
    · by_cases hj : j = i
      · rw [hj, hlive, State.live, hinactive, Bool.false_and]
      · exact hother j hj
    · refine iff_of_false ?_ (by rw [hcontrol]; rintro ⟨⟩)
      cases op <;> rintro ⟨⟩
    · by_cases hj : j = i
      · subst hj
        exact iff_of_false (hunused u _ rfl _) (hunused u _ rfl _)
      · exact CallPc.owes_congr (by rw [hslots j hj])
    · by_cases hji : j = i
      · subst hji
        rcases hj with hj | ⟨u, hj⟩
        · rw [hcontrol] at hj
          cases hj
        · exact absurd hj (hunused u _ rfl _)
      · rw [hslots j hji]

theorem Counted.control {s s' : State τ} {counted : SlotIndex → Bool} (h : Counted s counted)
    (hlocked : Locked s) (hclaimed : Claimed s) (hguard : s.control.Undisturbed s)
    (hstep : s.controlStep is64 = some s') : ∃ counted', Counted s' counted' := by
  unfold State.controlStep at hstep
  cases hcontrol : s.control with
  | idle =>
      rw [hcontrol] at hstep
      cases hstep
  | search spec pending i rest =>
      have hlive : ∀ control : ControlPc τ, (∀ j, control.counting j = false) →
          ∀ j, ({ s with control := control } : State τ).live j = s.live j := fun control hnot j =>
        (State.live_eq (hnot j)).trans (State.live_eq (by rw [hcontrol]; rfl)).symm
      simp only [hcontrol] at hstep
      refine ⟨counted, ?_⟩
      split at hstep <;> cases hstep
      · refine h.of_same rfl (hlive _ fun _ => rfl) (fun j => ?_) (fun _ _ => Iff.rfl) fun _ _ => rfl
        exact iff_of_false nofun (by rw [hcontrol]; exact nofun)
      · refine h.of_same rfl (hlive _ fun j => ?_) (fun j => ?_) (fun _ _ => Iff.rfl) fun _ _ => rfl
        · cases rest <;> rfl
        · refine iff_of_false ?_ (by rw [hcontrol]; exact nofun)
          cases rest <;> exact nofun
  | set spec i op =>
      rw [hcontrol] at hstep
      cases hstep
      exact h.setSlot is64 hlocked hclaimed hcontrol hguard
  | remove i =>
      have hcounting : ∀ j, s.control.counting j = false := fun j => by rw [hcontrol]; rfl
      simp only [hcontrol] at hstep
      split at hstep <;> rename_i hactive <;> cases hstep
      · exact ⟨counted, h.deactivate hcontrol hactive⟩
      · refine ⟨counted, h.of_same rfl (fun j => ?_) (fun j => ?_) (fun _ _ => Iff.rfl)
          fun _ _ => rfl⟩
        · rw [State.live_eq (hcounting j)]
          exact State.live_eq rfl
        · exact iff_of_false nofun (by rw [hcontrol]; exact nofun)
  | uncount i =>
      have hcounting : ∀ j, s.control.counting j = false := fun j => by rw [hcontrol]; rfl
      rw [hcontrol] at hstep
      cases hstep
      refine ⟨_, h.decrement is64 (.inl hcontrol) rfl (fun j => ?_) (fun _ => rfl) (fun j => ?_)
        nofun⟩
      · rw [State.live_eq (hcounting j)]
        exact State.live_eq rfl
      · constructor
        · rintro (hj | ⟨u, hj⟩)
          · cases hj
          · refine ⟨.inr ⟨u, hj⟩, ?_⟩
            rintro rfl
            exact h.once j u hcontrol hj
        · rintro ⟨hj | hj, hji⟩
          · rw [hcontrol] at hj
            cases hj
            exact absurd rfl hji
          · exact .inr hj
  | free i =>
      have hcounting : ∀ j, s.control.counting j = false := fun j => by rw [hcontrol]; rfl
      rw [hcontrol] at hstep
      cases hstep
      refine ⟨counted, h.of_same rfl (fun j => ?_) (fun j => ?_) (fun u j => ?_) fun j _ => ?_⟩
      · rw [State.live_eq (hcounting j)]
        refine (State.live_eq rfl).trans ?_
        simp only [State.modify_slots]
        split <;> rfl
      · exact iff_of_false nofun (by rw [hcontrol]; exact nofun)
      · refine CallPc.owes_congr ?_
        simp only [State.modify_slots]
        split <;> rfl
      · simp only [State.modify_slots]
        split <;> rfl

/-! ## The scan -/

variable [DecidableEq τ]

/-- Only a retirement and the second load of `one_shot` leave a decrement to be done. -/
theorem State.scan_not_owes (s : State τ) (t : τ) (address : UInt64) (mask : Finset SlotIndex)
    (i : SlotIndex) (rest : List SlotIndex) (op : ScanOp) (hagain : op ≠ .oneShotAgain)
    (hretire : op ≠ .retire) (j : SlotIndex) :
    ¬ ((s.scan is64 t address mask i rest op).threads t).Owes
      (s.scan is64 t address mask i rest op) j := by
  cases op with
  | active =>
      simp only [State.scan]
      split
      · split <;> simp only [State.goto, Function.update_self] <;>
          exact CallPc.not_owes_scan (by rintro ⟨⟩) (by rintro ⟨⟩)
      · simp only [State.goto, Function.update_self]
        exact CallPc.not_owes_next
  | start | limit | uncount =>
      simp only [State.scan, State.goto, Function.update_self]
      exact CallPc.not_owes_scan (by rintro ⟨⟩) (by rintro ⟨⟩)
  | threadId lo hi =>
      simp only [State.scan]
      split <;> simp only [State.goto, Function.update_self]
      · exact CallPc.not_owes_scan (by rintro ⟨⟩) (by rintro ⟨⟩)
      · exact CallPc.not_owes_next
  | oneShot =>
      simp only [State.scan, State.goto, Function.update_self]
      split
      · exact CallPc.not_owes_scan (by rintro ⟨⟩) (by rintro ⟨⟩)
      · rename_i hone
        exact CallPc.not_owes_scan (by rintro ⟨⟩) fun _ => Bool.not_eq_true _ ▸ hone
  | retire => exact absurd rfl hretire
  | oneShotAgain => exact absurd rfl hagain
  | hit =>
      simp only [State.scan, State.goto, Function.update_self]
      exact CallPc.not_owes_next

/-- Only a retirement clears `active`, and only a decrement changes the counter. -/
theorem State.scan_active (s : State τ) (t : τ) (address : UInt64) (mask : Finset SlotIndex)
    (i : SlotIndex) (rest : List SlotIndex) (op : ScanOp) (hretire : op ≠ .retire) (j : SlotIndex) :
    ((s.scan is64 t address mask i rest op).slots j).active = (s.slots j).active := by
  cases op with
  | active =>
      simp only [State.scan]
      repeat' split
      all_goals rfl
  | threadId lo hi =>
      simp only [State.scan]
      split <;> rfl
  | retire => exact absurd rfl hretire
  | hit =>
      simp only [State.scan, State.goto, State.modify_slots]
      split <;> rfl
  | start | limit | oneShot | oneShotAgain | uncount => rfl

theorem State.scan_activeCount (s : State τ) (t : τ) (address : UInt64) (mask : Finset SlotIndex)
    (i : SlotIndex) (rest : List SlotIndex) (op : ScanOp) (huncount : op ≠ .uncount) :
    (s.scan is64 t address mask i rest op).activeCount = s.activeCount := by
  cases op with
  | active =>
      simp only [State.scan]
      repeat' split
      all_goals rfl
  | threadId | retire =>
      simp only [State.scan]
      split <;> rfl
  | uncount => exact absurd rfl huncount
  | start | limit | oneShot | oneShotAgain | hit => rfl

/-- Thread `t` retires slot `i` and owes the decrement, or another thread has retired it. -/
theorem Counted.retire {s : State τ} {counted : SlotIndex → Bool} {t : τ} {address : UInt64}
    {mask : Finset SlotIndex} {i : SlotIndex} {rest : List SlotIndex} (h : Counted s counted)
    (hlocked : Locked s) (hpc : s.threads t = .scan address mask i rest .retire)
    (hone : (s.slots i).oneShot = true) (hguard : s.control.counting i = false) :
    Counted (s.scan is64 t address mask i rest .retire) counted := by
  have hframe := Frame.scan is64 hpc
  have hnot : ∀ j, ¬ (s.threads t).Owes s j := fun j => by
    rw [hpc]
    exact CallPc.not_owes_scan nofun nofun
  simp only [State.scan] at hframe ⊢
  split at hframe <;> rename_i hactive
  · rw [if_pos hactive]
    have hlive : s.live i = true := by
      unfold State.live
      rw [hactive, hguard]
      rfl
    have hslots : ∀ j, j ≠ i → ((s.deactivate i).goto t
        (.scan address mask i rest .oneShotAgain)).slots j = s.slots j := fun j hj => by
      simp only [State.goto, State.deactivate, State.modify_slots, if_neg hj]
    have hdead : (((s.deactivate i).goto t
        (.scan address mask i rest .oneShotAgain)).slots i).active = false := by
      simp only [State.goto, State.deactivate, State.modify_slots, if_pos]
    have howed : ∀ j, j ≠ i → (((s.deactivate i).goto t
        (.scan address mask i rest .oneShotAgain)).Owed j ↔ s.Owed j) := fun j hji => by
      refine or_congr Iff.rfl (exists_congr fun u => ?_)
      by_cases hu : u = t
      · subst hu
        refine iff_of_false ?_ (hnot j)
        simp only [State.goto, Function.update_self]
        exact fun hj => hji hj.1.symm
      · exact hframe.owes hu j
    refine ⟨h.count, fun j hj => ?_, fun j hj => ?_, fun j hj => ?_, fun j u hj => ?_⟩
    · by_cases hji : j = i
      · rw [hji]
        exact h.live i hlive
      · refine h.live j ?_
        unfold State.live at hj
        rwa [hslots j hji] at hj
    · by_cases hji : j = i
      · rw [hji]
        exact ⟨h.live i hlive, hdead⟩
      · rw [hslots j hji]
        exact h.owed j ((howed j hji).mp hj)
    · by_cases hji : j = i
      · refine .inr (.inr ⟨t, ?_⟩)
        rw [hji]
        simp only [State.goto, Function.update_self]
        refine ⟨rfl, .inr ⟨rfl, ?_⟩⟩
        exact (congrArg (fun trap => trap.oneShot) (hframe.trap i)).trans hone
      · rw [howed j hji]
        refine (h.only j hj).imp_left fun hl => ?_
        unfold State.live
        rwa [hslots j hji]
    · by_cases hu : u = t
      · subst hu
        simp only [State.goto, Function.update_self]
        rintro ⟨rfl, -⟩
        rw [hlocked.freeing i (.inl hj)] at hactive
        cases hactive
      · rw [hframe.owes hu]
        exact h.once j u hj
  · rw [if_neg hactive]
    refine h.of_frame hframe rfl (fun _ => rfl) fun j => iff_of_false ?_ (hnot j)
    simp only [State.goto, Function.update_self]
    exact CallPc.not_owes_next

/-- Thread `t` decrements the counter for slot `i`. -/
theorem Counted.uncount {s : State τ} {counted : SlotIndex → Bool} {t : τ} {address : UInt64}
    {mask : Finset SlotIndex} {i : SlotIndex} {rest : List SlotIndex} (h : Counted s counted)
    (hclaimed : Claimed s) (hpc : s.threads t = .scan address mask i rest .uncount) :
    Counted (s.scan is64 t address mask i rest .uncount) (Function.update counted i false) := by
  have hframe := Frame.scan is64 hpc
  have howes : ∀ j, (s.threads t).Owes s j ↔ i = j := fun j => by
    rw [hpc]
    exact ⟨fun hj => hj.1, fun hj => ⟨hj, .inl rfl⟩⟩
  have hthis : s.Owed i := .inr ⟨t, (howes i).mpr rfl⟩
  have hafter := State.scan_not_owes is64 s t address mask i rest .uncount nofun nofun
  -- no other thread is in the scan
  have hother : ∀ u j, u ≠ t → ¬ (s.threads u).Owes s j := fun u j hu hj => by
    have huh : (s.threads u).holds = true := by
      cases hpu : s.threads u with
      | scan => rfl
      | idle | claim | release | post =>
          rw [hpu] at hj
          exact hj.elim
    have hth : (s.threads t).holds = true := by rw [hpc]; rfl
    exact hu (Option.some.inj (((hclaimed.holder u).mp huh).symm.trans ((hclaimed.holder t).mp hth)))
  refine h.decrement is64 hthis rfl (fun _ => rfl) (fun _ => rfl) (fun j => ?_) fun j u hj => ?_
  · constructor
    · rintro (hj | ⟨u, hj⟩)
      · refine ⟨.inl hj, ?_⟩
        rintro rfl
        exact h.once j t hj ((howes j).mpr rfl)
      · by_cases hu : u = t
        · rw [hu] at hj
          exact absurd hj (hafter j)
        · exact absurd ((hframe.owes hu j).mp hj) (hother u j hu)
    · rintro ⟨hj | ⟨u, hj⟩, hji⟩
      · exact .inl hj
      · by_cases hu : u = t
        · rw [hu] at hj
          exact absurd ((howes j).mp hj).symm hji
        · exact absurd hj (hother u j hu)
  · by_cases hu : u = t
    · rw [hu]
      exact hafter j
    · exact fun hj' => hother u j hu ((hframe.owes hu j).mp hj')

theorem Counted.scan {s : State τ} {counted : SlotIndex → Bool} {t : τ} {address : UInt64}
    {mask : Finset SlotIndex} {i : SlotIndex} {rest : List SlotIndex} {op : ScanOp}
    (h : Counted s counted) (hlocked : Locked s) (hclaimed : Claimed s)
    (hpc : s.threads t = .scan address mask i rest op)
    (hrecorded : (CallPc.scan address mask i rest op).Recorded s t)
    (hguard : (s.threads t).Undisturbed s t) :
    ∃ counted', Counted (s.scan is64 t address mask i rest op) counted' := by
  cases op with
  | active | start | limit | threadId | oneShot | hit =>
      refine ⟨counted, h.of_frame (.scan is64 hpc) ?_ ?_ fun j => iff_of_false ?_ ?_⟩
      · exact State.scan_activeCount is64 s t address mask i rest _ nofun
      · exact State.scan_active is64 s t address mask i rest _ nofun
      · refine State.scan_not_owes is64 s t address mask i rest _ ?_ ?_ j <;> exact nofun
      · rw [hpc]
        exact CallPc.not_owes_scan nofun nofun
  | oneShotAgain =>
      refine ⟨counted, h.of_frame (.scan is64 hpc) rfl (fun _ => rfl) fun j => ?_⟩
      simp only [State.scan, State.goto, Function.update_self, hpc, CallPc.Owes]
      refine and_congr_right fun hj => ?_
      subst hj
      cases (s.slots i).oneShot <;> simp
  | retire =>
      rw [hpc] at hguard
      exact ⟨counted, h.retire is64 hlocked hpc hrecorded.2.2 hguard⟩
  | uncount => exact ⟨_, h.uncount is64 hclaimed hpc⟩

end PinBridge.Traps
