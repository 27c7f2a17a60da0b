import PinBridge.Intercept.Slots

/-!
# The steps and the slots

The steps of a call and of the scripting thread keep `Slots`.  A call that writes its
slot, publishes its request or cancels it owns the slot.  The scripting thread changes
only the states `PENDING`, `HANDLING` and `CANCELLED` (`ScriptMove`).
-/

namespace PinBridge.Intercept

variable {ρ σ : Type*} {n : Nat}

/-! ## Steps of a call and the slots -/

theorem SlotMove.refl (taken : List Nat) (slot : Slot ρ σ) : SlotMove taken slot slot :=
  ⟨fun _ _ ho => ⟨ho, fun hst => ⟨hst, rfl⟩⟩, fun _ => ⟨rfl, rfl, rfl⟩, id⟩

/-- A step of a call that changes none of the fields other parties look at. -/
theorem SlotMove.of_same {taken : List Nat} {old new : Slot ρ σ} (howner : new.owner = old.owner)
    (hstate : new.state = old.state) (hgen : new.generation = old.generation)
    (hresp : new.state.handled = true → new.response = old.response) :
    SlotMove taken old new := by
  refine ⟨fun c _ ho => ⟨by rw [← howner, ho], fun hst => ⟨?_, hgen⟩⟩, fun hst => ?_, ?_⟩
  · rw [hstate]
    exact hst
  · exact ⟨hstate, hgen, hresp hst⟩
  · rw [hstate]
    exact id

/-- A step of a call that leaves the slots alone and keeps its own. -/
theorem Slots.stay {s s' : State ρ σ n} {i : Fin n} {pc : CallPc ρ σ} (hs : Slots s)
    (hslots : s'.slots = s.slots) (hthreads : s'.threads = Function.update s.threads i pc)
    (hscript : s'.script = s.script) (hhandles : s'.handles = s.handles)
    (htaken : s'.log.taken = s.log.taken) (hcompletions : s'.log.completions = s.log.completions)
    (hslot : pc.slot = (s.threads i).slot) (hleaving : pc.leaving = (s.threads i).leaving)
    (hknows : pc.Knows s) : Slots s' := by
  have hupdate : s'.slots = Function.update s.slots 0 (s.slots 0) := by
    rw [hslots, Function.update_eq_self]
  have hpcs : ∀ j, (s'.threads j).slot = (s.threads j).slot ∧
      (s'.threads j).leaving = (s.threads j).leaving := by
    intro j
    rw [hthreads]
    by_cases hji : j = i
    · subst hji
      rw [Function.update_self]
      exact ⟨hslot, hleaving⟩
    · rw [Function.update_of_ne hji]
      exact ⟨rfl, rfl⟩
  have hcongr : ∀ {pc : CallPc ρ σ}, pc.Knows s → pc.Knows s' := fun h =>
    h.congr (fun k _ => by rw [hslots]; exact ⟨rfl, rfl, rfl⟩) htaken
      (by rw [hcompletions]; exact fun _ => id)
  refine ⟨fun j => ?_, fun k => ⟨?_, ?_, ?_⟩, fun h hh => ?_, ?_, by rw [htaken]; exact hs.taken⟩
  · rw [hthreads]
    by_cases hji : j = i
    · subst hji
      rw [Function.update_self]
      exact hcongr hknows
    · rw [Function.update_of_ne hji]
      exact hcongr (hs.calls j)
  · rw [hslots]
    intro ho
    obtain ⟨j, hj⟩ := (hs.slots k).owned ho
    exact ⟨j, (hpcs j).1.trans hj⟩
  · rw [hslots, hcompletions]
    exact (hs.slots k).decided
  · rw [hslots]
    intro hc
    obtain hu | ⟨j, c, hj, ho⟩ := (hs.slots k).cancelled hc
    · exact .inl hu
    · exact .inr ⟨j, c, (hpcs j).2.trans hj, ho⟩
  · rw [hhandles] at hh
    exact (hs.handles h hh).move hupdate htaken (SlotMove.refl _ _)
  · rw [hscript]
    exact hs.script.move hupdate htaken hcompletions (SlotMove.refl _ _)

/-- A slot that is neither owned, decided nor cancelled asks for nothing. -/
theorem SlotOk.of_idle {s : State ρ σ n} {k : SlotIndex} (h : (s.slots k).state = .idle) :
    SlotOk s k := by
  refine ⟨fun ho => ?_, fun hd => ?_, fun hc => ?_⟩
  · rw [h] at ho
    cases ho
  · rw [h] at hd
    cases hd
  · rw [h] at hc
    cases hc

/-- A slot that a call is writing or waiting for asks for its owner. -/
theorem SlotOk.of_owner {s : State ρ σ n} {k : SlotIndex} {i : Fin n}
    (hi : (s.threads i).slot = some k) (hd : (s.slots k).state ≠ .decided)
    (hc : (s.slots k).state ≠ .cancelled) : SlotOk s k :=
  ⟨fun _ => ⟨i, hi⟩, fun h => absurd h hd, fun h => absurd h hc⟩

/-- A step of a call that writes its slot and may publish the request. -/
theorem Slots.write {s s' : State ρ σ n} {i : Fin n} {t : Ticket} {pc : CallPc ρ σ}
    {new : Slot ρ σ} (hs : Slots s) (hd : CallsDiffer s)
    (hi : (s.threads i).slot = some t.slot) (hw : Writing s t.slot t.call)
    (hslots : s'.slots = Function.update s.slots t.slot new)
    (hthreads : s'.threads = Function.update s.threads i pc) (hscript : s'.script = s.script)
    (hhandles : s'.handles = s.handles) (htaken : s'.log.taken = s.log.taken)
    (hcompletions : s'.log.completions = s.log.completions)
    (howner : new.owner = (s.slots t.slot).owner)
    (hstate : new.state = .writing ∨ new.state = .pending) (hslot : pc.slot = some t.slot)
    (hknows : pc.Knows s') : Slots s' := by
  have hleaving : ∀ l c, (s.threads i).leaving = some (l, c) → l = t.slot := by
    intro l c hl
    cases hpc : s.threads i <;> rw [hpc] at hi hl <;> first | cases hi; done | cases hl
  refine hs.move hslots hthreads hscript hhandles htaken hcompletions
    (fun j hji hj => absurd (hs.exclusive hd hj hi) hji) ⟨fun c _ ho => ⟨?_, fun hst => ?_⟩, ?_, ?_⟩
    hknows (fun l hl => Option.some.inj (hl.symm.trans hi)) hleaving ?_
  · rw [← howner, ho]
  · rw [hw.state] at hst
    cases hst
  · intro hst
    obtain hnew | hnew := hstate <;> rw [hnew] at hst <;> cases hst
  · rw [hw.state]
    nofun
  · refine SlotOk.of_owner (i := i) (by rw [hthreads, Function.update_self]; exact hslot) ?_ ?_ <;>
      rw [hslots, Function.update_self] <;> obtain hnew | hnew := hstate <;> rw [hnew] <;> nofun

/-- A step of a call that cancels its request. -/
theorem Slots.cancel {s : State ρ σ n} {i : Fin n} {t : Ticket} (hs : Slots s)
    (hd : CallsDiffer s) (hi : (s.threads i).slot = some t.slot) (hw : Waiting s t)
    (hstate : (s.slots t.slot).state = .pending ∨ (s.slots t.slot).state = .handling) :
    Slots ((s.setSlot t.slot { s.slots t.slot with state := .cancelled }).goto i
      (.addTimeout t)) := by
  have hleaving : ∀ l c, (s.threads i).leaving = some (l, c) → l = t.slot := by
    intro l c hl
    cases hpc : s.threads i <;> rw [hpc] at hi hl <;> first | cases hi; done | cases hl
  refine hs.move rfl rfl rfl rfl rfl rfl
    (fun j hji hj => absurd (hs.exclusive hd hj hi) hji)
    ⟨fun c _ ho => ⟨ho, fun _ => ⟨rfl, rfl⟩⟩, ?_, ?_⟩
    trivial (fun l hl => Option.some.inj (hl.symm.trans hi)) hleaving ⟨?_, ?_, fun _ => ?_⟩
  · nofun
  · obtain hst | hst := hstate <;> rw [hst] <;> nofun
  · simp [State.goto, State.setSlot, SlotState.owned]
  · simp [State.goto, State.setSlot]
  · right
    refine ⟨i, t.call, ?_, ?_⟩
    · simp [State.goto, State.setSlot, CallPc.leaving]
    · simpa [State.goto, State.setSlot] using hw.owner

section

variable {s : State ρ σ n} {i : Fin n} {t : Ticket}

/-- A call claims an idle slot. -/
theorem Slots.claim {c : Nat} {request : ρ} {k : SlotIndex} (hs : Slots s)
    (hpc : s.threads i = .claim c request k) (hidle : (s.slots k).state = .idle) :
    Slots ((s.setSlot k { s.slots k with
      state := .writing, owner := some c, unvisited := false }).goto i
        (.nextGeneration c request k)) := by
  have huntaken : c ∉ s.log.taken := by
    have hknows := hs.calls i
    rwa [hpc] at hknows
  refine hs.move rfl rfl rfl rfl rfl rfl (fun j _ hj => ?_) ⟨?_, ?_, ?_⟩
    ⟨?_, ?_, huntaken⟩ (by rw [hpc]; nofun) (by rw [hpc]; nofun) ?_
  · have := ((hs.calls j).owner hj).2
    rw [hidle] at this
    cases this
  · intro c' hc' ho
    cases ho
    exact absurd hc' huntaken
  · nofun
  · rw [hidle]
    nofun
  · simp [State.goto, State.setSlot]
  · simp [State.goto, State.setSlot]
  · refine SlotOk.of_owner (i := i) ?_ ?_ ?_ <;> simp [State.goto, State.setSlot, CallPc.slot]

/-- A call writes a field of the slot that it fills. -/
theorem Slots.fill {new : Slot ρ σ} {pc : CallPc ρ σ} (hs : Slots s) (hd : CallsDiffer s)
    (hi : (s.threads i).slot = some t.slot) (hw : Writing s t.slot t.call)
    (howner : new.owner = (s.slots t.slot).owner) (hstate : new.state = .writing)
    (hgeneration : new.generation = t.generation) (hslot : pc.slot = some t.slot)
    (hknows : ∀ s' : State ρ σ n, Writing s' t.slot t.call →
      (s'.slots t.slot).generation = t.generation → pc.Knows s') :
    Slots ((s.setSlot t.slot new).goto i pc) := by
  refine hs.write hd hi hw rfl rfl rfl rfl rfl rfl howner (.inl hstate) hslot
    (hknows _ ⟨?_, ?_, hw.untaken⟩ ?_)
  · simpa [State.goto, State.setSlot] using howner.trans hw.owner
  · simpa [State.goto, State.setSlot] using hstate
  · simpa [State.goto, State.setSlot] using hgeneration

/-- A call publishes its request. -/
theorem Slots.publish (hs : Slots s) (hd : CallsDiffer s)
    (hi : (s.threads i).slot = some t.slot) (hw : Writing s t.slot t.call)
    (hgeneration : (s.slots t.slot).generation = t.generation) :
    Slots ((s.setSlot t.slot { s.slots t.slot with state := .pending }).goto i (.wait t)) := by
  refine hs.write hd hi hw rfl rfl rfl rfl rfl rfl rfl (.inr rfl) rfl
    ⟨?_, ?_, ?_, ?_, fun _ => hw.untaken⟩
  · simpa [State.goto, State.setSlot] using hw.owner
  · simpa [State.goto, State.setSlot] using hgeneration
  · simp [State.goto, State.setSlot, SlotState.owned]
  · simp [State.goto, State.setSlot]

/-- A call looks at the state of its slot after its wait. -/
theorem Slots.look {s' : State ρ σ n} (hs : Slots s) (hpc : s.threads i = .loadState t)
    (hstep : s' = match (s.slots t.slot).state with
      | .decided => s.goto i (.readResponse t)
      | .pending => s.goto i (.cancelPending t)
      | .handling => s.goto i (.cancelHandling t)
      | .cancelled | .idle | .writing => s.finish i t none) : Slots s' := by
  have hw : Waiting s t := by
    have hknows := hs.calls i
    rwa [hpc] at hknows
  have howned := hw.owned
  have hslot : (s.threads i).slot = some t.slot := by rw [hpc]; rfl
  have hleaving : (s.threads i).leaving = none := by rw [hpc]; rfl
  cases hst : (s.slots t.slot).state with
  | decided =>
      rw [hst] at hstep
      subst hstep
      exact hs.stay rfl rfl rfl rfl rfl rfl hslot.symm hleaving.symm
        ⟨hw.owner, hw.generation, hst⟩
  | pending | handling =>
      rw [hst] at hstep
      subst hstep
      exact hs.stay rfl rfl rfl rfl rfl rfl hslot.symm hleaving.symm hw
  | writing => exact absurd hst hw.written
  | idle | cancelled =>
      rw [hst] at howned
      cases howned

/-- A decided call gives its slot back. -/
theorem Slots.free {response : σ} (hs : Slots s) (hd : CallsDiffer s)
    (hpc : s.threads i = .storeIdle t response) :
    Slots ((s.setSlot t.slot { s.slots t.slot with state := .idle }).finish i t
      (some response)) := by
  have hdec : Deciding s t := by
    have hknows := hs.calls i
    rw [hpc] at hknows
    exact hknows.1
  have hi : (s.threads i).slot = some t.slot := by rw [hpc]; rfl
  refine hs.move (Function.update_idem _ _ _) rfl rfl rfl rfl rfl
    (fun j hji hj => absurd (hs.exclusive hd hj hi) hji) ⟨?_, ?_, ?_⟩ trivial
    (fun l hl => Option.some.inj (hl.symm.trans hi)) (by rw [hpc]; nofun)
    (SlotOk.of_idle ?_)
  · intro c _ ho
    simp only [State.setSlot, Function.update_self] at ho ⊢
    exact ⟨ho, fun _ => ⟨rfl, trivial⟩⟩
  · simp [State.setSlot, SlotState.handled]
  · rw [hdec.state]
    nofun
  · simp [State.finish, State.setSlot]

/-- A call that has cancelled its request leaves. -/
theorem Slots.leave (hs : Slots s) (hpc : s.threads i = .addTimeout t) :
    Slots ({ s.count t.call .timeouts with timeouts := (s.timeouts + 1) % 2 ^ 64 }.finish i t
      none) := by
  have hok := hs.slots t.slot
  have hkeep : ∀ j, (s.threads j).slot = some t.slot → j ≠ i := by
    rintro j hj rfl
    rw [hpc] at hj
    cases hj
  refine hs.move rfl rfl rfl rfl rfl rfl (fun _ _ _ => ⟨rfl, rfl, rfl⟩)
    (SlotMove.of_same rfl rfl rfl fun _ => rfl) trivial (by rw [hpc]; nofun)
    (by rw [hpc]; rintro l c ⟨⟩; rfl) ⟨fun ho => ?_, fun hdec => ?_, fun hc => ?_⟩
  · simp only [State.finish, Function.update_self] at ho
    obtain ⟨j, hj⟩ := hok.owned ho
    refine ⟨j, ?_⟩
    simp only [State.finish]
    rw [Function.update_of_ne (hkeep j hj)]
    exact hj
  · simp only [State.finish, Function.update_self] at hdec ⊢
    exact hok.decided hdec
  · simp only [State.finish, Function.update_self] at hc ⊢
    obtain hu | ⟨j, c, hj, ho⟩ := hok.cancelled hc
    · exact .inl (by simp [State.count, hu])
    · by_cases hji : j = i
      · -- the call that leaves is the owner, and marks the slot
        subst hji
        rw [hpc] at hj
        cases hj
        exact .inl (by simp [State.count, ho])
      · refine .inr ⟨j, c, ?_, ho⟩
        rw [Function.update_of_ne hji]
        exact hj

end

theorem Slots.callStep [Inhabited σ] {s s' : State ρ σ n} {i : Fin n} (hs : Slots s)
    (hd : CallsDiffer s) (hready : s.ready = true) (hstep : callStep s i = some s') :
    Slots s' := by
  have hknows := hs.calls i
  unfold Intercept.callStep at hstep
  cases hpc : s.threads i with
  | idle =>
      rw [hpc] at hstep
      cases hstep
  | claim c request k =>
      rw [hpc] at hstep hknows
      cases hstep
      split
      case isTrue hidle => exact hs.claim hpc hidle
      case isFalse =>
        split
        · exact hs.stay rfl rfl rfl rfl rfl rfl (by rw [hpc]; rfl) (by rw [hpc]; rfl) hknows
        · exact hs.stay rfl rfl rfl rfl rfl rfl (by rw [hpc]; rfl) (by rw [hpc]; rfl) trivial
  | addBusy c =>
      rw [hpc] at hstep
      cases hstep
      exact hs.stay rfl rfl rfl rfl rfl rfl (by rw [hpc]; rfl) (by rw [hpc]; rfl) trivial
  | nextGeneration c request k =>
      rw [hpc] at hstep hknows
      cases hstep
      exact hs.stay rfl rfl rfl rfl rfl rfl (by rw [hpc]; rfl) (by rw [hpc]; rfl) hknows
  | storeGeneration t request =>
      rw [hpc] at hstep hknows
      have hw : Writing s t.slot t.call := hknows
      cases hstep
      exact hs.fill hd (by rw [hpc]; rfl) hw rfl hw.state rfl rfl fun _ => .intro
  | writeRequest t _ | clearResponse t | clearSemaphore t =>
      rw [hpc] at hstep hknows
      obtain ⟨hw, hgeneration⟩ := hknows
      cases hstep
      exact hs.fill hd (by rw [hpc]; rfl) hw rfl hw.state hgeneration rfl fun _ => .intro
  | loadSemaphore t =>
      rw [hpc] at hstep hknows
      cases hstep
      rw [if_pos hready]
      exact hs.stay rfl rfl rfl rfl rfl rfl (by rw [hpc]; rfl) (by rw [hpc]; rfl) hknows
  | abandon t =>
      rw [hpc] at hknows
      exact hknows.elim
  | storePending t =>
      rw [hpc] at hstep hknows
      obtain ⟨hw, hgeneration⟩ := hknows
      cases hstep
      exact hs.publish hd (by rw [hpc]; rfl) hw hgeneration
  | wait t =>
      rw [hpc] at hstep hknows
      cases hstep
      exact hs.stay rfl rfl rfl rfl rfl rfl (by rw [hpc]; rfl) (by rw [hpc]; rfl) hknows
  | loadState t =>
      rw [hpc] at hstep
      exact hs.look hpc (Option.some.inj hstep).symm
  | readResponse t =>
      rw [hpc] at hstep hknows
      have hdec : Deciding s t := hknows
      cases hstep
      refine hs.stay rfl rfl rfl rfl rfl rfl (by rw [hpc]; rfl) (by rw [hpc]; rfl) ⟨hdec, ?_⟩
      have hmem := (hs.slots t.slot).decided hdec.state
      rw [hdec.generation] at hmem
      exact hmem
  | addCompleted t response =>
      rw [hpc] at hstep hknows
      cases hstep
      exact hs.stay rfl rfl rfl rfl rfl rfl (by rw [hpc]; rfl) (by rw [hpc]; rfl) hknows
  | storeIdle t response =>
      rw [hpc] at hstep
      cases hstep
      exact hs.free hd hpc
  | cancelPending t =>
      rw [hpc] at hstep hknows
      cases hstep
      split
      case isTrue hst => exact hs.cancel hd (by rw [hpc]; rfl) hknows (.inl hst)
      case isFalse =>
        exact hs.stay rfl rfl rfl rfl rfl rfl (by rw [hpc]; rfl) (by rw [hpc]; rfl) hknows
  | cancelHandling t =>
      rw [hpc] at hstep hknows
      cases hstep
      split
      case isTrue hst => exact hs.cancel hd (by rw [hpc]; rfl) hknows (.inr hst)
      case isFalse =>
        exact hs.stay rfl rfl rfl rfl rfl rfl (by rw [hpc]; rfl) (by rw [hpc]; rfl) hknows
  | addTimeout t =>
      rw [hpc] at hstep
      cases hstep
      exact hs.leave hpc

/-! ## Steps of the scripting thread and the slots -/

/-- How the scripting thread may change a slot. -/
structure ScriptMove (old new : Slot ρ σ) : Prop where
  owner : new.owner = old.owner
  generation : new.generation = old.generation
  state : new.state = old.state ∨ old.state = .pending ∧ new.state = .handling ∨
    old.state = .handling ∧ new.state = .decided ∨ old.state = .cancelled ∧ new.state = .idle

theorem ScriptMove.refl (slot : Slot ρ σ) : ScriptMove slot slot := ⟨rfl, rfl, .inl rfl⟩

/-- A slot that stays in its state. -/
theorem ScriptMove.of_same {old new : Slot ρ σ} (howner : new.owner = old.owner)
    (hgen : new.generation = old.generation) (hstate : new.state = old.state) :
    ScriptMove old new :=
  ⟨howner, hgen, .inl hstate⟩

theorem ScriptMove.owned {old new : Slot ρ σ} (h : ScriptMove old new)
    (hnew : new.state.owned = true) : old.state.owned = true := by
  obtain hst | ⟨hst, -⟩ | ⟨hst, -⟩ | ⟨-, hst⟩ := h.state
  · rw [← hst]
    exact hnew
  · rw [hst]
    rfl
  · rw [hst]
    rfl
  · rw [hst] at hnew
    cases hnew

theorem ScriptMove.still_owned {old new : Slot ρ σ} (h : ScriptMove old new)
    (hold : old.state.owned = true) : new.state.owned = true := by
  obtain hst | ⟨-, hst⟩ | ⟨-, hst⟩ | ⟨hst, -⟩ := h.state
  · rw [hst]
    exact hold
  · rw [hst]
    rfl
  · rw [hst]
    rfl
  · rw [hst] at hold
    cases hold

theorem ScriptMove.settled {old new : Slot ρ σ} (h : ScriptMove old new)
    (hold : old.state.settled = true) : new.state.settled = true := by
  obtain hst | ⟨-, hst⟩ | ⟨-, hst⟩ | ⟨-, hst⟩ := h.state
  · rw [hst]
    exact hold
  all_goals
    rw [hst]
    rfl

/-- The scripting thread never starts the writing of a slot, and never ends it. -/
theorem ScriptMove.writing {old new : Slot ρ σ} (h : ScriptMove old new) :
    new.state = .writing ↔ old.state = .writing := by
  obtain hst | ⟨hst, hst'⟩ | ⟨hst, hst'⟩ | ⟨hst, hst'⟩ := h.state
  · rw [hst]
  all_goals
    rw [hst, hst']
    exact ⟨nofun, nofun⟩

theorem ScriptMove.pending {old new : Slot ρ σ} (h : ScriptMove old new)
    (hnew : new.state = .pending) : old.state = .pending := by
  obtain hst | ⟨-, hst⟩ | ⟨-, hst⟩ | ⟨-, hst⟩ := h.state
  · rw [← hst, hnew]
  all_goals
    rw [hst] at hnew
    cases hnew

theorem ScriptMove.decided {old new : Slot ρ σ} (h : ScriptMove old new)
    (hold : old.state = .decided) : new.state = .decided := by
  obtain hst | ⟨hst, -⟩ | ⟨hst, -⟩ | ⟨hst, -⟩ := h.state
  · rw [hst, hold]
  all_goals
    rw [hst] at hold
    cases hold

theorem ScriptMove.cancelled {old new : Slot ρ σ} (h : ScriptMove old new)
    (hnew : new.state = .cancelled) : old.state = .cancelled := by
  obtain hst | ⟨-, hst⟩ | ⟨-, hst⟩ | ⟨-, hst⟩ := h.state
  · rw [← hst, hnew]
  all_goals
    rw [hst] at hnew
    cases hnew

/-- What a call relies on survives the steps of the scripting thread.  A call is
recorded as taken only by the exchange that moves its slot to `HANDLING`. -/
theorem CallPc.Knows.script {s s' : State ρ σ n} {pc : CallPc ρ σ} (h : pc.Knows s)
    (hmove : ∀ k, ScriptMove (s.slots k) (s'.slots k))
    (huntaken : ∀ c, pc.call = some c → c ∈ s'.log.taken →
      c ∈ s.log.taken ∨ ∃ k, pc.slot = some k ∧ (s'.slots k).state = .handling)
    (hcompletions : ∀ e ∈ s.log.completions, e ∈ s'.log.completions) : pc.Knows s' := by
  have hwriting : ∀ {k c}, pc.slot = some k → pc.call = some c → Writing s k c →
      Writing s' k c := by
    intro k c hk hc hw
    have hst := (hmove k).writing.mpr hw.state
    refine ⟨(hmove k).owner.trans hw.owner, hst, fun hmem => ?_⟩
    obtain hmem | ⟨l, hl, hhandling⟩ := huntaken c hc hmem
    · exact hw.untaken hmem
    · rw [hk] at hl
      cases hl
      rw [hst] at hhandling
      cases hhandling
  have hwaiting : ∀ {t : Ticket}, pc.slot = some t.slot → pc.call = some t.call → Waiting s t →
      Waiting s' t := by
    intro t hk hc hw
    have hm := hmove t.slot
    refine ⟨hm.owner.trans hw.owner, hm.generation.trans hw.generation,
      hm.still_owned hw.owned, fun hst => hw.written (hm.writing.mp hst), fun hst hmem => ?_⟩
    obtain hmem | ⟨l, hl, hhandling⟩ := huntaken t.call hc hmem
    · exact hw.untaken (hm.pending hst) hmem
    · rw [hk] at hl
      cases hl
      rw [hst] at hhandling
      cases hhandling
  have hdeciding : ∀ {t : Ticket}, Deciding s t → Deciding s' t := fun {t} hd =>
    ⟨(hmove t.slot).owner.trans hd.owner, (hmove t.slot).generation.trans hd.generation,
      (hmove t.slot).decided hd.state⟩
  cases pc with
  | idle | addBusy | addTimeout => trivial
  | claim c request k =>
      intro hmem
      obtain hmem | ⟨l, hl, -⟩ := huntaken c rfl hmem
      · exact h hmem
      · cases hl
  | nextGeneration | storeGeneration => exact hwriting rfl rfl h
  | writeRequest t | clearResponse t | loadSemaphore t | clearSemaphore t | storePending t =>
      exact ⟨hwriting rfl rfl h.1, (hmove t.slot).generation.trans h.2⟩
  | abandon => exact h
  | wait | loadState | cancelPending | cancelHandling => exact hwaiting rfl rfl h
  | readResponse => exact hdeciding h
  | addCompleted | storeIdle => exact ⟨hdeciding h.1, hcompletions _ h.2⟩

theorem Taken.script {s s' : State ρ σ n} {k : SlotIndex} {c : Nat} (h : Taken s k c)
    (hmove : ScriptMove (s.slots k) (s'.slots k))
    (htaken : ∀ c ∈ s.log.taken, c ∈ s'.log.taken) : Taken s' k c :=
  ⟨htaken c h.taken, fun ho => hmove.settled (h.settled (hmove.owner ▸ ho))⟩

theorem HandleOk.script {s s' : State ρ σ n} {h : Handle ρ} (hh : HandleOk s h)
    (hmove : ScriptMove (s.slots h.slot) (s'.slots h.slot))
    (htaken : ∀ c ∈ s.log.taken, c ∈ s'.log.taken) : HandleOk s' h :=
  ⟨hh.taken.script hmove htaken, fun ho =>
    hmove.generation.trans (hh.generation (hmove.owner ▸ ho))⟩

/-- A step of the scripting thread that changes slot `k`. -/
theorem Slots.script_move {s s' : State ρ σ n} {k : SlotIndex} {new : Slot ρ σ} (hs : Slots s)
    (hslots : s'.slots = Function.update s.slots k new) (hthreads : s'.threads = s.threads)
    (hmove : ScriptMove (s.slots k) new) (htaken : ∀ c ∈ s.log.taken, c ∈ s'.log.taken)
    (huntaken : ∀ i c, (s.threads i).call = some c → c ∈ s'.log.taken →
      c ∈ s.log.taken ∨ ∃ l, (s.threads i).slot = some l ∧ (s'.slots l).state = .handling)
    (hnodup : s'.log.taken.Nodup)
    (hcompletions : ∀ e ∈ s.log.completions, e ∈ s'.log.completions)
    (hhandles : ∀ h ∈ s'.handles, h ∈ s.handles ∨ HandleOk s' h) (hscript : s'.script.Knows s')
    (hdecided : new.state = .decided → (k, new.generation, new.response) ∈ s'.log.completions)
    (hcancelled : new.state = .cancelled → new.unvisited = (s.slots k).unvisited) :
    Slots s' := by
  have hmoves : ∀ l, ScriptMove (s.slots l) (s'.slots l) := by
    intro l
    rw [hslots]
    by_cases hl : l = k
    · subst hl
      rw [Function.update_self]
      exact hmove
    · rw [Function.update_of_ne hl]
      exact ScriptMove.refl _
  refine ⟨fun i => ?_, fun l => ⟨fun ho => ?_, ?_, fun hc => ?_⟩, fun h hh => ?_, hscript, hnodup⟩
  · rw [hthreads]
    exact (hs.calls i).script hmoves (huntaken i) hcompletions
  · rw [hthreads]
    exact (hs.slots l).owned ((hmoves l).owned ho)
  · rw [hslots]
    by_cases hl : l = k
    · subst hl
      rw [Function.update_self]
      exact hdecided
    · rw [Function.update_of_ne hl]
      exact fun hd => hcompletions _ ((hs.slots l).decided hd)
  · rw [hthreads, (hmoves l).owner]
    refine ((hs.slots l).cancelled ((hmoves l).cancelled hc)).imp_left fun hu => ?_
    rw [hslots] at hc ⊢
    by_cases hl : l = k
    · subst hl
      rw [Function.update_self] at hc ⊢
      rw [hcancelled hc, hu]
    · rw [Function.update_of_ne hl, hu]
  · obtain hh | hh := hhandles h hh
    · exact (hs.handles h hh).script (hmoves h.slot) htaken
    · exact hh

/-- A step of the scripting thread that changes slot `k` and its own place only. -/
theorem Slots.script_touch {s : State ρ σ n} {k : SlotIndex} {new : Slot ρ σ}
    {pc : ScriptPc ρ σ} (hs : Slots s) (hmove : ScriptMove (s.slots k) new)
    (hscript : pc.Knows ((s.setSlot k new).scriptGoto pc))
    (hdecided : new.state = .decided → (k, new.generation, new.response) ∈ s.log.completions)
    (hcancelled : new.state = .cancelled → new.unvisited = (s.slots k).unvisited) :
    Slots ((s.setSlot k new).scriptGoto pc) :=
  hs.script_move rfl rfl hmove (fun _ => id) (fun _ _ _ => .inl) hs.taken (fun _ => id)
    (fun _ => .inl) hscript hdecided hcancelled

/-- A step of the scripting thread that changes its own place only. -/
theorem Slots.script_stay {s : State ρ σ n} {pc : ScriptPc ρ σ} (hs : Slots s)
    (hscript : pc.Knows (s.scriptGoto pc)) : Slots (s.scriptGoto pc) :=
  hs.script_move (k := 0) (Function.update_eq_self 0 s.slots).symm rfl (ScriptMove.refl _)
    (fun _ => id) (fun _ _ _ => .inl) hs.taken (fun _ => id) (fun _ => .inl) hscript
    (hs.slots 0).decided fun _ => rfl

/-- `complete` may return without an exchange when its call no longer owns the slot. -/
theorem Slots.endComplete {s : State ρ σ n} {h : Handle ρ} (hs : Slots s)
    (hh : (s.slots h.slot).state = .cancelled → (s.slots h.slot).owner ≠ some h.call) :
    Slots (s.endComplete h) := by
  refine hs.script_touch (ScriptMove.of_same rfl rfl rfl) trivial (hs.slots h.slot).decided
    fun hc => ?_
  simp [Slot.visitCall, hh hc]

/-- The exchange `PENDING → HANDLING` takes a call that was not taken before. -/
theorem Slots.take {s : State ρ σ n} {k : SlotIndex} (hs : Slots s) (hd : CallsDiffer s)
    (hst : (s.slots k).state = .pending) :
    Slots { s.setSlot k { s.slots k with state := .handling } with
      script := .readRequest k ((s.slots k).owner.getD 0)
      log := { s.log with taken := s.log.taken ++ [(s.slots k).owner.getD 0] } } := by
  obtain ⟨i, hi⟩ := (hs.slots k).owned (by rw [hst]; rfl)
  obtain ⟨c, hc⟩ := CallPc.call_of_slot hi
  have hown := ((hs.calls i).owner hi).1.trans hc
  have huntaken : c ∉ s.log.taken := by
    have hknows := hs.calls i
    cases hpc : s.threads i <;> rw [hpc] at hi hc hknows <;> cases hi <;> cases hc
    case wait | loadState | cancelPending | cancelHandling => exact hknows.untaken hst
    case nextGeneration | storeGeneration => exact hknows.untaken
    case readResponse => exact absurd (hst.symm.trans hknows.state) nofun
    case addCompleted | storeIdle => exact absurd (hst.symm.trans hknows.1.state) nofun
    case abandon => exact hknows.elim
    all_goals exact hknows.1.untaken
  rw [hown]
  refine hs.script_move rfl rfl ⟨rfl, rfl, .inr (.inl ⟨hst, rfl⟩)⟩
    (fun _ => List.mem_append_left _) (fun j c' hc' hmem => ?_)
    (List.nodup_append.mpr ⟨hs.taken, List.nodup_singleton _, ?_⟩) (fun _ => id) (fun _ => .inl)
    ⟨List.mem_append_right _ (List.mem_singleton_self _), fun _ => ?_⟩ nofun nofun
  · obtain hmem | hmem := List.mem_append.mp hmem
    · exact .inl hmem
    · cases List.mem_singleton.mp hmem
      obtain rfl := hd i j c hc hc'
      refine .inr ⟨k, hi, ?_⟩
      simp [State.setSlot]
  · rintro a ha b hb rfl
    cases List.mem_singleton.mp hb
    exact huntaken ha
  · simp [State.setSlot, SlotState.settled]

theorem Slots.scriptStep {s s' : State ρ σ n} (hs : Slots s) (hd : CallsDiffer s)
    (hstep : scriptStep s = some s') : Slots s' := by
  have hknows := hs.script
  unfold Intercept.scriptStep at hstep
  cases hpc : s.script with
  | idle =>
      rw [hpc] at hstep
      cases hstep
  | take k =>
      rw [hpc] at hstep
      cases hstep
      split
      case isTrue hst => exact hs.take hd hst
      case isFalse => exact hs.script_stay trivial
  | reap k =>
      rw [hpc] at hstep
      cases hstep
      refine hs.script_touch ?_ (by cases nextSlot k <;> trivial) ?_ ?_
      · by_cases hst : (s.slots k).state = .cancelled
        · exact ⟨rfl, rfl, .inr (.inr (.inr ⟨hst, if_pos hst⟩))⟩
        · exact ScriptMove.of_same rfl rfl (if_neg hst)
      · intro hdec
        dsimp only at hdec ⊢
        split at hdec
        · cases hdec
        · exact (hs.slots k).decided hdec
      · intro hc
        dsimp only at hc
        split at hc
        · cases hc
        · contradiction
  | readRequest k c =>
      rw [hpc] at hstep hknows
      have ht : Taken s k c := hknows
      cases hstep
      exact hs.script_stay ⟨ht.taken, ht.settled⟩
  | readGeneration k c request =>
      rw [hpc] at hstep hknows
      have ht : Taken s k c := hknows
      cases hstep
      refine hs.script_move (k := 0) (Function.update_eq_self 0 s.slots).symm rfl
        (ScriptMove.refl _) (fun _ => id) (fun _ _ _ => .inl) hs.taken (fun _ => id)
        (fun h hh => ?_) trivial (hs.slots 0).decided fun _ => rfl
      refine (List.mem_append.mp hh).imp_right fun hmem => ?_
      cases List.mem_singleton.mp hmem
      exact ⟨⟨ht.taken, ht.settled⟩, fun _ => rfl⟩
  | checkGeneration h r =>
      rw [hpc] at hstep hknows
      obtain ⟨hh, hmem⟩ := hknows
      cases hstep
      split
      case isTrue hgen => exact hs.script_stay ⟨hmem, fun _ => hgen⟩
      case isFalse hgen => exact hs.endComplete fun _ ho => hgen (hh.generation ho)
  | writeResponse h r =>
      rw [hpc] at hstep hknows
      obtain ⟨hmem, hgen⟩ := hknows
      cases hstep
      refine hs.script_touch (ScriptMove.of_same rfl rfl rfl) ⟨hmem, ?_, ?_⟩ (fun hdec => ?_)
        fun _ => rfl
      · simpa [State.scriptGoto, State.setSlot] using hgen
      · simp [State.scriptGoto, State.setSlot]
      · dsimp only at hdec ⊢
        rw [hgen (by rw [hdec]; rfl)]
        exact hmem
  | decide h r =>
      rw [hpc] at hstep hknows
      obtain ⟨hmem, hgen, hresp⟩ := hknows
      cases hstep
      split
      case isTrue hst =>
        refine hs.script_touch ⟨rfl, rfl, .inr (.inr (.inl ⟨hst, rfl⟩))⟩ trivial (fun _ => ?_) nofun
        change (h.slot, (s.slots h.slot).generation, (s.slots h.slot).response) ∈ _
        rw [hgen (by rw [hst]; rfl), hresp hst]
        exact hmem
      case isFalse => exact hs.script_stay trivial
  | signal h =>
      rw [hpc] at hstep
      cases hstep
      exact hs.script_touch (ScriptMove.of_same rfl rfl rfl) trivial (hs.slots h.slot).decided
        fun _ => rfl
  | checkCancelled h =>
      rw [hpc] at hstep
      cases hstep
      split
      case isTrue hst => exact hs.script_stay hst
      case isFalse hst => exact hs.endComplete fun hc => absurd hc hst
  | storeIdle h =>
      rw [hpc] at hstep hknows
      cases hstep
      exact hs.script_touch ⟨rfl, rfl, .inr (.inr (.inr ⟨hknows, rfl⟩))⟩ trivial nofun nofun

end PinBridge.Intercept
