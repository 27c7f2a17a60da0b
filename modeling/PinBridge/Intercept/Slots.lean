import PinBridge.Intercept.Step

/-!
# Who owns a slot

A slot is claimed by the exchange `IDLE → WRITING` and given up by the store of `IDLE`
or by the exchange to `CANCELLED`.  In between exactly one call owns it.  Only the
scripting thread moves a slot to `HANDLING` and `DECIDED`, and only it moves a slot out
of `CANCELLED`.  A late `complete` can therefore pass the generation check of a slot
that is being reused, but its exchange finds no `HANDLING` slot then.

`Slots` is the invariant: what each call, each slot and the scripting thread can rely
on.  `Slots.move` and `Slots.script_move` carry it over the steps of a call and of the
scripting thread, given how the one slot that is touched changes.
-/

namespace PinBridge.Intercept

variable {ρ σ : Type*} {n : Nat}

/-! ## Projections -/

namespace CallPc

/-- The number of the call. -/
def call : CallPc ρ σ → Option Nat
  | idle => none
  | claim c _ _ | addBusy c | nextGeneration c _ _ => some c
  | storeGeneration t _ | writeRequest t _ | clearResponse t | loadSemaphore t | abandon t
  | clearSemaphore t | storePending t | wait t | loadState t | readResponse t
  | addCompleted t _ | storeIdle t _ | cancelPending t | cancelHandling t | addTimeout t =>
      some t.call

/-- The slot the call owns. -/
def slot : CallPc ρ σ → Option SlotIndex
  | idle | claim _ _ _ | addBusy _ | addTimeout _ => none
  | nextGeneration _ _ k => some k
  | storeGeneration t _ | writeRequest t _ | clearResponse t | loadSemaphore t | abandon t
  | clearSemaphore t | storePending t | wait t | loadState t | readResponse t
  | addCompleted t _ | storeIdle t _ | cancelPending t | cancelHandling t => some t.slot

/-- The slot the call has cancelled and not yet left. -/
def leaving : CallPc ρ σ → Option (SlotIndex × Nat)
  | addTimeout t => some (t.slot, t.call)
  | _ => none

end CallPc

/-- Owned by a call. -/
def SlotState.owned : SlotState → Bool
  | writing | pending | handling | decided => true
  | idle | cancelled => false

/-- Neither `WRITING` nor `PENDING`. -/
def SlotState.settled : SlotState → Bool
  | writing | pending => false
  | idle | handling | decided | cancelled => true

/-- `HANDLING` or `DECIDED`. -/
def SlotState.handled : SlotState → Bool
  | handling | decided => true
  | idle | writing | pending | cancelled => false

/-! ## The invariant -/

/-- The slot of a call that is still being written. -/
structure Writing (s : State ρ σ n) (k : SlotIndex) (call : Nat) : Prop where
  owner : (s.slots k).owner = some call
  state : (s.slots k).state = .writing
  untaken : call ∉ s.log.taken

/-- The slot of a call that waits. -/
structure Waiting (s : State ρ σ n) (t : Ticket) : Prop where
  owner : (s.slots t.slot).owner = some t.call
  generation : (s.slots t.slot).generation = t.generation
  owned : (s.slots t.slot).state.owned = true
  written : (s.slots t.slot).state ≠ .writing
  untaken : (s.slots t.slot).state = .pending → t.call ∉ s.log.taken

/-- The slot of a call that has seen the decision. -/
structure Deciding (s : State ρ σ n) (t : Ticket) : Prop where
  owner : (s.slots t.slot).owner = some t.call
  generation : (s.slots t.slot).generation = t.generation
  state : (s.slots t.slot).state = .decided

/-- What a call relies on at each access. -/
def CallPc.Knows (s : State ρ σ n) : CallPc ρ σ → Prop
  | idle | addBusy _ | addTimeout _ => True
  | claim c _ _ => c ∉ s.log.taken
  | nextGeneration c _ k => Writing s k c
  | storeGeneration t _ => Writing s t.slot t.call
  | writeRequest t _ | clearResponse t | loadSemaphore t | clearSemaphore t | storePending t =>
      Writing s t.slot t.call ∧ (s.slots t.slot).generation = t.generation
  | abandon _ => False
  | wait t | loadState t | cancelPending t | cancelHandling t => Waiting s t
  | readResponse t => Deciding s t
  | addCompleted t r | storeIdle t r =>
      Deciding s t ∧ (t.slot, t.generation, r) ∈ s.log.completions

/-- What holds of a slot. -/
structure SlotOk (s : State ρ σ n) (k : SlotIndex) : Prop where
  owned : (s.slots k).state.owned = true → ∃ i, (s.threads i).slot = some k
  decided : (s.slots k).state = .decided →
    (k, (s.slots k).generation, (s.slots k).response) ∈ s.log.completions
  cancelled : (s.slots k).state = .cancelled → (s.slots k).unvisited = true ∨
    ∃ i c, (s.threads i).leaving = some (k, c) ∧ (s.slots k).owner = some c

/-- A taken request: as long as its call owns the slot, the slot is settled. -/
structure Taken (s : State ρ σ n) (k : SlotIndex) (call : Nat) : Prop where
  taken : call ∈ s.log.taken
  settled : (s.slots k).owner = some call → (s.slots k).state.settled = true

/-- A handle of the scripting thread. -/
structure HandleOk (s : State ρ σ n) (h : Handle ρ) : Prop where
  taken : Taken s h.slot h.call
  generation : (s.slots h.slot).owner = some h.call →
    (s.slots h.slot).generation = h.generation

/-- What the scripting thread relies on at each access. -/
def ScriptPc.Knows (s : State ρ σ n) : ScriptPc ρ σ → Prop
  | idle | take _ | reap _ => True
  | readRequest k c | readGeneration k c _ => Taken s k c
  | checkGeneration h r => HandleOk s h ∧ (h.slot, h.generation, r) ∈ s.log.completions
  | writeResponse h r => (h.slot, h.generation, r) ∈ s.log.completions ∧
      ((s.slots h.slot).state.handled = true → (s.slots h.slot).generation = h.generation)
  | decide h r => (h.slot, h.generation, r) ∈ s.log.completions ∧
      ((s.slots h.slot).state.handled = true → (s.slots h.slot).generation = h.generation) ∧
      ((s.slots h.slot).state = .handling → (s.slots h.slot).response = r)
  | signal _ | checkCancelled _ => True
  | storeIdle h => (s.slots h.slot).state = .cancelled

/-- The invariant of the slots. -/
structure Slots (s : State ρ σ n) : Prop where
  calls : ∀ i, (s.threads i).Knows s
  slots : ∀ k, SlotOk s k
  handles : ∀ h ∈ s.handles, HandleOk s h
  script : s.script.Knows s
  taken : s.log.taken.Nodup

/-- A call that owns a slot is its owner. -/
theorem CallPc.Knows.owner {s : State ρ σ n} {pc : CallPc ρ σ} {k : SlotIndex} (h : pc.Knows s)
    (hk : pc.slot = some k) :
    (s.slots k).owner = pc.call ∧ (s.slots k).state.owned = true := by
  have hwriting : ∀ {c}, Writing s k c →
      (s.slots k).owner = some c ∧ (s.slots k).state.owned = true := fun hw =>
    ⟨hw.owner, by rw [hw.state]; rfl⟩
  have hdeciding : ∀ {t}, Deciding s t →
      (s.slots t.slot).owner = some t.call ∧ (s.slots t.slot).state.owned = true := fun hd =>
    ⟨hd.owner, by rw [hd.state]; rfl⟩
  cases pc with
  | idle | claim | addBusy | addTimeout => cases hk
  | abandon => exact h.elim
  | nextGeneration | storeGeneration =>
      cases hk
      exact hwriting h
  | writeRequest | clearResponse | loadSemaphore | clearSemaphore | storePending =>
      cases hk
      exact hwriting h.1
  | wait | loadState | cancelPending | cancelHandling =>
      cases hk
      exact ⟨Waiting.owner h, Waiting.owned h⟩
  | readResponse =>
      cases hk
      exact hdeciding h
  | addCompleted | storeIdle =>
      cases hk
      exact hdeciding h.1

/-- The calls in progress have different numbers. -/
def CallsDiffer (s : State ρ σ n) : Prop :=
  ∀ i j c, (s.threads i).call = some c → (s.threads j).call = some c → i = j

theorem CallPc.call_of_slot {pc : CallPc ρ σ} {k : SlotIndex} (h : pc.slot = some k) :
    ∃ c, pc.call = some c := by
  cases pc <;> first | exact ⟨_, rfl⟩ | cases h

/-- A slot has one owner. -/
theorem Slots.exclusive {s : State ρ σ n} (hs : Slots s) (hd : CallsDiffer s) {i j : Fin n}
    {k : SlotIndex} (hi : (s.threads i).slot = some k) (hj : (s.threads j).slot = some k) :
    i = j := by
  obtain ⟨c, hc⟩ := CallPc.call_of_slot hi
  have hown := ((hs.calls i).owner hi).1
  have hown' := ((hs.calls j).owner hj).1
  exact hd i j c hc (by rw [← hown', hown, hc])

/-! ## Steps of a call -/

/-- How a step of a call may change a slot. -/
structure SlotMove (taken : List Nat) (old new : Slot ρ σ) : Prop where
  settled : ∀ c ∈ taken, new.owner = some c → old.owner = some c ∧
    (old.state.settled = true → new.state.settled = true ∧ new.generation = old.generation)
  handled : new.state.handled = true → new.state = old.state ∧
    new.generation = old.generation ∧ new.response = old.response
  cancelled : old.state = .cancelled → new.state = .cancelled

/-- What a call relies on depends on its own slot and on the log. -/
theorem CallPc.Knows.congr {s s' : State ρ σ n} {pc : CallPc ρ σ} (h : pc.Knows s)
    (hslot : ∀ k, pc.slot = some k → (s'.slots k).owner = (s.slots k).owner ∧
      (s'.slots k).state = (s.slots k).state ∧
      (s'.slots k).generation = (s.slots k).generation)
    (htaken : s'.log.taken = s.log.taken)
    (hcompletions : ∀ e ∈ s.log.completions, e ∈ s'.log.completions) : pc.Knows s' := by
  have hwriting : ∀ {k c}, pc.slot = some k → Writing s k c → Writing s' k c := by
    intro k c hk hw
    obtain ⟨ho, hst, -⟩ := hslot k hk
    exact ⟨ho.trans hw.owner, hst.trans hw.state, by rw [htaken]; exact hw.untaken⟩
  have hwaiting : ∀ {t : Ticket}, pc.slot = some t.slot → Waiting s t → Waiting s' t := by
    intro t hk hw
    obtain ⟨ho, hst, hg⟩ := hslot t.slot hk
    refine ⟨ho.trans hw.owner, hg.trans hw.generation, ?_, ?_, ?_⟩
    · rw [hst]
      exact hw.owned
    · rw [hst]
      exact hw.written
    · rw [hst, htaken]
      exact hw.untaken
  have hdeciding : ∀ {t : Ticket}, pc.slot = some t.slot → Deciding s t → Deciding s' t := by
    intro t hk hd
    obtain ⟨ho, hst, hg⟩ := hslot t.slot hk
    exact ⟨ho.trans hd.owner, hg.trans hd.generation, hst.trans hd.state⟩
  cases pc with
  | idle | addBusy | addTimeout => trivial
  | claim c request k =>
      change c ∉ s'.log.taken
      rw [htaken]
      exact h
  | nextGeneration | storeGeneration => exact hwriting rfl h
  | writeRequest | clearResponse | loadSemaphore | clearSemaphore | storePending =>
      exact ⟨hwriting rfl h.1, (hslot _ rfl).2.2.trans h.2⟩
  | abandon => exact h
  | wait | loadState | cancelPending | cancelHandling => exact hwaiting rfl h
  | readResponse => exact hdeciding rfl h
  | addCompleted | storeIdle => exact ⟨hdeciding rfl h.1, hcompletions _ h.2⟩

theorem Taken.move {s s' : State ρ σ n} {k l : SlotIndex} {new : Slot ρ σ} {c : Nat}
    (h : Taken s l c) (hslots : s'.slots = Function.update s.slots k new)
    (htaken : s'.log.taken = s.log.taken) (hmove : SlotMove s.log.taken (s.slots k) new) :
    Taken s' l c := by
  refine ⟨by rw [htaken]; exact h.taken, fun ho => ?_⟩
  rw [hslots] at ho ⊢
  by_cases hl : l = k
  · subst hl
    rw [Function.update_self] at ho ⊢
    obtain ⟨hold, hkeep⟩ := hmove.settled c h.taken ho
    exact (hkeep (h.settled hold)).1
  · rw [Function.update_of_ne hl] at ho ⊢
    exact h.settled ho

theorem HandleOk.move {s s' : State ρ σ n} {k : SlotIndex} {new : Slot ρ σ} {h : Handle ρ}
    (hh : HandleOk s h) (hslots : s'.slots = Function.update s.slots k new)
    (htaken : s'.log.taken = s.log.taken) (hmove : SlotMove s.log.taken (s.slots k) new) :
    HandleOk s' h := by
  refine ⟨hh.taken.move hslots htaken hmove, fun ho => ?_⟩
  rw [hslots] at ho ⊢
  by_cases hl : h.slot = k
  · rw [hl, Function.update_self] at ho ⊢
    obtain ⟨hold, hkeep⟩ := hmove.settled h.call hh.taken.taken ho
    rw [← hl] at hold hkeep
    rw [(hkeep (hh.taken.settled hold)).2]
    exact hh.generation hold
  · rw [Function.update_of_ne hl] at ho ⊢
    exact hh.generation ho

theorem ScriptPc.Knows.move {s s' : State ρ σ n} {k : SlotIndex} {new : Slot ρ σ}
    {pc : ScriptPc ρ σ} (h : pc.Knows s) (hslots : s'.slots = Function.update s.slots k new)
    (htaken : s'.log.taken = s.log.taken) (hcompletions : s'.log.completions = s.log.completions)
    (hmove : SlotMove s.log.taken (s.slots k) new) : pc.Knows s' := by
  have hkeep : ∀ l, (s'.slots l).state.handled = true → (s'.slots l).state = (s.slots l).state ∧
      (s'.slots l).generation = (s.slots l).generation ∧
      (s'.slots l).response = (s.slots l).response := by
    intro l hl
    rw [hslots] at hl ⊢
    by_cases hlk : l = k
    · subst hlk
      rw [Function.update_self] at hl ⊢
      exact hmove.handled hl
    · rw [Function.update_of_ne hlk]
      exact ⟨rfl, rfl, rfl⟩
  have hhandled : ∀ {h : Handle ρ},
      ((s.slots h.slot).state.handled = true → (s.slots h.slot).generation = h.generation) →
      (s'.slots h.slot).state.handled = true → (s'.slots h.slot).generation = h.generation := by
    intro h hold hnew
    obtain ⟨hst, hg, -⟩ := hkeep h.slot hnew
    rw [hst] at hnew
    exact hg.trans (hold hnew)
  cases pc with
  | idle | take | reap | signal | checkCancelled => trivial
  | readRequest k c => exact Taken.move h hslots htaken hmove
  | readGeneration k c request => exact Taken.move h hslots htaken hmove
  | checkGeneration d r =>
      exact ⟨HandleOk.move h.1 hslots htaken hmove, by rw [hcompletions]; exact h.2⟩
  | writeResponse d r => exact ⟨by rw [hcompletions]; exact h.1, hhandled h.2⟩
  | decide d r =>
      refine ⟨by rw [hcompletions]; exact h.1, hhandled h.2.1, fun hst => ?_⟩
      obtain ⟨hold, -, hr⟩ := hkeep d.slot (by rw [hst]; rfl)
      rw [hr]
      exact h.2.2 (hold.symm.trans hst)
  | storeIdle d =>
      change (s'.slots d.slot).state = .cancelled
      rw [hslots]
      by_cases hl : d.slot = k
      · rw [hl, Function.update_self]
        exact hmove.cancelled (by rw [← hl]; exact h)
      · rw [Function.update_of_ne hl]
        exact h

/-- A step of thread `i` to `pc` that changes slot `k` and nothing else of what the
invariant speaks of. -/
theorem Slots.move {s s' : State ρ σ n} {i : Fin n} {k : SlotIndex} {pc : CallPc ρ σ}
    {new : Slot ρ σ} (hs : Slots s) (hslots : s'.slots = Function.update s.slots k new)
    (hthreads : s'.threads = Function.update s.threads i pc) (hscript : s'.script = s.script)
    (hhandles : s'.handles = s.handles) (htaken : s'.log.taken = s.log.taken)
    (hcompletions : s'.log.completions = s.log.completions)
    (hmine : ∀ j, j ≠ i → (s.threads j).slot = some k → new.owner = (s.slots k).owner ∧
      new.state = (s.slots k).state ∧ new.generation = (s.slots k).generation)
    (hmove : SlotMove s.log.taken (s.slots k) new) (hknows : pc.Knows s')
    (hold : ∀ l, (s.threads i).slot = some l → l = k)
    (hleft : ∀ l c, (s.threads i).leaving = some (l, c) → l = k) (hok : SlotOk s' k) :
    Slots s' := by
  have hothers : ∀ l, l ≠ k → s'.slots l = s.slots l := by
    intro l hl
    rw [hslots, Function.update_of_ne hl]
  refine ⟨fun j => ?_, fun l => ?_, fun h hh => ?_, ?_, by rw [htaken]; exact hs.taken⟩
  · rw [hthreads]
    by_cases hji : j = i
    · subst hji
      rw [Function.update_self]
      exact hknows
    · rw [Function.update_of_ne hji]
      refine (hs.calls j).congr (fun l hl => ?_) htaken (by rw [hcompletions]; exact fun _ => id)
      by_cases hlk : l = k
      · subst hlk
        rw [hslots, Function.update_self]
        exact hmine j hji hl
      · rw [hothers l hlk]
        exact ⟨rfl, rfl, rfl⟩
  · by_cases hlk : l = k
    · subst hlk
      exact hok
    · have hl := hs.slots l
      have hne : ∀ j, (s.threads j).slot = some l ∨ (∃ c, (s.threads j).leaving = some (l, c)) →
          s'.threads j = s.threads j := by
        intro j hj
        rw [hthreads, Function.update_of_ne]
        rintro rfl
        obtain hj | ⟨c, hj⟩ := hj
        · exact hlk (hold l hj)
        · exact hlk (hleft l c hj)
      constructor
      · rw [hothers l hlk]
        intro ho
        obtain ⟨j, hj⟩ := hl.owned ho
        exact ⟨j, by rw [hne j (.inl hj)]; exact hj⟩
      · rw [hothers l hlk, hcompletions]
        exact hl.decided
      · rw [hothers l hlk]
        intro hc
        obtain hu | ⟨j, c, hj, ho⟩ := hl.cancelled hc
        · exact .inl hu
        · exact .inr ⟨j, c, by rw [hne j (.inr ⟨c, hj⟩)]; exact hj, ho⟩
  · rw [hhandles] at hh
    exact (hs.handles h hh).move hslots htaken hmove
  · rw [hscript]
    exact hs.script.move hslots htaken hcompletions hmove

end PinBridge.Intercept
