import PinBridge.Children.Step
import PinBridge.Lib.Sizes

/-!
# Decisions belong to their request

`DecisionsMatch` says what the rendezvous owes a request.  `1` is returned only for a child
that the scripts decided to follow, with the command line prepared for that
decision.  A request is cancelled after its own wait only, it is counted once, and
its slot comes back.

One thing can go wrong.  `complete` sets the semaphore after it has published the
decision.  When the application thread has timed out meanwhile, it takes the
decision and returns.  A new call then clears the semaphore, and the late set wakes
its wait (`woken_by_earlier`).  `follow_exact` says that everything else holds, and
that nothing fails when no call clears the semaphore between the decision and the
set (`State.Quiet`).
-/

namespace PinBridge.Children

open Transition (run Always Guarded)
open scoped Sizes

variable {τ : Type*}

/-! ## What holds -/

/-- The call a thread is in. -/
def CallPc.call : CallPc → Option Nat
  | .idle => none
  | .claim c _ | .writing c _ | .wait c | .loadState c _ | .loadResult c | .apply c
  | .addDecision c _ _ | .storeIdle c _ _ | .cancelPending c _ | .cancelHandling c _
  | .addTimeout c _ => some c

/-- The scripts decided to follow the child of the call, and this command line was
prepared for the decision. -/
def State.Decided (s : State τ) (call : Nat) (command : List Bytes) : Prop :=
  ∃ h d old, (h, d) ∈ s.completions ∧ h.call = call ∧ s.called[call]? = some h.request ∧
    d.follow = true ∧
    prepareChildPinCommand s.base old d.controlPort d.parentPort = (command, true)

/-- No thread is in the call any more. -/
def State.Over (s : State τ) (call : Nat) : Prop := ∀ t, (s.threads t).call ≠ some call

/-- Decisions belong to their request. -/
structure State.DecisionsMatch (s : State τ) : Prop where
  /-- A child is followed with the command line of its own decision. -/
  followed : ∀ r ∈ s.returned, r.follow = true →
    ∃ command, r.applied = some command ∧ s.Decided r.call command
  /-- A request is cancelled after its own wait has timed out. -/
  timely : ∀ t call timedOut, s.threads t = .addTimeout call timedOut → timedOut = true
  /-- No request is counted twice. -/
  counted : (s.decisions ++ s.timeouts).Nodup
  /-- Every request that is over is counted. -/
  paid : ∀ call, call ∈ s.requested → s.Over call → call ∈ s.decisions ++ s.timeouts
  /-- Nothing else is counted. -/
  owed : ∀ call, call ∈ s.decisions ++ s.timeouts → call ∈ s.requested
  /-- The slot comes back when the scripting thread has visited it. -/
  idle : ∀ call, s.owner = some call → s.Over call → s.unvisited = false → s.slot = .idle

/-- The call is going to clear the semaphore. -/
def CallPc.clears : CallPc → Bool
  | .writing _ .clearSemaphore => true
  | _ => false

/-- No call clears the semaphore while `complete` is going to set it. -/
def State.Quiet (s : State τ) : Action τ → Prop
  | .thread t _ => (s.threads t).clears = true → s.script ≠ .signal
  | _ => True

instance (s : State τ) : (a : Action τ) → Decidable (s.Quiet a)
  | .thread _ _ => inferInstanceAs (Decidable (_ → _))
  | .call .. | .timeout _ | .takePending | .complete _ | .script => inferInstanceAs (Decidable True)

/-! ## The invariant -/

/-- The slot belongs to a call that waits. -/
def SlotState.waited : SlotState → Bool
  | .pending | .handling | .decided => true
  | _ => false

/-- The slot belongs to a call. -/
def SlotState.held : SlotState → Bool
  | .writing => true
  | slot => slot.waited

/-- The thread owns the slot. -/
def CallPc.owns : CallPc → Bool
  | .idle | .claim .. | .addTimeout .. => false
  | _ => true

/-- The scripting thread has taken the request and not answered it. -/
def ScriptPc.holds : ScriptPc → Bool
  | .readRequest _ | .readGeneration .. | .deciding _ | .checkGeneration .. | .prepare ..
  | .storeResult .. | .decide .. => true
  | _ => false

/-- A call that writes the slot knows this. -/
def State.WritingKnows (s : State τ) (call : Nat) : WritingPc → Prop
  | .capture request => s.called[call]? = some request
  | .abandon => True
  | .storePending =>
      s.called[call]? = some s.request ∧ s.semaphore = false ∧ s.script ≠ .signal
  | _ => s.called[call]? = some s.request

/-- What a call knows. -/
def State.CallKnows (s : State τ) : CallPc → Prop
  | .idle => True
  | .claim call request => s.called[call]? = some request
  | .writing call pc => s.slot = .writing ∧ s.WritingKnows call pc
  | .wait _ => s.slot.waited = true
  | .loadState _ timedOut =>
      s.slot.waited = true ∧ (timedOut = false → s.slot = .decided)
  | .cancelPending _ timedOut | .cancelHandling _ timedOut =>
      s.slot.waited = true ∧ timedOut = true
  | .loadResult _ => s.slot = .decided
  | .apply call => s.slot = .decided ∧ s.Decided call s.command
  | .addDecision call follow applied | .storeIdle call follow applied =>
      s.slot = .decided ∧
        (follow = true → ∃ command, applied = some command ∧ s.Decided call command)
  | .addTimeout _ timedOut => timedOut = true

/-- The scripting thread has the slot of the call. -/
def State.Holding (s : State τ) (call : Nat) : Prop :=
  (s.slot = .handling ∨ s.slot = .cancelled) ∧ s.owner = some call

/-- The scripting thread answers a request. -/
def State.Asked (s : State τ) (h : Handle) (d : Decision) : Prop :=
  s.Holding h.call ∧ h.generation = s.activeGeneration ∧ s.called[h.call]? = some h.request ∧
    (h, d) ∈ s.completions

/-- What the scripting thread knows. -/
def State.ScriptKnows (s : State τ) : ScriptPc → Prop
  | .idle | .take | .reap | .signal => True
  | .readRequest call => s.Holding call
  | .readGeneration call request => s.Holding call ∧ s.called[call]? = some request
  | .deciding h =>
      s.Holding h.call ∧ h.generation = s.activeGeneration ∧ s.called[h.call]? = some h.request
  | .checkGeneration h d => s.Asked h d
  | .prepare h d => s.Asked h d ∧ d.follow = true
  | .storeResult h d follow => s.Asked h d ∧ (follow = true → s.Decided h.call s.command)
  | .decide h d => s.Asked h d ∧ (s.resultFollow = true → s.Decided h.call s.command)
  | .checkCancelled h | .storeIdle h => s.slot = .cancelled ∧ s.owner = some h.call

/-- What holds of the slot. -/
structure State.Inv (s : State τ) : Prop where
  unique : ∀ t u, (s.threads t).owns = true → (s.threads u).owns = true → t = u
  held : s.slot.held = true → ∃ t, (s.threads t).owns = true
  owner : ∀ t, (s.threads t).owns = true → (s.threads t).call = s.owner
  fresh : ∀ t call, (s.threads t).call = some call → call < s.called.length
  distinct : ∀ t u call, (s.threads t).call = some call → (s.threads u).call = some call → t = u
  calls : ∀ t, s.CallKnows (s.threads t)
  script : s.ScriptKnows s.script
  handling : s.slot = .handling → s.script.holds = true
  /-- A request that is not decided is waited for on a clear semaphore. -/
  quiet : s.slot = .pending ∨ s.slot = .handling → s.semaphore = false ∧ s.script ≠ .signal
  /-- The request is that of the owner. -/
  request : s.slot = .pending ∨ s.slot = .handling ∨ s.slot = .cancelled →
    ∀ call, s.owner = some call → s.called[call]? = some s.request
  /-- The result is that of the owner. -/
  decided : s.slot = .decided → s.resultFollow = true →
    ∀ call, s.owner = some call → s.Decided call s.command
  /-- A cancelled slot waits for a visit. -/
  cancelled : s.slot = .cancelled → s.unvisited = true ∨
    ∃ t call timedOut, s.threads t = .addTimeout call timedOut ∧ s.owner = some call
  followed : ∀ r ∈ s.returned, r.follow = true →
    ∃ command, r.applied = some command ∧ s.Decided r.call command

/-! ## What grows -/

/-- Calls and completions are only added. -/
structure State.Grows (s s' : State τ) : Prop where
  base : s'.base = s.base
  called : ∀ (call : Nat) (request : ChildRequest), s.called[call]? = some request →
    s'.called[call]? = some request
  completions : ∀ c ∈ s.completions, c ∈ s'.completions

theorem State.Decided.mono {s s' : State τ} {call : Nat} {command : List Bytes}
    (h : s.Decided call command) (hgrows : s.Grows s') : s'.Decided call command := by
  obtain ⟨handle, d, old, hmem, hcall, hrequest, hfollow, hprepare⟩ := h
  exact ⟨handle, d, old, hgrows.completions _ hmem, hcall, hgrows.called _ _ hrequest, hfollow,
    hgrows.base ▸ hprepare⟩

/-- A call that does not own the slot goes on knowing what it knows. -/
theorem State.CallKnows.of_not_owns {s s' : State τ} {pc : CallPc} (h : s.CallKnows pc)
    (hpc : pc.owns = false) (hgrows : s.Grows s') : s'.CallKnows pc := by
  cases pc with
  | idle => trivial
  | claim call request => exact hgrows.called _ _ h
  | addTimeout call timedOut => exact h
  | _ => cases hpc

/-- The owner goes on knowing what it knows while the slot is left to it. -/
theorem State.CallKnows.congr {s s' : State τ} {pc : CallPc} (h : s.CallKnows pc)
    (hgrows : s.Grows s') (hslot : s'.slot = s.slot) (hrequest : s'.request = s.request)
    (hcommand : s.slot = .decided → s'.command = s.command)
    (hquiet : s.slot = .writing → s.semaphore = false → s.script ≠ .signal →
      s'.semaphore = false ∧ s'.script ≠ .signal) : s'.CallKnows pc := by
  cases pc with
  | writing call pc =>
      obtain ⟨hwriting, hknows⟩ := h
      refine ⟨hslot ▸ hwriting, ?_⟩
      cases pc with
      | storePending =>
          obtain ⟨hcalled, hsem, hscript⟩ := hknows
          exact ⟨hrequest ▸ hgrows.called _ _ hcalled, hquiet hwriting hsem hscript⟩
      | capture request => exact hgrows.called _ _ hknows
      | abandon => trivial
      | _ =>
          have hcalled := hgrows.called _ _ hknows
          rwa [← hrequest] at hcalled
  | apply call =>
      obtain ⟨hdecided, hknows⟩ := h
      exact ⟨hslot ▸ hdecided, hcommand hdecided ▸ hknows.mono hgrows⟩
  | addDecision call follow applied =>
      refine ⟨hslot ▸ h.1, fun hfollow => ?_⟩
      obtain ⟨command, happlied, hknows⟩ := h.2 hfollow
      exact ⟨command, happlied, hknows.mono hgrows⟩
  | storeIdle call follow applied =>
      refine ⟨hslot ▸ h.1, fun hfollow => ?_⟩
      obtain ⟨command, happlied, hknows⟩ := h.2 hfollow
      exact ⟨command, happlied, hknows.mono hgrows⟩
  | idle => trivial
  | claim call request => exact hgrows.called _ _ h
  | addTimeout call timedOut => exact h
  | loadState call timedOut => simpa only [State.CallKnows, hslot] using h
  | cancelPending call timedOut => simpa only [State.CallKnows, hslot] using h
  | cancelHandling call timedOut => simpa only [State.CallKnows, hslot] using h
  | loadResult call => simpa only [State.CallKnows, hslot] using h
  | wait call => simpa only [State.CallKnows, hslot] using h

/-- The scripting thread goes on knowing what it knows while the slot it has is
left to it. -/
theorem State.ScriptKnows.mono {s s' : State τ} {pc : ScriptPc} (h : s.ScriptKnows pc)
    (hgrows : s.Grows s')
    (hslot : s.slot = .handling ∨ s.slot = .cancelled →
      (s'.slot = .handling ∨ s'.slot = .cancelled) ∧ (s.slot = .cancelled → s'.slot = .cancelled) ∧
      s'.owner = s.owner ∧ s'.activeGeneration = s.activeGeneration ∧
      s'.command = s.command ∧ s'.resultFollow = s.resultFollow) : s'.ScriptKnows pc := by
  have hholding : ∀ {call}, s.Holding call → s'.Holding call := fun hh => by
    obtain ⟨hslot', -, howner, -⟩ := hslot hh.1
    exact ⟨hslot', howner ▸ hh.2⟩
  have hgeneration : ∀ {call generation}, s.Holding call → generation = s.activeGeneration →
      generation = s'.activeGeneration := fun hh hg => by
    obtain ⟨-, -, -, hactive, -⟩ := hslot hh.1
    exact hactive ▸ hg
  have hasked : ∀ {h d}, s.Asked h d → s'.Asked h d := fun hh =>
    ⟨hholding hh.1, hgeneration hh.1 hh.2.1, hgrows.called _ _ hh.2.2.1,
      hgrows.completions _ hh.2.2.2⟩
  cases pc with
  | idle => trivial
  | take => trivial
  | reap => trivial
  | signal => trivial
  | readRequest call => exact hholding h
  | readGeneration call request => exact ⟨hholding h.1, hgrows.called _ _ h.2⟩
  | deciding h' => exact ⟨hholding h.1, hgeneration h.1 h.2.1, hgrows.called _ _ h.2.2⟩
  | checkGeneration h' d => exact hasked h
  | prepare h' d => exact ⟨hasked h.1, h.2⟩
  | storeResult h' d follow =>
      obtain ⟨-, -, -, -, hcommand, -⟩ := hslot h.1.1.1
      exact ⟨hasked h.1, fun hfollow => hcommand ▸ (h.2 hfollow).mono hgrows⟩
  | decide h' d =>
      obtain ⟨-, -, -, -, hcommand, hresult⟩ := hslot h.1.1.1
      exact ⟨hasked h.1, fun hfollow => hcommand ▸ (h.2 (hresult ▸ hfollow)).mono hgrows⟩
  | checkCancelled h' =>
      obtain ⟨-, hcancelled, howner, -⟩ := hslot (.inr h.1)
      exact ⟨hcancelled h.1, howner ▸ h.2⟩
  | storeIdle h' =>
      obtain ⟨-, hcancelled, howner, -⟩ := hslot (.inr h.1)
      exact ⟨hcancelled h.1, howner ▸ h.2⟩

/-! ## Steps of a call -/

theorem State.Grows.refl (s : State τ) : s.Grows s := ⟨rfl, fun _ _ h => h, fun _ h => h⟩

/-- The slot of an owner is held. -/
theorem State.CallKnows.held {s : State τ} {pc : CallPc} (h : s.CallKnows pc)
    (hpc : pc.owns = true) : s.slot.held = true := by
  have hwaited : s.slot.waited = true → s.slot.held = true := fun hw => by
    cases hslot : s.slot <;> rw [hslot] at hw <;> first | rfl | cases hw
  cases pc with
  | idle => cases hpc
  | claim call request => cases hpc
  | addTimeout call timedOut => cases hpc
  | writing call pc => rw [h.1]; rfl
  | wait call => exact hwaited h
  | loadState call timedOut => exact hwaited h.1
  | cancelPending call timedOut => exact hwaited h.1
  | cancelHandling call timedOut => exact hwaited h.1
  | loadResult call => rw [show s.slot = .decided from h]; rfl
  | apply call => rw [h.1]; rfl
  | addDecision call follow applied => rw [h.1]; rfl
  | storeIdle call follow applied => rw [h.1]; rfl

variable {s s' : State τ} {t : τ}

/-- The calls of the others are not the call of a thread. -/
theorem State.Inv.fresh_of_call (h : s.Inv) {p : CallPc} (hcall : p.call = (s.threads t).call)
    {call : Nat} (hpc : p.call = some call) :
    call < s.called.length ∧ ∀ u, u ≠ t → (s.threads u).call ≠ some call := by
  have ht : (s.threads t).call = some call := hcall ▸ hpc
  exact ⟨h.fresh t call ht, fun u hu hcallu => hu (h.distinct u t call hcallu ht)⟩

/-- The others do not own the slot of an owner. -/
theorem State.Inv.others (h : s.Inv) (ht : (s.threads t).owns = true) {u : τ} (hu : u ≠ t) :
    (s.threads u).owns = false := by
  by_contra howns
  exact hu (h.unique u t (by simpa using howns) ht)

section

variable [DecidableEq τ]

/-- A thread moves and the slot and the scripting thread are as they ought to be. -/
theorem State.Inv.update (h : s.Inv) {p : CallPc}
    (hthreads : s'.threads = Function.update s.threads t p)
    (hlength : s.called.length ≤ s'.called.length)
    (hfresh : ∀ call, p.call = some call → call < s'.called.length ∧
      ∀ u, u ≠ t → (s.threads u).call ≠ some call)
    (hself : s'.CallKnows p) (hothers : ∀ u, u ≠ t → s'.CallKnows (s.threads u))
    (hunique : p.owns = true → ∀ u, u ≠ t → (s.threads u).owns = false)
    (hheld : s'.slot.held = true → p.owns = true ∨ ∃ u, u ≠ t ∧ (s.threads u).owns = true)
    (hown : p.owns = true → p.call = s'.owner)
    (howner : ∀ u, u ≠ t → (s.threads u).owns = true → s'.owner = s.owner)
    (hscript : s'.ScriptKnows s'.script) (hhandling : s'.slot = .handling → s'.script.holds = true)
    (hquiet : s'.slot = .pending ∨ s'.slot = .handling →
      s'.semaphore = false ∧ s'.script ≠ .signal)
    (hrequest : s'.slot = .pending ∨ s'.slot = .handling ∨ s'.slot = .cancelled →
      ∀ call, s'.owner = some call → s'.called[call]? = some s'.request)
    (hdecided : s'.slot = .decided → s'.resultFollow = true →
      ∀ call, s'.owner = some call → s'.Decided call s'.command)
    (hcancelled : s'.slot = .cancelled → s'.unvisited = true ∨
      ∃ u call timedOut, s'.threads u = .addTimeout call timedOut ∧ s'.owner = some call)
    (hfollowed : ∀ r ∈ s'.returned, r.follow = true →
      ∃ command, r.applied = some command ∧ s'.Decided r.call command) : s'.Inv := by
  have hthread : ∀ u, s'.threads u = if u = t then p else s.threads u := fun u => by
    rw [hthreads]
    exact Function.update_apply ..
  exact {
    unique u v hu hv := by
      rw [hthread] at hu hv
      split at hu <;> split at hv
      next hut hvt => exact hut.trans hvt.symm
      next hut hvt => simp [hunique hu v hvt] at hv
      next hut hvt => simp [hunique hv u hut] at hu
      next hut hvt => exact h.unique u v hu hv
    held hslot := by
      obtain hpc | ⟨u, hu, howns⟩ := hheld hslot
      · exact ⟨t, by rwa [hthread, if_pos rfl]⟩
      · exact ⟨u, by rwa [hthread, if_neg hu]⟩
    owner u hu := by
      rw [hthread] at hu ⊢
      split at hu
      next hut => exact (if_pos hut).symm ▸ hown hu
      next hut =>
        rw [if_neg hut, howner u hut hu]
        exact h.owner u hu
    fresh u call hu := by
      rw [hthread] at hu
      split at hu
      · exact (hfresh call hu).1
      · exact (h.fresh u call hu).trans_le hlength
    distinct u v call hu hv := by
      rw [hthread] at hu hv
      split at hu <;> split at hv
      next hut hvt => exact hut.trans hvt.symm
      next hut hvt => exact absurd hv ((hfresh call hu).2 v hvt)
      next hut hvt => exact absurd hu ((hfresh call hv).2 u hut)
      next hut hvt => exact h.distinct u v call hu hv
    calls u := by
      rw [hthread]
      split
      · exact hself
      next hut => exact hothers u hut
    script := hscript
    handling := hhandling
    quiet := hquiet
    request := hrequest
    decided := hdecided
    cancelled := hcancelled
    followed := hfollowed }

/-- The owner writes the slot or publishes its request. -/
theorem State.Inv.write (h : s.Inv) (ht : (s.threads t).owns = true) (hslot : s.slot = .writing)
    {p : CallPc} (hpc : p.owns = true) (hcall : p.call = (s.threads t).call) {sl : SlotState}
    {g a : UInt64} {q : ChildRequest} {f m : Bool} {l : List Nat}
    (hsl : sl = .writing ∨ sl = .pending ∧ m = false ∧ s.script ≠ .signal ∧
      ∀ call, s.owner = some call → s.called[call]? = some q)
    (hself : State.CallKnows { s.goto t p with
      slot := sl, generation := g, activeGeneration := a, request := q, resultFollow := f,
      semaphore := m, requested := l } p) :
    State.Inv { s.goto t p with
      slot := sl, generation := g, activeGeneration := a, request := q, resultFollow := f,
      semaphore := m, requested := l } := by
  have hpending : sl ≠ .handling ∧ sl ≠ .cancelled ∧ sl ≠ .decided := by
    obtain rfl | ⟨rfl, -⟩ := hsl <;> exact ⟨nofun, nofun, nofun⟩
  refine h.update rfl le_rfl (fun call hc => h.fresh_of_call hcall hc) hself
    (fun u hu => (h.calls u).of_not_owns (h.others ht hu) ⟨rfl, fun _ _ hr => hr, fun _ hm => hm⟩)
    (fun _ u hu => h.others ht hu) (fun _ => .inl hpc) (fun _ => hcall.trans (h.owner t ht))
    (fun _ _ _ => rfl) ?_ (fun hsl' => absurd hsl' hpending.1) ?_ ?_
    (fun hsl' => absurd hsl' hpending.2.2) (fun hsl' => absurd hsl' hpending.2.1) h.followed
  · refine h.script.mono ⟨rfl, fun _ _ hr => hr, fun _ hm => hm⟩ fun hsl' => ?_
    rw [hslot] at hsl'
    obtain hsl' | hsl' := hsl' <;> cases hsl'
  · rintro (hsl' | hsl')
    · obtain rfl | ⟨-, hm, hscript, -⟩ := hsl
      · cases hsl'
      · exact ⟨hm, hscript⟩
    · exact absurd hsl' hpending.1
  · rintro (hsl' | hsl' | hsl')
    · obtain rfl | ⟨-, -, -, hrequest⟩ := hsl
      · cases hsl'
      · exact hrequest
    · exact absurd hsl' hpending.1
    · exact absurd hsl' hpending.2.1

/-- The owner goes on and leaves the slot as it is. -/
theorem State.Inv.wait (h : s.Inv) (ht : (s.threads t).owns = true) {p : CallPc}
    (hpc : p.owns = true) (hcall : p.call = (s.threads t).call) (hself : s.CallKnows p)
    {l : List Nat} : State.Inv { s.goto t p with decisions := l } := by
  have hgrows : s.Grows { s.goto t p with decisions := l } :=
    ⟨rfl, fun _ _ hr => hr, fun _ hm => hm⟩
  refine h.update rfl le_rfl (fun call hc => h.fresh_of_call hcall hc)
    (hself.congr hgrows rfl rfl (fun _ => rfl) fun _ hsem hscript => ⟨hsem, hscript⟩)
    (fun u hu => (h.calls u).of_not_owns (h.others ht hu) hgrows)
    (fun _ u hu => h.others ht hu) (fun _ => .inl hpc) (fun _ => hcall.trans (h.owner t ht))
    (fun _ _ _ => rfl) (h.script.mono hgrows fun hsl => ⟨hsl, id, rfl, rfl, rfl, rfl⟩) h.handling
    h.quiet h.request h.decided (fun hsl => ?_) h.followed
  -- the slot of an owner is not cancelled
  have hheld := (h.calls t).held ht
  have hsl : s.slot = .cancelled := hsl
  rw [hsl] at hheld
  cases hheld

/-- The owner gives the slot back and returns. -/
theorem State.Inv.release (h : s.Inv) (ht : (s.threads t).owns = true) {call : Nat} {follow : Bool}
    {applied : Option (List Bytes)}
    (hslot : s.slot = .writing ∨ s.slot = .decided)
    (hfollow : follow = true → ∃ command, applied = some command ∧ s.Decided call command) :
    State.Inv { s.finish t call follow applied with slot := .idle } := by
  have hgrows : s.Grows { s.finish t call follow applied with slot := .idle } :=
    ⟨rfl, fun _ _ hr => hr, fun _ hm => hm⟩
  refine h.update (p := .idle) rfl le_rfl (fun call hc => by cases hc) trivial
    (fun u hu => (h.calls u).of_not_owns (h.others ht hu) hgrows) (fun hpc => by cases hpc)
    (fun hsl => by cases hsl) (fun hpc => by cases hpc) (fun _ _ _ => rfl)
    (h.script.mono hgrows fun hsl => ?_) (fun hsl => by cases hsl) (fun hsl => by simp at hsl)
    (fun hsl => by simp at hsl) (fun hsl => by cases hsl) (fun hsl => by cases hsl) ?_
  · obtain hslot | hslot := hslot <;> rw [hslot] at hsl <;> obtain hsl | hsl := hsl <;> cases hsl
  · intro r hr hrf
    obtain hr | hr := List.mem_append.mp hr
    · obtain ⟨command, happlied, hdecided⟩ := h.followed r hr hrf
      exact ⟨command, happlied, hdecided.mono hgrows⟩
    · obtain rfl := List.mem_singleton.mp hr
      obtain ⟨command, happlied, hdecided⟩ := hfollow hrf
      exact ⟨command, happlied, hdecided.mono hgrows⟩

/-- The owner cancels its request. -/
theorem State.Inv.cancel (h : s.Inv) (ht : (s.threads t).owns = true) {call : Nat}
    (hcall : (s.threads t).call = some call) (hslot : s.slot = .pending ∨ s.slot = .handling) :
    State.Inv { s.goto t (.addTimeout call true) with slot := .cancelled } := by
  have hgrows : s.Grows { s.goto t (.addTimeout call true) with slot := .cancelled } :=
    ⟨rfl, fun _ _ hr => hr, fun _ hm => hm⟩
  refine h.update (p := .addTimeout call true) rfl le_rfl
    (fun c hc => h.fresh_of_call (p := .addTimeout call true) hcall.symm hc) rfl
    (fun u hu => (h.calls u).of_not_owns (h.others ht hu) hgrows) (fun hpc => by cases hpc)
    (fun hsl => by cases hsl) (fun hpc => by cases hpc) (fun _ _ _ => rfl)
    (h.script.mono hgrows fun _ => ⟨.inr rfl, fun _ => rfl, rfl, rfl, rfl, rfl⟩)
    (fun hsl => by cases hsl) (fun hsl => by simp at hsl)
    (fun _ => h.request (hslot.imp_right .inl)) (fun hsl => by cases hsl) (fun _ => ?_) h.followed
  refine .inr ⟨t, call, true, Function.update_self .., ?_⟩
  rw [← hcall]
  exact (h.owner t ht).symm

/-- A call that does not own the slot returns. -/
theorem State.Inv.return (h : s.Inv) (ht : (s.threads t).owns = false) {call : Nat}
    (hcall : (s.threads t).call = some call) {l : List Nat} :
    State.Inv { s.finish t call false none with timeouts := l } := by
  have hgrows : s.Grows { s.finish t call false none with timeouts := l } :=
    ⟨rfl, fun _ _ hr => hr, fun _ hm => hm⟩
  refine h.update (p := .idle) rfl le_rfl (fun call hc => by cases hc) trivial
    (fun u _ => (h.calls u).congr hgrows rfl rfl (fun _ => rfl)
      fun _ hsem hscript => ⟨hsem, hscript⟩)
    (fun hpc => by cases hpc) (fun hsl => .inr ?_) (fun hpc => by cases hpc) (fun _ _ _ => rfl)
    (h.script.mono hgrows fun hsl => ⟨hsl, id, rfl, rfl, rfl, rfl⟩) h.handling h.quiet h.request
    h.decided (fun hsl => ?_) ?_
  · obtain ⟨u, hu⟩ := h.held hsl
    refine ⟨u, fun hut => ?_, hu⟩
    rw [hut, ht] at hu
    cases hu
  · obtain hunvisited | ⟨u, c, timedOut, hu, howner⟩ := h.cancelled hsl
    · exact .inl (show (s.unvisited || s.owner == some call) = true by simp [hunvisited])
    · rcases eq_or_ne u t with rfl | hut
      · rw [hu] at hcall
        obtain rfl : c = call := Option.some.inj hcall
        exact .inl (show (s.unvisited || s.owner == some c) = true by simp [howner])
      · exact .inr ⟨u, c, timedOut, (Function.update_of_ne hut ..).trans hu, howner⟩
  · intro r hr hrf
    obtain hr | hr := List.mem_append.mp hr
    · exact h.followed r hr hrf
    · obtain rfl := List.mem_singleton.mp hr
      cases hrf

/-- A call claims the slot. -/
theorem State.Inv.claim (h : s.Inv) {call : Nat} {request : ChildRequest}
    (hpc : s.threads t = .claim call request) (hslot : s.slot = .idle) :
    State.Inv { s.goto t (.writing call (.capture request)) with
      slot := .writing, owner := some call, unvisited := false } := by
  have hgrows : s.Grows { s.goto t (.writing call (.capture request)) with
      slot := .writing, owner := some call, unvisited := false } :=
    ⟨rfl, fun _ _ hr => hr, fun _ hm => hm⟩
  have hnone : ∀ u, (s.threads u).owns = false := fun u => by
    by_contra howns
    have hheld := (h.calls u).held (by simpa using howns)
    rw [hslot] at hheld
    cases hheld
  have hknows := h.calls t
  rw [hpc] at hknows
  refine h.update (p := .writing call (.capture request)) rfl le_rfl
    (fun c hc => h.fresh_of_call (by rw [hpc]; rfl) hc) ⟨rfl, hknows⟩
    (fun u _ => (h.calls u).of_not_owns (hnone u) hgrows) (fun _ u _ => hnone u)
    (fun _ => .inl rfl) (fun _ => rfl) (fun u _ hu => ?_) (h.script.mono hgrows fun hsl => ?_)
    (fun hsl => by cases hsl) (fun hsl => by simp at hsl) (fun hsl => by simp at hsl)
    (fun hsl => by cases hsl) (fun hsl => by cases hsl) h.followed
  · rw [hnone u] at hu
    cases hu
  · rw [hslot] at hsl
    obtain hsl | hsl := hsl <;> cases hsl

/-- Pin calls on a thread. -/
theorem State.Inv.call (h : s.Inv) {request : ChildRequest} (hpc : s.threads t = .idle) :
    State.Inv { s.goto t (.claim s.called.length request) with
      called := s.called ++ [request] } := by
  have hgrows : s.Grows { s.goto t (.claim s.called.length request) with
      called := s.called ++ [request] } :=
    ⟨rfl, fun c r hr => by
      have hlt : c < s.called.length := (List.getElem?_eq_some_iff.mp hr).1
      exact (List.getElem?_append_left hlt).trans hr, fun _ hm => hm⟩
  have hnot : (s.threads t).owns = false := by rw [hpc]; rfl
  refine h.update (p := .claim s.called.length request) rfl (by simp) (fun c hc => ?_)
    (by simp [State.CallKnows])
    (fun u _ => (h.calls u).congr hgrows rfl rfl (fun _ => rfl)
      fun _ hsem hscript => ⟨hsem, hscript⟩)
    (fun hpc => by cases hpc) (fun hsl => .inr ?_) (fun hpc => by cases hpc) (fun _ _ _ => rfl)
    (h.script.mono hgrows fun hsl => ⟨hsl, id, rfl, rfl, rfl, rfl⟩) h.handling h.quiet
    (fun hsl c hc => hgrows.called _ _ (h.request hsl c hc))
    (fun hsl hf c hc => (h.decided hsl hf c hc).mono hgrows) (fun hsl => ?_) fun r hr hrf => ?_
  · cases hc
    refine ⟨by simp, fun u _ hu => ?_⟩
    exact lt_irrefl _ (h.fresh u _ hu)
  · obtain ⟨u, hu⟩ := h.held hsl
    refine ⟨u, fun hut => ?_, hu⟩
    rw [hut, hnot] at hu
    cases hu
  · refine (h.cancelled hsl).imp_right fun ⟨u, c, timedOut, hu, howner⟩ => ?_
    refine ⟨u, c, timedOut, (Function.update_of_ne (fun hut => ?_) ..).trans hu, howner⟩
    rw [hut, hpc] at hu
    cases hu
  · obtain ⟨command, happlied, hdecided⟩ := h.followed r hr hrf
    exact ⟨command, happlied, hdecided.mono hgrows⟩

/-- The slot of a call that waits and is not decided. -/
theorem SlotState.waited_cases {slot : SlotState} (h : slot.waited = true) :
    slot = .pending ∨ slot = .handling ∨ slot = .decided := by
  cases slot <;> first | exact .inl rfl | exact .inr (.inl rfl) | exact .inr (.inr rfl) | cases h

/-- A call that writes the slot goes on. -/
theorem State.Inv.writingStep (h : s.Inv) {ok : Bool} {call : Nat} {pc : WritingPc}
    (hpc : s.threads t = .writing call pc) (hquiet : s.Quiet (.thread t ok)) :
    (s.writingStep t call ok pc).Inv := by
  have hknows := h.calls t
  have howner := h.owner t
  rw [hpc] at hknows howner
  obtain ⟨hslot, hwriting⟩ := hknows
  have howns : (s.threads t).owns = true := by rw [hpc]; rfl
  have hcall : ∀ pc, (CallPc.writing call pc).call = (s.threads t).call := fun pc => by
    rw [hpc]
    rfl
  cases pc with
  | capture request =>
      rw [State.writingStep]
      split
      · exact h.write (l := s.requested) howns hslot rfl (hcall _) (.inl hslot) ⟨hslot, hwriting⟩
      · exact h.write (l := s.requested) howns hslot rfl (hcall _) (.inl hslot) ⟨hslot, trivial⟩
  | abandon => exact h.release howns (.inl hslot) (fun hf => by cases hf)
  | nextGeneration | storeGeneration _ | clearResult =>
      exact h.write (l := s.requested) howns hslot rfl (hcall _) (.inl hslot) ⟨hslot, hwriting⟩
  | loadSemaphore =>
      rw [State.writingStep]
      split
      · exact h.write (l := s.requested) howns hslot rfl (hcall _) (.inl hslot) ⟨hslot, hwriting⟩
      · exact h.write (l := s.requested) howns hslot rfl (hcall _) (.inl hslot) ⟨hslot, trivial⟩
  | clearSemaphore =>
      exact h.write (l := s.requested) howns hslot rfl (hcall _) (.inl hslot)
        ⟨hslot, hwriting, rfl, hquiet (by rw [hpc]; rfl)⟩
  | storePending =>
      obtain ⟨hcalled, hsem, hscript⟩ := hwriting
      refine h.write howns hslot rfl (by rw [hpc]; rfl)
        (.inr ⟨rfl, hsem, hscript, fun c hc => ?_⟩) rfl
      obtain rfl : call = c := Option.some.inj ((howner rfl).trans hc)
      exact hcalled

/-- A wait ends on a set semaphore, so the request is decided. -/
theorem State.Inv.woken (h : s.Inv) {call : Nat} (hpc : s.threads t = .wait call)
    (hsem : s.semaphore = true) : (s.goto t (.loadState call false)).Inv := by
  have hwaited : s.slot.waited = true := by
    have hknows := h.calls t
    rwa [hpc] at hknows
  refine h.wait (p := .loadState call false) (l := s.decisions) (by rw [hpc]; rfl) rfl
    (by rw [hpc]; rfl) ⟨hwaited, fun _ => ?_⟩
  obtain hslot | hslot | hslot := SlotState.waited_cases hwaited
  · simp [(h.quiet (.inl hslot)).1] at hsem
  · simp [(h.quiet (.inr hslot)).1] at hsem
  · exact hslot

/-- A call looks at the slot after its wait. -/
theorem State.Inv.look (h : s.Inv) {call : Nat} {timedOut : Bool}
    (hpc : s.threads t = .loadState call timedOut) {ok : Bool}
    (hs' : s.callStep t ok (.loadState call timedOut) = some s') : s'.Inv := by
  have hknows := h.calls t
  rw [hpc] at hknows
  obtain ⟨hwaited, htimed⟩ := hknows
  have howns : (s.threads t).owns = true := by rw [hpc]; rfl
  have hcancels : s.slot ≠ .decided → timedOut = true := fun hslot => by
    by_contra hto
    exact hslot (htimed (by simpa using hto))
  rw [State.callStep] at hs'
  obtain hslot | hslot | hslot := SlotState.waited_cases hwaited
  · rw [hslot] at hs'
    cases hs'
    exact h.wait (p := .cancelPending call timedOut) (l := s.decisions) howns rfl
      (by rw [hpc]; rfl) ⟨hwaited, hcancels (by rw [hslot]; nofun)⟩
  · rw [hslot] at hs'
    cases hs'
    exact h.wait (p := .cancelHandling call timedOut) (l := s.decisions) howns rfl
      (by rw [hpc]; rfl) ⟨hwaited, hcancels (by rw [hslot]; nofun)⟩
  · rw [hslot] at hs'
    cases hs'
    exact h.wait (p := .loadResult call) (l := s.decisions) howns rfl (by rw [hpc]; rfl) hslot

/-- A call reads the result of its own request. -/
theorem State.Inv.loadResult (h : s.Inv) {call : Nat} (hpc : s.threads t = .loadResult call) :
    (s.goto t (if s.resultFollow then .apply call else .addDecision call false none)).Inv := by
  have hslot : s.slot = .decided := by
    have hknows := h.calls t
    rwa [hpc] at hknows
  have howner := h.owner t
  rw [hpc] at howner
  have howns : (s.threads t).owns = true := by rw [hpc]; rfl
  cases hresult : s.resultFollow with
  | true =>
      exact h.wait (p := .apply call) (l := s.decisions) howns rfl (by rw [hpc]; rfl)
        ⟨hslot, h.decided hslot hresult call (howner rfl).symm⟩
  | false =>
      exact h.wait (p := .addDecision call false none) (l := s.decisions) howns rfl
        (by rw [hpc]; rfl) ⟨hslot, fun hf => by cases hf⟩

/-- A call that could not cancel waits for its decision. -/
theorem State.Inv.retry (h : s.Inv) {call : Nat} (howns : (s.threads t).owns = true)
    (hcall : (s.threads t).call = some call) (hwaited : s.slot.waited = true) :
    (s.goto t (.loadState call true)).Inv :=
  h.wait (p := .loadState call true) (l := s.decisions) howns rfl hcall.symm
    ⟨hwaited, fun hf => by cases hf⟩

/-- A call goes on. -/
theorem State.Inv.callStep (h : s.Inv) {ok : Bool} (hquiet : s.Quiet (.thread t ok))
    (hs' : s.callStep t ok (s.threads t) = some s') : s'.Inv := by
  have hknows := h.calls t
  cases hpc : s.threads t with
  | idle =>
      rw [hpc] at hs'
      cases hs'
  | claim call request =>
      rw [hpc, State.callStep] at hs'
      split at hs'
      next hslot =>
        cases hs'
        exact h.claim hpc hslot
      next =>
        cases hs'
        exact h.return (l := s.timeouts) (by rw [hpc]; rfl) (by rw [hpc]; rfl)
  | writing call pc =>
      rw [hpc] at hs'
      cases hs'
      exact h.writingStep hpc hquiet
  | wait call =>
      rw [hpc, State.callStep] at hs'
      split at hs'
      next hsem =>
        cases hs'
        exact h.woken hpc hsem
      next => cases hs'
  | loadState call timedOut =>
      rw [hpc] at hs'
      exact h.look hpc hs'
  | loadResult call =>
      rw [hpc] at hs'
      cases hs'
      exact h.loadResult hpc
  | apply call =>
      rw [hpc, State.callStep] at hs'
      rw [hpc] at hknows
      have howns : (s.threads t).owns = true := by rw [hpc]; rfl
      cases hs'
      split
      · exact h.wait (p := .addDecision call true (some s.command)) (l := s.decisions) howns rfl
          (by rw [hpc]; rfl) ⟨hknows.1, fun _ => ⟨s.command, rfl, hknows.2⟩⟩
      · exact h.wait (p := .addDecision call false none) (l := s.decisions) howns rfl
          (by rw [hpc]; rfl) ⟨hknows.1, fun hf => by cases hf⟩
  | addDecision call follow applied =>
      rw [hpc] at hs' hknows
      cases hs'
      exact h.wait (p := .storeIdle call follow applied) (by rw [hpc]; rfl) rfl (by rw [hpc]; rfl)
        hknows
  | storeIdle call follow applied =>
      rw [hpc] at hs' hknows
      cases hs'
      exact h.release (by rw [hpc]; rfl) (.inr hknows.1) hknows.2
  | cancelPending call timedOut =>
      rw [hpc, State.callStep] at hs'
      rw [hpc] at hknows
      obtain ⟨hwaited, rfl⟩ := hknows
      split at hs'
      next hslot =>
        cases hs'
        exact h.cancel (by rw [hpc]; rfl) (by rw [hpc]; rfl) (.inl hslot)
      next =>
        cases hs'
        exact h.retry (by rw [hpc]; rfl) (by rw [hpc]; rfl) hwaited
  | cancelHandling call timedOut =>
      rw [hpc, State.callStep] at hs'
      rw [hpc] at hknows
      obtain ⟨hwaited, rfl⟩ := hknows
      split at hs'
      next hslot =>
        cases hs'
        exact h.cancel (by rw [hpc]; rfl) (by rw [hpc]; rfl) (.inr hslot)
      next =>
        cases hs'
        exact h.retry (by rw [hpc]; rfl) (by rw [hpc]; rfl) hwaited
  | addTimeout call timedOut =>
      rw [hpc] at hs'
      cases hs'
      exact h.return (by rw [hpc]; rfl) (by rw [hpc]; rfl)

end

/-! ## Steps of the scripting thread -/

/-- The scripting thread moves and the slot is as it ought to be. -/
theorem State.Inv.scripted (h : s.Inv) (hgrows : s.Grows s') (hthreads : s'.threads = s.threads)
    (howner : s'.owner = s.owner) (hlength : s.called.length ≤ s'.called.length)
    (hreturned : s'.returned = s.returned)
    (hcalls : ∀ u, (s.threads u).owns = true → s'.CallKnows (s.threads u))
    (hheld : s'.slot.held = true → s.slot.held = true) (hscript : s'.ScriptKnows s'.script)
    (hhandling : s'.slot = .handling → s'.script.holds = true)
    (hquiet : s'.slot = .pending ∨ s'.slot = .handling →
      s'.semaphore = false ∧ s'.script ≠ .signal)
    (hrequest : s'.slot = .pending ∨ s'.slot = .handling ∨ s'.slot = .cancelled →
      (s.slot = .pending ∨ s.slot = .handling ∨ s.slot = .cancelled) ∧ s'.request = s.request)
    (hdecided : s'.slot = .decided → s'.resultFollow = true →
      ∀ call, s'.owner = some call → s'.Decided call s'.command)
    (hcancelled : s'.slot = .cancelled → s.slot = .cancelled ∧ s'.unvisited = s.unvisited) :
    s'.Inv where
  unique := hthreads ▸ h.unique
  held hslot := hthreads ▸ h.held (hheld hslot)
  owner := by
    rw [hthreads, howner]
    exact h.owner
  fresh t call ht := by
    rw [hthreads] at ht
    exact (h.fresh t call ht).trans_le hlength
  distinct := hthreads ▸ h.distinct
  calls u := by
    rw [hthreads]
    cases hu : (s.threads u).owns with
    | true => exact hcalls u hu
    | false => exact (h.calls u).of_not_owns hu hgrows
  script := hscript
  handling := hhandling
  quiet := hquiet
  request hslot call hcall := by
    obtain ⟨hslot, hrequest⟩ := hrequest hslot
    rw [hrequest]
    exact hgrows.called _ _ (h.request hslot call (howner ▸ hcall))
  decided := hdecided
  cancelled hslot := by
    obtain ⟨hslot, hunvisited⟩ := hcancelled hslot
    rw [hunvisited, hthreads, howner]
    exact h.cancelled hslot
  followed r hr hrf := by
    obtain ⟨command, happlied, hdecided⟩ := h.followed r (hreturned ▸ hr) hrf
    exact ⟨command, happlied, hdecided.mono hgrows⟩

/-- The scripting thread goes on and leaves the slot and the semaphore alone. -/
theorem State.Inv.scriptGoto (h : s.Inv) {p : ScriptPc} (hpc : p ≠ .signal)
    (hscript : s.ScriptKnows p) (hhandling : s.slot = .handling → p.holds = true) :
    State.Inv { s with script := p } := by
  have hgrows : s.Grows { s with script := p } := ⟨rfl, fun _ _ hr => hr, fun _ hm => hm⟩
  refine h.scripted hgrows rfl rfl le_rfl rfl
    (fun u _ => (h.calls u).congr hgrows rfl rfl (fun _ => rfl) fun _ hsem _ => ⟨hsem, hpc⟩)
    id (hscript.mono hgrows fun hsl => ⟨hsl, id, rfl, rfl, rfl, rfl⟩) hhandling
    (fun hsl => ⟨(h.quiet hsl).1, hpc⟩) (fun hsl => ⟨hsl, rfl⟩) h.decided fun hsl => ⟨hsl, rfl⟩

/-- A call that waits for its decision goes on waiting. -/
theorem State.CallKnows.waits {pc : CallPc} (h : s.CallKnows pc) (hpc : pc.owns = true)
    (hslot : s.slot = .pending ∨ s.slot = .handling) (hwaited : s'.slot.waited = true) :
    s'.CallKnows pc := by
  have hundecided : s.slot ≠ .decided := by
    obtain hslot | hslot := hslot <;> rw [hslot] <;> nofun
  have hunwritten : s.slot ≠ .writing := by
    obtain hslot | hslot := hslot <;> rw [hslot] <;> nofun
  cases pc with
  | idle => cases hpc
  | claim call request => cases hpc
  | addTimeout call timedOut => cases hpc
  | writing call pc => exact absurd h.1 hunwritten
  | wait call => exact hwaited
  | loadState call timedOut =>
      exact ⟨hwaited, fun hto => absurd (h.2 hto) hundecided⟩
  | cancelPending call timedOut => exact ⟨hwaited, h.2⟩
  | cancelHandling call timedOut => exact ⟨hwaited, h.2⟩
  | loadResult call => exact absurd h hundecided
  | apply call => exact absurd h.1 hundecided
  | addDecision call follow applied => exact absurd h.1 hundecided
  | storeIdle call follow applied => exact absurd h.1 hundecided

/-- The scripting thread stores what it has prepared. -/
theorem State.Inv.scriptStore (h : s.Inv) {p : ScriptPc} {c : List Bytes} {f : Bool}
    (hslot : s.slot = .handling ∨ s.slot = .cancelled) (hpc : p.holds = true)
    (hscript : State.ScriptKnows { s with command := c, resultFollow := f, script := p } p) :
    State.Inv { s with command := c, resultFollow := f, script := p } := by
  have hsignal : p ≠ .signal := by rintro rfl; cases hpc
  refine h.scripted ⟨rfl, fun _ _ hr => hr, fun _ hm => hm⟩ rfl rfl le_rfl rfl (fun u hu => ?_) id
    hscript (fun _ => hpc) (fun hsl => ⟨(h.quiet hsl).1, hsignal⟩) (fun hsl => ⟨hsl, rfl⟩)
    (fun hsl => ?_) fun hsl => ⟨hsl, rfl⟩
  · obtain hslot | hslot := hslot
    · exact (h.calls u).waits hu (.inr hslot) (show s.slot.waited = true by rw [hslot]; rfl)
    · have hheld := (h.calls u).held hu
      rw [hslot] at hheld
      cases hheld
  · have hsl : s.slot = .decided := hsl
    rw [hsl] at hslot
    obtain hslot | hslot := hslot <;> cases hslot

/-- The scripting thread gives a cancelled slot back. -/
theorem State.Inv.reap (h : s.Inv) (hslot : s.slot = .cancelled) {v : Bool} :
    State.Inv { s with slot := .idle, unvisited := v, script := .idle } := by
  refine h.scripted ⟨rfl, fun _ _ hr => hr, fun _ hm => hm⟩ rfl rfl le_rfl rfl (fun u hu => ?_)
    (fun hsl => by cases hsl) trivial (fun hsl => by cases hsl) (fun hsl => by simp at hsl)
    (fun hsl => by simp at hsl) (fun hsl => by cases hsl) (fun hsl => by cases hsl)
  have hheld := (h.calls u).held hu
  rw [hslot] at hheld
  cases hheld

/-- The owner of a held slot. -/
theorem State.Inv.exists_owner (h : s.Inv) (hslot : s.slot.held = true) :
    ∃ call, s.owner = some call := by
  obtain ⟨t, ht⟩ := h.held hslot
  rw [← h.owner t ht]
  cases hpc : s.threads t <;> rw [hpc] at ht <;> first | exact ⟨_, rfl⟩ | cases ht

theorem State.Inv.take (h : s.Inv) (hslot : s.slot = .pending) :
    State.Inv { s with slot := .handling, script := .readRequest (s.owner.getD 0) } := by
  obtain ⟨call, howner⟩ := h.exists_owner (by rw [hslot]; rfl)
  refine h.scripted ⟨rfl, fun _ _ hr => hr, fun _ hm => hm⟩ rfl rfl le_rfl rfl
    (fun u hu => (h.calls u).waits hu (.inl hslot) rfl) (fun _ => by rw [hslot]; rfl)
    ⟨.inl rfl, by rw [howner]; rfl⟩ (fun _ => rfl)
    (fun _ => ⟨(h.quiet (.inl hslot)).1, nofun⟩) (fun _ => ⟨.inl hslot, rfl⟩)
    (fun hsl => by cases hsl) (fun hsl => by cases hsl)

/-- The decision is published. -/
theorem State.Inv.decide (h : s.Inv) {handle : Handle} {d : Decision}
    (hknows : s.ScriptKnows (.decide handle d)) (hslot : s.slot = .handling) {v : Bool}
    {pc : ScriptPc} (hpc : pc = .signal ∨ pc = .idle) :
    State.Inv { s with slot := .decided, unvisited := v, script := pc } := by
  obtain ⟨⟨hholding, -⟩, hfollow⟩ := hknows
  refine h.scripted ⟨rfl, fun _ _ hr => hr, fun _ hm => hm⟩ rfl rfl le_rfl rfl
    (fun u hu => (h.calls u).waits hu (.inr hslot) rfl) (fun _ => by rw [hslot]; rfl) ?_
    (fun hsl => by cases hsl) (fun hsl => by simp at hsl) (fun hsl => by simp at hsl)
    (fun _ hf call hc => ?_) (fun hsl => by cases hsl)
  · obtain rfl | rfl := hpc <;> trivial
  · obtain rfl : handle.call = call := Option.some.inj (hholding.2.symm.trans hc)
    exact (hfollow hf).mono ⟨rfl, fun _ _ hr => hr, fun _ hm => hm⟩

/-- The semaphore is set. -/
theorem State.Inv.signal (h : s.Inv) (hpc : s.script = .signal) :
    State.Inv { s with semaphore := true, script := .idle } := by
  refine h.scripted ⟨rfl, fun _ _ hr => hr, fun _ hm => hm⟩ rfl rfl le_rfl rfl
    (fun u _ => (h.calls u).congr ⟨rfl, fun _ _ hr => hr, fun _ hm => hm⟩ rfl rfl (fun _ => rfl)
      fun _ _ hnot => absurd hpc hnot)
    id trivial (fun hsl => ?_) (fun hsl => absurd hpc (h.quiet hsl).2) (fun hsl => ⟨hsl, rfl⟩)
    h.decided (fun hsl => ⟨hsl, rfl⟩)
  have hholds := h.handling hsl
  rw [hpc] at hholds
  cases hholds

theorem State.Inv.scriptStep (h : s.Inv) (hs' : s.scriptStep s.script = some s') : s'.Inv := by
  have hknows := h.script
  have hhandling := h.handling
  cases hpc : s.script with
  | idle =>
      rw [hpc] at hs'
      cases hs'
  | take =>
      rw [hpc, State.scriptStep] at hs'
      rw [hpc] at hhandling
      split at hs'
      next hslot =>
        cases hs'
        exact h.take hslot
      next =>
        cases hs'
        exact h.scriptGoto nofun trivial fun hsl => by cases hhandling hsl
  | reap =>
      rw [hpc, State.scriptStep] at hs'
      rw [hpc] at hhandling
      cases hs'
      split
      next hslot => exact h.reap hslot
      next hslot =>
        have hmove := h.scriptGoto (p := .idle) nofun trivial fun hsl => by cases hhandling hsl
        exact { hmove with cancelled := fun hsl => absurd hsl hslot }
  | readRequest call =>
      rw [hpc] at hs' hknows
      cases hs'
      refine h.scriptGoto nofun ⟨hknows, ?_⟩ fun _ => rfl
      exact h.request (.inr hknows.1) call hknows.2
  | readGeneration call request =>
      rw [hpc] at hs' hknows
      cases hs'
      exact h.scriptGoto nofun ⟨hknows.1, rfl, hknows.2⟩ fun _ => rfl
  | deciding handle =>
      rw [hpc] at hs'
      cases hs'
  | checkGeneration handle d =>
      rw [hpc, State.scriptStep] at hs'
      rw [hpc] at hknows
      have hasked : s.Asked handle d := hknows
      rw [if_pos hasked.2.1.symm] at hs'
      cases hs'
      cases hfollow : d.follow with
      | true => exact h.scriptGoto (p := .prepare handle d) nofun ⟨hasked, hfollow⟩ fun _ => rfl
      | false =>
          exact h.scriptGoto (p := .storeResult handle d false) nofun
            ⟨hasked, fun hf => by cases hf⟩ fun _ => rfl
  | prepare handle d =>
      rw [hpc] at hs' hknows
      obtain ⟨hasked, hfollow⟩ := hknows
      cases hs'
      refine h.scriptStore (f := s.resultFollow) hasked.1.1 rfl ⟨hasked, fun hready => ?_⟩
      exact ⟨handle, d, s.command, hasked.2.2.2, rfl, hasked.2.2.1, hfollow, Prod.ext rfl hready⟩
  | storeResult handle d follow =>
      rw [hpc] at hs' hknows
      cases hs'
      exact h.scriptStore (c := s.command) hknows.1.1.1 rfl hknows
  | decide handle d =>
      rw [hpc, State.scriptStep] at hs'
      rw [hpc] at hknows
      split at hs'
      next hslot =>
        cases hs'
        refine h.decide hknows hslot ?_
        cases s.ready
        · exact .inr rfl
        · exact .inl rfl
      next hslot =>
        cases hs'
        have hcancelled := hknows.1.1.1.resolve_left hslot
        exact h.scriptGoto nofun ⟨hcancelled, hknows.1.1.2⟩ fun hsl => absurd hsl hslot
  | signal =>
      rw [hpc] at hs'
      cases hs'
      exact h.signal hpc
  | checkCancelled handle =>
      rw [hpc, State.scriptStep] at hs'
      rw [hpc] at hknows
      rw [if_pos hknows.1] at hs'
      cases hs'
      refine h.scriptGoto nofun hknows fun hsl => ?_
      rw [hknows.1] at hsl
      cases hsl
  | storeIdle handle =>
      rw [hpc] at hs' hknows
      cases hs'
      exact h.reap hknows.1

/-! ## Counts -/

/-- The call has stored `PENDING` and is not counted. -/
def CallPc.owes : CallPc → Bool
  | .wait _ | .loadState .. | .loadResult _ | .apply _ | .addDecision .. | .cancelPending ..
  | .cancelHandling .. | .addTimeout .. => true
  | _ => false

/-- The call has not stored `PENDING`. -/
def CallPc.early : CallPc → Bool
  | .claim .. | .writing .. => true
  | _ => false

/-- The calls that are counted. -/
def State.counted (s : State τ) : List Nat := s.decisions ++ s.timeouts

/-- Requests are counted once. -/
structure State.Counts (s : State τ) : Prop where
  nodup : s.counted.Nodup
  owed : ∀ call ∈ s.counted, call ∈ s.requested
  fresh : ∀ call ∈ s.requested, call < s.called.length
  paid : ∀ call ∈ s.requested, call ∈ s.counted ∨
    ∃ t, (s.threads t).call = some call ∧ (s.threads t).owes = true
  uncounted : ∀ t call, (s.threads t).call = some call → (s.threads t).owes = true →
    call ∈ s.requested ∧ call ∉ s.counted
  early : ∀ t call, (s.threads t).call = some call → (s.threads t).early = true →
    call ∉ s.requested

theorem State.Counts.congr (h : s.Counts) (hthreads : s'.threads = s.threads)
    (hcalled : s'.called = s.called) (hrequested : s'.requested = s.requested)
    (hcounted : s'.counted = s.counted) : s'.Counts where
  nodup := hcounted ▸ h.nodup
  owed := hcounted ▸ hrequested ▸ h.owed
  fresh := hcalled ▸ hrequested ▸ h.fresh
  paid := by
    rw [hthreads, hcounted, hrequested]
    exact h.paid
  uncounted := by
    rw [hthreads, hcounted, hrequested]
    exact h.uncounted
  early := by
    rw [hthreads, hrequested]
    exact h.early

section

variable [DecidableEq τ]

/-- A thread moves and owes what it owed. -/
theorem State.Counts.move (h : s.Counts) {p : CallPc}
    (hthreads : s'.threads = Function.update s.threads t p)
    (hlength : s.called.length ≤ s'.called.length) (hrequested : s'.requested = s.requested)
    (hcounted : s'.counted = s.counted) (howes : p.owes = (s.threads t).owes)
    (hcall : p.owes = true → p.call = (s.threads t).call)
    (hearly : p.early = true → ∀ call, p.call = some call → call ∉ s.requested) : s'.Counts := by
  have hthread : ∀ u, s'.threads u = if u = t then p else s.threads u := fun u => by
    rw [hthreads]
    exact Function.update_apply ..
  exact {
    nodup := hcounted ▸ h.nodup
    owed := hcounted ▸ hrequested ▸ h.owed
    fresh call hc := (h.fresh call (hrequested ▸ hc)).trans_le hlength
    paid call hc := by
      rw [hcounted]
      refine (h.paid call (hrequested ▸ hc)).imp_right fun ⟨u, hu, howesu⟩ => ⟨u, ?_⟩
      rw [hthread]
      split
      next hut =>
        rw [hut] at hu howesu
        exact ⟨(hcall (howes.trans howesu)).trans hu, howes.trans howesu⟩
      next => exact ⟨hu, howesu⟩
    uncounted u call hu howesu := by
      rw [hcounted, hrequested]
      rw [hthread] at hu howesu
      split at hu
      next hut =>
        rw [if_pos hut] at howesu
        exact h.uncounted t call ((hcall howesu).symm.trans hu) (howes.symm.trans howesu)
      next hut =>
        rw [if_neg hut] at howesu
        exact h.uncounted u call hu howesu
    early u call hu hearlyu := by
      rw [hrequested]
      rw [hthread] at hu hearlyu
      split at hu
      next hut =>
        rw [if_pos hut] at hearlyu
        exact hearly hearlyu call hu
      next hut =>
        rw [if_neg hut] at hearlyu
        exact h.early u call hu hearlyu }

/-- A call stores `PENDING`. -/
theorem State.Counts.request (h : s.Counts) (hinv : s.Inv) {call : Nat}
    (hcall : (s.threads t).call = some call) (hearly : (s.threads t).early = true)
    (hthreads : s'.threads = Function.update s.threads t (.wait call))
    (hcalled : s'.called = s.called) (hrequested : s'.requested = s.requested ++ [call])
    (hcounted : s'.counted = s.counted) : s'.Counts := by
  have hthread : ∀ u, s'.threads u = if u = t then .wait call else s.threads u := fun u => by
    rw [hthreads]
    exact Function.update_apply ..
  have hnew := h.early t call hcall hearly
  have hmem : ∀ c ∈ s.requested, c ∈ s'.requested := fun c hc => by
    rw [hrequested]
    exact List.mem_append_left _ hc
  have hothers : ∀ u, u ≠ t → (s.threads u).call ≠ some call := fun u hu hcallu =>
    hu (hinv.distinct u t call hcallu hcall)
  exact {
    nodup := hcounted ▸ h.nodup
    owed c hc := hmem c (h.owed c (hcounted ▸ hc))
    fresh c hc := by
      rw [hrequested] at hc
      rw [hcalled]
      obtain hc | hc := List.mem_append.mp hc
      · exact h.fresh c hc
      · obtain rfl := List.mem_singleton.mp hc
        exact hinv.fresh t c hcall
    paid c hc := by
      rw [hcounted]
      rw [hrequested] at hc
      obtain hc | hc := List.mem_append.mp hc
      · refine (h.paid c hc).imp_right fun ⟨u, hu, howesu⟩ => ⟨u, ?_⟩
        rw [hthread, if_neg fun hut => ?_]
        · exact ⟨hu, howesu⟩
        · rw [hut] at hu
          exact hnew (Option.some.inj (hu.symm.trans hcall) ▸ hc)
      · obtain rfl := List.mem_singleton.mp hc
        refine .inr ⟨t, ?_⟩
        rw [hthread, if_pos rfl]
        exact ⟨rfl, rfl⟩
    uncounted u c hu howesu := by
      rw [hcounted]
      rw [hthread] at hu howesu
      split at hu
      next hut =>
        obtain rfl : call = c := Option.some.inj hu
        refine ⟨hrequested ▸ List.mem_append_right _ (List.mem_singleton_self _), fun hc => ?_⟩
        exact hnew (h.owed _ hc)
      next hut =>
        rw [if_neg hut] at howesu
        obtain ⟨hc, hnot⟩ := h.uncounted u c hu howesu
        exact ⟨hmem c hc, hnot⟩
    early u c hu hearlyu := by
      rw [hthread] at hu hearlyu
      split at hu
      next hut =>
        rw [if_pos hut] at hearlyu
        cases hearlyu
      next hut =>
        rw [if_neg hut] at hearlyu
        rw [hrequested, List.mem_append, List.mem_singleton]
        rintro (hc | rfl)
        · exact h.early u c hu hearlyu hc
        · exact hothers u hut hu }

/-- A call is counted. -/
theorem State.Counts.count (h : s.Counts) (hinv : s.Inv) {n : Nat} {p : CallPc}
    (hcall : (s.threads t).call = some n) (howes : (s.threads t).owes = true)
    (hthreads : s'.threads = Function.update s.threads t p) (hp : p.owes = false)
    (hearly : p.early = false) (hcalled : s'.called = s.called)
    (hrequested : s'.requested = s.requested) (hcounted : s'.counted.Perm (n :: s.counted)) :
    s'.Counts := by
  have hthread : ∀ u, s'.threads u = if u = t then p else s.threads u := fun u => by
    rw [hthreads]
    exact Function.update_apply ..
  obtain ⟨hcallreq, hnew⟩ := h.uncounted t n hcall howes
  have hmem : ∀ c, c ∈ s'.counted ↔ c = n ∨ c ∈ s.counted := fun c =>
    hcounted.mem_iff.trans List.mem_cons
  exact {
    nodup := hcounted.nodup_iff.mpr (List.nodup_cons.mpr ⟨hnew, h.nodup⟩)
    owed c hc := by
      rw [hrequested]
      obtain rfl | hc := (hmem c).mp hc
      · exact hcallreq
      · exact h.owed c hc
    fresh := hcalled ▸ hrequested ▸ h.fresh
    paid c hc := by
      rw [hmem]
      rcases eq_or_ne c n with rfl | hne
      · exact .inl (.inl rfl)
      · refine (h.paid c (hrequested ▸ hc)).imp .inr fun ⟨u, hu, howesu⟩ => ⟨u, ?_⟩
        rw [hthread, if_neg fun hut => ?_]
        · exact ⟨hu, howesu⟩
        · rw [hut] at hu
          exact hne (Option.some.inj (hu.symm.trans hcall))
    uncounted u c hu howesu := by
      rw [hthread] at hu howesu
      split at hu
      next hut =>
        rw [if_pos hut, hp] at howesu
        cases howesu
      next hut =>
        rw [if_neg hut] at howesu
        obtain ⟨hc, hnot⟩ := h.uncounted u c hu howesu
        refine ⟨hrequested ▸ hc, fun hc' => ?_⟩
        obtain rfl | hc' := (hmem c).mp hc'
        · exact hut (hinv.distinct u t c hu hcall)
        · exact hnot hc'
    early u c hu hearlyu := by
      rw [hrequested]
      rw [hthread] at hu hearlyu
      split at hu
      next hut =>
        rw [if_pos hut, hearly] at hearlyu
        cases hearlyu
      next hut =>
        rw [if_neg hut] at hearlyu
        exact h.early u c hu hearlyu }

theorem State.Counts.callStep (h : s.Counts) (hinv : s.Inv) {ok : Bool}
    (hs' : s.callStep t ok (s.threads t) = some s') : s'.Counts := by
  have hknows := hinv.calls t
  cases hpc : s.threads t with
  | idle =>
      rw [hpc] at hs'
      cases hs'
  | claim call request =>
      have hnew := h.early t call (by rw [hpc]; rfl) (by rw [hpc]; rfl)
      rw [hpc, State.callStep] at hs'
      split at hs'
      · cases hs'
        refine h.move rfl le_rfl rfl rfl (by rw [hpc]; rfl) (fun hp => by cases hp) fun _ c hc => ?_
        cases hc
        exact hnew
      · cases hs'
        exact h.move rfl le_rfl rfl rfl (by rw [hpc]; rfl) (fun hp => by cases hp)
          (fun hp => by cases hp)
  | writing call pc =>
      have hnew := h.early t call (by rw [hpc]; rfl) (by rw [hpc]; rfl)
      have hwrites : ∀ {s' : State τ} {pc}, s'.threads =
          Function.update s.threads t (.writing call pc) → s'.called = s.called →
          s'.requested = s.requested → s'.counted = s.counted → s'.Counts :=
        fun hthreads hcalled hrequested hcounted =>
          h.move hthreads (by rw [hcalled]) hrequested hcounted (by rw [hpc]; rfl)
            (fun hp => by cases hp) fun _ c hc => by cases hc; exact hnew
      rw [hpc] at hs'
      cases hs'
      cases pc with
      | capture request =>
          rw [State.writingStep]
          split <;> exact hwrites rfl rfl rfl rfl
      | abandon =>
          exact h.move rfl le_rfl rfl rfl (by rw [hpc]; rfl) (fun hp => by cases hp)
            (fun hp => by cases hp)
      | storePending =>
          exact h.request hinv (by rw [hpc]; rfl) (by rw [hpc]; rfl) rfl rfl rfl rfl
      | _ => exact hwrites rfl rfl rfl rfl
  | wait call =>
      rw [hpc, State.callStep] at hs'
      split at hs' <;> cases hs'
      exact h.move rfl le_rfl rfl rfl (by rw [hpc]; rfl) (fun _ => by rw [hpc]; rfl)
        (fun hp => by cases hp)
  | loadState call timedOut =>
      rw [hpc] at hknows
      rw [hpc, State.callStep] at hs'
      obtain hslot | hslot | hslot := SlotState.waited_cases hknows.1 <;> rw [hslot] at hs' <;>
        cases hs' <;> exact h.move rfl le_rfl rfl rfl (by rw [hpc]; rfl) (fun _ => by rw [hpc]; rfl)
          (fun hp => by cases hp)
  | loadResult call =>
      rw [hpc, State.callStep] at hs'
      split at hs' <;> cases hs' <;>
        exact h.move rfl le_rfl rfl rfl (by rw [hpc]; rfl) (fun _ => by rw [hpc]; rfl)
          (fun hp => by cases hp)
  | apply call =>
      rw [hpc, State.callStep] at hs'
      split at hs' <;> cases hs' <;>
        exact h.move rfl le_rfl rfl rfl (by rw [hpc]; rfl) (fun _ => by rw [hpc]; rfl)
          (fun hp => by cases hp)
  | addDecision call follow applied =>
      rw [hpc] at hs'
      cases hs'
      refine h.count hinv (n := call) (by rw [hpc]; rfl) (by rw [hpc]; rfl) rfl rfl rfl rfl rfl ?_
      show (s.decisions ++ [call] ++ s.timeouts).Perm (call :: (s.decisions ++ s.timeouts))
      rw [List.append_assoc]
      exact List.perm_middle
  | storeIdle call follow applied =>
      rw [hpc] at hs'
      cases hs'
      exact h.move rfl le_rfl rfl rfl (by rw [hpc]; rfl) (fun hp => by cases hp)
        (fun hp => by cases hp)
  | cancelPending call timedOut =>
      rw [hpc, State.callStep] at hs'
      split at hs' <;> cases hs' <;>
        exact h.move rfl le_rfl rfl rfl (by rw [hpc]; rfl) (fun _ => by rw [hpc]; rfl)
          (fun hp => by cases hp)
  | cancelHandling call timedOut =>
      rw [hpc, State.callStep] at hs'
      split at hs' <;> cases hs' <;>
        exact h.move rfl le_rfl rfl rfl (by rw [hpc]; rfl) (fun _ => by rw [hpc]; rfl)
          (fun hp => by cases hp)
  | addTimeout call timedOut =>
      rw [hpc] at hs'
      cases hs'
      refine h.count hinv (n := call) (by rw [hpc]; rfl) (by rw [hpc]; rfl) rfl rfl rfl rfl rfl ?_
      show (s.decisions ++ (s.timeouts ++ [call])).Perm (call :: (s.decisions ++ s.timeouts))
      rw [← List.append_assoc]
      exact List.perm_append_singleton call _

end

theorem State.Counts.scriptStep (h : s.Counts) (hs' : s.scriptStep s.script = some s') :
    s'.Counts := by
  have hsame : s'.threads = s.threads ∧ s'.called = s.called ∧ s'.requested = s.requested ∧
      s'.counted = s.counted := by
    cases hpc : s.script <;> rw [hpc, State.scriptStep] at hs' <;>
      first | cases hs'; done | (cases hs'; try split) <;> exact ⟨rfl, rfl, rfl, rfl⟩
  exact h.congr hsame.1 hsame.2.1 hsame.2.2.1 hsame.2.2.2

/-! ## Runs -/

/-- What every step keeps. -/
structure State.Ok (s : State τ) : Prop where
  inv : s.Inv
  counts : s.Counts

theorem State.Ok.decisionsMatch (h : s.Ok) : s.DecisionsMatch where
  followed := h.inv.followed
  timely t call timedOut ht := by
    have hknows := h.inv.calls t
    rwa [ht] at hknows
  counted := h.counts.nodup
  paid call hc hover := by
    obtain hc | ⟨t, ht, -⟩ := h.counts.paid call hc
    · exact hc
    · exact absurd ht (hover t)
  owed := h.counts.owed
  idle call howner hover hunvisited := by
    by_contra hslot
    cases hheld : s.slot.held with
    | true =>
        obtain ⟨t, ht⟩ := h.inv.held hheld
        exact hover t ((h.inv.owner t ht).trans howner)
    | false =>
        have hcancelled : s.slot = .cancelled := by
          cases hs : s.slot <;> rw [hs] at hheld hslot <;>
            first | rfl | exact absurd rfl hslot | cases hheld
        obtain hu | ⟨t, c, timedOut, ht, hc⟩ := h.inv.cancelled hcancelled
        · rw [hunvisited] at hu
          cases hu
        · refine hover t ?_
          rw [ht, ← howner, hc]
          rfl

theorem State.init_ok (base : Option (List Bytes)) : (State.init τ base).Ok where
  inv := {
    unique := fun t u ht => by cases ht
    held := fun hslot => by cases hslot
    owner := fun t ht => by cases ht
    fresh := fun t call ht => by cases ht
    distinct := fun t u call ht => by cases ht
    calls := fun _ => trivial
    script := trivial
    handling := fun hslot => by cases hslot
    quiet := fun hslot => by simp [State.init] at hslot
    request := fun hslot => by simp [State.init] at hslot
    decided := fun hslot => by cases hslot
    cancelled := fun hslot => by cases hslot
    followed := fun r hr => by cases hr }
  counts := {
    nodup := List.nodup_nil
    owed := fun call hc => by cases hc
    fresh := fun call hc => by cases hc
    paid := fun call hc => by cases hc
    uncounted := fun t call ht => by cases ht
    early := fun t call ht => by cases ht }

variable [DecidableEq τ]

/-- A quiet step keeps the invariant. -/
theorem State.Ok.step (h : s.Ok) {a : Action τ} (hquiet : s.Quiet a) (hs' : s.step a = some s') :
    s'.Ok := by
  cases a with
  | call t request =>
      rw [State.step] at hs'
      split at hs' <;> cases hs'
      next hpc =>
        refine ⟨h.inv.call hpc, h.counts.move rfl (by simp) rfl rfl (by rw [hpc]; rfl)
          (fun hp => by cases hp) fun _ c hc hmem => ?_⟩
        cases hc
        exact lt_irrefl _ (h.counts.fresh _ hmem)
  | thread t ok => exact ⟨h.inv.callStep hquiet hs', h.counts.callStep h.inv hs'⟩
  | timeout t =>
      rw [State.step] at hs'
      split at hs' <;> cases hs'
      next call hpc =>
        have hknows := h.inv.calls t
        rw [hpc] at hknows
        refine ⟨?_, h.counts.move rfl le_rfl rfl rfl (by rw [hpc]; rfl) (fun _ => by rw [hpc]; rfl)
          (fun hp => by cases hp)⟩
        exact h.inv.wait (p := .loadState call true) (l := s.decisions) (by rw [hpc]; rfl) rfl
          (by rw [hpc]; rfl) ⟨hknows, fun hf => by cases hf⟩
  | takePending =>
      rw [State.step] at hs'
      split at hs' <;> cases hs'
      next hpc =>
        refine ⟨h.inv.scriptGoto nofun trivial fun hslot => ?_, h.counts.congr rfl rfl rfl rfl⟩
        have hholds := h.inv.handling hslot
        rw [hpc] at hholds
        cases hholds
  | complete d =>
      rw [State.step] at hs'
      split at hs' <;> cases hs'
      next handle hpc =>
        have hknows := h.inv.script
        rw [hpc] at hknows
        have hgrows : s.Grows { s with
            script := .checkGeneration handle d, completions := s.completions ++ [(handle, d)] } :=
          ⟨rfl, fun _ _ hr => hr, fun _ hm => List.mem_append_left _ hm⟩
        refine ⟨?_, h.counts.congr rfl rfl rfl rfl⟩
        refine h.inv.scripted hgrows rfl rfl le_rfl rfl
          (fun u _ => (h.inv.calls u).congr hgrows rfl rfl (fun _ => rfl)
            fun _ hsem _ => ⟨hsem, nofun⟩)
          id ⟨hknows.1, hknows.2.1, hknows.2.2, ?_⟩ (fun _ => rfl)
          (fun hsl => ⟨(h.inv.quiet hsl).1, nofun⟩) (fun hsl => ⟨hsl, rfl⟩)
          (fun hsl hf c hc => (h.inv.decided hsl hf c hc).mono hgrows) (fun hsl => ⟨hsl, rfl⟩)
        exact List.mem_append_right _ (List.mem_singleton_self _)
  | script => exact ⟨h.inv.scriptStep hs', h.counts.scriptStep hs'⟩

omit [DecidableEq τ] in
theorem CallPc.eq_of_clears {pc : CallPc} (h : pc.clears = true) :
    ∃ call, pc = .writing call .clearSemaphore := by
  cases pc with
  | writing call pc =>
      cases pc with
      | clearSemaphore => exact ⟨call, rfl⟩
      | _ => cases h
  | _ => cases h

/-- A call that clears the semaphore before a late set can be woken by it. -/
theorem State.woken_early {call : Nat} {ok : Bool}
    (hpc : s.threads t = .writing call .clearSemaphore) (hscript : s.script = .signal)
    (hs' : s.step (.thread t ok) = some s') :
    ∃ as s'', run State.step s' as = some s'' ∧ s''.threads t = .addTimeout call false := by
  rw [State.step, hpc] at hs'
  cases hs'
  have hwoken : (run State.step ({ s.goto t (.writing call .storePending) with semaphore := false })
      [.thread t true, .script, .thread t true, .thread t true, .thread t true]).map
      (fun s => s.threads t) = some (.addTimeout call false) := by
    simp [run, State.step, State.callStep, State.writingStep, State.scriptStep, State.goto, hscript]
  exact ⟨_, Option.map_eq_some_iff.mp hwoken⟩

/-- Decisions belong to their request in the runs in which no call clears the
semaphore while `complete` is going to set it.  After such a run a call that
clears it earlier can be cancelled before its own wait has timed out. -/
theorem follow_exact {base : Option (List Bytes)} {as : List (Action τ)}
    (hquiet : Guarded State.step State.Quiet (State.init τ base) as) :
    Always State.step State.DecisionsMatch (State.init τ base) as ∧
      ∀ s s' a, run State.step (State.init τ base) as = some s → s.step a = some s' →
        ¬ s.Quiet a → ∃ bs s'', run State.step s' bs = some s'' ∧ ¬ s''.DecisionsMatch := by
  constructor
  · intro bs s hbs hrun
    have hok := hquiet.always (fun h ha hs' => h.step ha hs') (State.init_ok base) bs s hbs hrun
    exact hok.decisionsMatch
  · intro s s' a hrun hs' hnot
    cases a with
    | thread t ok =>
        obtain ⟨hclears, hscript⟩ : (s.threads t).clears = true ∧ s.script = .signal := by
          simpa [State.Quiet] using hnot
        obtain ⟨call, hpc⟩ := CallPc.eq_of_clears hclears
        obtain ⟨bs, s'', hs'', hwoken⟩ := State.woken_early hpc hscript hs'
        refine ⟨bs, s'', hs'', fun hgood => ?_⟩
        cases hgood.timely t call false hwoken
    | _ => exact absurd trivial hnot

/-- A child is requested and taken by the scripting thread. -/
def takenRun : List (Action (Fin 2)) :=
  .call 0 ⟨7, []⟩ :: List.replicate 8 (.thread 0 true) ++ .takePending :: List.replicate 3 .script

/-- The scripts decide to follow the child, up to the set of the semaphore. -/
def decidedRun : List (Action (Fin 2)) :=
  takenRun ++ .complete ⟨true, 4001, 4000⟩ :: List.replicate 4 .script

/-- The child is followed. -/
def followedRun : List (Action (Fin 2)) :=
  decidedRun ++ .script :: List.replicate 6 (.thread 0 true)

theorem followedRun_good :
    Guarded State.step State.Quiet (State.init (Fin 2) (some [separator])) followedRun ∧
      (run State.step (State.init (Fin 2) (some [separator])) followedRun).map
        (fun s => s.returned.map Return.follow) = some [true] ∧
      Always State.step State.DecisionsMatch (State.init (Fin 2) (some [separator])) followedRun :=
  have hquiet : Guarded State.step State.Quiet (State.init (Fin 2) (some [separator]))
      followedRun := by
    decide +kernel
  ⟨hquiet, by decide +kernel, (follow_exact hquiet).1⟩

/-- The wait of the first call times out before the semaphore is set, and it takes
the decision.  The late set wakes a second call. -/
def lateRun : List (Action (Fin 2)) :=
  decidedRun ++ .timeout 0 :: List.replicate 5 (.thread 0 true) ++
    .call 1 ⟨8, []⟩ :: List.replicate 8 (.thread 1 true) ++ .script ::
    List.replicate 3 (.thread 1 true)

/-- The second call is cancelled although its wait has not timed out. -/
theorem woken_by_earlier :
    ∃ s, run State.step (State.init (Fin 2) (some [separator])) lateRun = some s ∧
      s.slot = .cancelled ∧ s.threads 1 = .addTimeout 1 false ∧ ¬ s.DecisionsMatch := by
  have hrun : (run State.step (State.init (Fin 2) (some [separator])) lateRun).map
      (fun s => (s.slot, s.threads 1)) = some (.cancelled, .addTimeout 1 false) := by
    decide +kernel
  obtain ⟨s, hs, heq⟩ := Option.map_eq_some_iff.mp hrun
  obtain ⟨hslot, hpc⟩ : s.slot = .cancelled ∧ s.threads 1 = .addTimeout 1 false := by
    simpa using heq
  refine ⟨s, hs, hslot, hpc, fun hgood => ?_⟩
  cases hgood.timely 1 1 false hpc

end PinBridge.Children
