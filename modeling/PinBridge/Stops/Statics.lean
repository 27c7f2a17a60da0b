import PinBridge.Stepping.Stepper
import PinBridge.Stops.Failure
import PinBridge.Stops.Machine

/-!
# The statics behind the stops

`Stops.Machine` keeps of a step what decides about hits: its thread, its start, its candidates
and two flags.  `Stepper.view` reads these from all the statics of `stepper.rs`, and each function
of the stepper does to the view what the machine says, except under `MODE_OVER`.  Only an `arm`
with `over` stores that mode, which `handle_step` never asks for.

The machine's redirected thread is the one in the park stub of `Stops.Failure`
(`State.redirected`), and an exact stop does the same to both.
-/

namespace PinBridge.Stepping

namespace Stepper

variable (p : Stepper)

/-- The published candidates. -/
def published : List UInt64 :=
  ((List.finRange maxCandidates).map p.candidates).take p.candidateCount

/-- What the statics say about hits. -/
def view : Stops.Stepper UInt32 where
  tid := some p.tid
  startIp := p.startIp
  into := p.mode != .candidates
  stepping := p.stepping
  replayPending := p.replayPending
  candidates := p.published

variable {pin : PinAnswers} {tid : UInt32} {address : UInt64}

/-! ## Arming -/

/-- An armed fallback. -/
theorem view_arm (h : pin.passthrough tid = true) :
    (p.arm pin tid address).2.view = .arm tid address [] := by
  simp [arm, armTfCompat, h, view, published, Stops.Stepper.arm]

/-- Published candidates are read back. -/
theorem published_publishCandidates (p : Stepper) (tid : UInt32) (address : UInt64)
    (candidates : List UInt64) :
    (p.publishCandidates tid address candidates).2.published = candidates.take maxCandidates := by
  refine List.ext_getElem ?_ fun i h h' => ?_
  · simp [published, publishCandidates, Nat.min_comm]
  · have hi : i < candidates.length := by
      simp only [List.length_take] at h'
      omega
    simp [published, publishCandidates, List.getElem?_eq_getElem hi]

/-- What an armed decoded step has published. -/
theorem armCandidates_of_some {candidates : List UInt64} {count : Nat}
    (h : (p.armCandidates pin tid address candidates).1 = some count) :
    candidates ≠ [] ∧ (p.armCandidates pin tid address candidates).2 =
      { (p.publishCandidates tid address candidates).2 with tfCompatTid := tid } := by
  simp only [armCandidates, publishCandidates, armTfCompat] at h ⊢
  cases hcount : min candidates.length maxCandidates with
  | zero =>
      rw [hcount] at h
      cases h
  | succ n =>
      refine ⟨fun hnil => ?_, ?_⟩
      · rw [hnil] at hcount
        cases hcount
      · rw [hcount] at h
        cases hpass : pin.passthrough tid with
        | false =>
            rw [hpass] at h
            cases h
        | true =>
            rw [hpass] at h
            cases hall : (candidates.take (n + 1)).all pin.invalidate with
            | false =>
                simp only [if_true, hall] at h
                cases h
            | true => simp only [if_true, hall]

/-- An armed decoded step. -/
theorem view_armCandidates {candidates : List UInt64} {count : Nat}
    (h : (p.armCandidates pin tid address candidates).1 = some count) :
    (p.armCandidates pin tid address candidates).2.view = .arm tid address candidates := by
  obtain ⟨hne, heq⟩ := p.armCandidates_of_some h
  have hcount : min candidates.length maxCandidates ≠ 0 := by simpa using hne
  have hpublished := p.published_publishCandidates tid address candidates
  rw [heq, view, Stops.Stepper.arm, ← hpublished, List.isEmpty_eq_false_iff.mpr hne]
  simp only [publishCandidates, Stops.Stepper.mk.injEq]
  exact ⟨trivial, trivial, rfl, by simpa using hcount, trivial, rfl⟩

/-- A cancelled step. -/
theorem view_cancel : p.cancel.view = p.view.cancel := by
  simp only [cancel, view, published, List.take_zero, Stops.Stepper.cancel]

/-! ## Landing -/

theorem published_getD (index : Fin maxCandidates) :
    p.published[index.val]?.getD 0 = p.candidateAddress index := by
  rw [published, candidateAddress]
  split
  next h => simp [h]
  next h =>
    simp only [ge_iff_le, not_le] at h
    simp [h]

/-- A candidate is the same for the machine. -/
theorem view_candidateAddress (index : Fin maxCandidates) :
    p.view.candidateAddress index = p.candidateAddress index :=
  p.published_getD index

/-- The replay of the start. -/
theorem view_consumeStartReplay (tid : UInt32) (address : UInt64) :
    (p.consumeStartReplay tid address).1 = p.view.replays tid address ∧
      (p.consumeStartReplay tid address).2.view =
        if p.view.replays tid address then { p.view with replayPending := false } else p.view := by
  rw [consumeStartReplay]
  by_cases hmatch : !p.stepping || p.tid ≠ tid || p.startIp ≠ address
  · have hno : p.view.replays tid address = false := by
      simp only [Stops.Stepper.replays, view]
      grind
    rw [if_pos (by simpa using hmatch), hno]
    exact ⟨rfl, rfl⟩
  · have hreplays : p.view.replays tid address = p.replayPending := by
      simp only [Stops.Stepper.replays, view]
      grind
    rw [if_neg (by simpa using hmatch), hreplays]
    refine ⟨rfl, ?_⟩
    split
    next => rfl
    next hno => simp only [view, published, Bool.eq_false_iff.mpr hno]

/-- A claimed candidate ends the step. -/
theorem view_claimCandidate (index : Fin maxCandidates) :
    (p.claimCandidate index tid).1 =
        (if p.view.claims index tid then some (p.view.candidateAddress index) else none) ∧
      (p.claimCandidate index tid).2.view =
        if p.view.claims index tid then { p.view with stepping := false } else p.view := by
  have hclaims : p.view.claims index tid = true ↔
      index.val < p.candidateCount ∧ p.mode = .candidates ∧ p.tid = tid ∧
        p.candidates index ≠ 0 ∧ p.stepping = true := by
    rw [Stops.Stepper.claims, view_candidateAddress, candidateAddress]
    simp only [view]
    grind
  by_cases hclaim : p.view.claims index tid = true
  · obtain ⟨hindex, hmode, htid, hne, hstepping⟩ := hclaims.mp hclaim
    rw [if_pos hclaim, if_pos hclaim, claimCandidate, if_neg (by simp [hindex, hmode, htid]),
      if_neg (by simp [hne, hstepping]), view_candidateAddress, candidateAddress,
      if_neg (by omega), disarmTfCompat]
    refine ⟨rfl, ?_⟩
    split <;> rfl
  · have hnone : p.claimCandidate index tid = (none, p) := by
      rw [claimCandidate]
      split_ifs with h h'
      · rfl
      · rfl
      · refine absurd (hclaims.mpr ?_) hclaim
        grind
    rw [if_neg hclaim, if_neg hclaim, hnone]
    exact ⟨rfl, rfl⟩

theorem view_into (h : p.mode ≠ .over) : p.view.into = decide (p.mode = .into) := by
  rw [view]
  match hmode : p.mode with
  | .into => rfl
  | .over => exact absurd hmode h
  | .candidates => rfl

@[simp] theorem view_disarmTfCompat : (p.disarmTfCompat tid).view = p.view := by
  rw [disarmTfCompat]
  split <;> rfl

theorem consumeStartReplay_mode (tid : UInt32) (address : UInt64) :
    (p.consumeStartReplay tid address).2.mode = p.mode := by
  rw [consumeStartReplay]
  split <;> rfl

/-- A step event, but for `MODE_OVER`. -/
theorem view_onStepEvent (h : p.mode ≠ .over) (parks : Bool) :
    (p.onStepEvent tid address parks).2.view = p.view.onStepEvent tid address parks := by
  obtain ⟨hreplays, hview⟩ := p.view_consumeStartReplay tid address
  have hmode := p.consumeStartReplay_mode tid address
  have hown : (p.view.stepping && p.view.tid == some tid) = true ↔
      p.stepping = true ∧ p.tid = tid := by
    simp [view]
  rw [onStepEvent, Stops.Stepper.onStepEvent]
  by_cases hstep : p.stepping = true ∧ p.tid = tid
  · rw [if_neg (by simp [hstep]), if_pos (hown.mpr hstep), ← hreplays]
    rw [← hreplays] at hview
    generalize p.consumeStartReplay tid address = consumed at hview hmode ⊢
    obtain ⟨replays, q⟩ := consumed
    cases replays with
    | true => exact hview
    | false =>
        have hq : q.view = p.view := hview
        have hinto : (q.view.into && parks) = (decide (q.mode = .into) && parks) := by
          rw [q.view_into (by rwa [hmode])]
        simp only [Bool.false_eq_true, if_false, ← hq]
        by_cases hqinto : q.mode = .into
        · rw [if_neg (not_not.mpr hqinto), hinto, decide_eq_true hqinto, Bool.true_and]
          cases parks with
          | true =>
              show { (q.disarmTfCompat tid).view with stepping := false } = _
              rw [view_disarmTfCompat]
              rfl
          | false => exact q.view_disarmTfCompat
        · rw [if_pos hqinto, hinto, decide_eq_false hqinto, Bool.false_and]
          rfl
  · rw [if_pos (by grind), if_neg (hown.not.mpr hstep)]

end Stepper

end PinBridge.Stepping

namespace PinBridge.StopFailure

/-- The thread in the park stub. -/
def State.redirected (s : State) : Option (UInt32 × UInt64) :=
  if s.stub.active then some (s.stub.tid, s.stub.address) else none

/-- The stub exists, its target slot holds the address, and the context can be written. -/
def State.redirects (pin : Pin) (s : State) (address : UInt64) (context sets : Bool) : Bool :=
  context && sets && s.stub.base != 0 && (pin.is64 || address < 0x100000000)

/-- What `redirect_arm` decides, and what it does to the redirected thread. -/
theorem State.redirectArm_spec (pin : Pin) (s : State) (tid : UInt32) (address : UInt64) :
    (s.redirectArm pin tid address).1 =
        (s.redirects pin address true true && s.redirected.isNone) ∧
      (s.redirectArm pin tid address).2.redirected =
        (if (s.redirectArm pin tid address).1 then some (tid, address) else s.redirected) ∧
      (s.redirectArm pin tid address).2.lastHit = s.lastHit := by
  rw [redirectArm, redirects, redirected]
  split_ifs <;> grind [redirected]

theorem State.releaseRedirect_spec (s : State) :
    s.releaseRedirect.redirected = none ∧ s.releaseRedirect.lastHit = s.lastHit := by
  rw [releaseRedirect, redirected]
  split_ifs <;> grind

/-- An exact stop notes the same hit and redirects the same thread. -/
theorem exactStop_agrees {pin : Pin} {s : State} {m : Stops.State UInt32}
    (h : m.redirect = s.redirected) (tid : UInt32) (address : UInt64) (context sets : Bool) :
    (m.exactStop tid address (s.redirects pin address context sets)).state.redirect =
        (s.exactStop pin tid address context sets).redirected ∧
      (m.exactStop tid address (s.redirects pin address context sets)).state.lastHit =
        (s.exactStop pin tid address context sets).lastHit := by
  let noted : State := { s with lastHit := some (tid, address) }
  obtain ⟨harm, hredirected, hhit⟩ := State.redirectArm_spec pin noted tid address
  have hidle (redirects : Bool) (hno : (redirects && m.redirect.isNone) = false) :
      (m.exactStop tid address redirects).state = { m with lastHit := some (tid, address) } := by
    rw [Stops.State.exactStop, if_neg (Bool.eq_false_iff.mp hno)]
  rw [State.exactStop]
  cases context with
  | false =>
      rw [hidle _ rfl]
      exact ⟨h, rfl⟩
  | true =>
      have hfree : (s.redirects pin address true true && m.redirect.isNone) =
          (noted.redirectArm pin tid address).1 := by
        rw [harm, h]
        rfl
      simp only [if_true]
      generalize noted.redirectArm pin tid address = armed at hredirected hhit hfree ⊢
      obtain ⟨granted, armed⟩ := armed
      cases granted with
      | false =>
          have hno : (s.redirects pin address true sets && m.redirect.isNone) = false := by
            cases sets with
            | false => simp [State.redirects]
            | true => exact hfree
          rw [hidle _ hno]
          exact ⟨h.trans hredirected.symm, hhit.symm⟩
      | true =>
          cases sets with
          | false =>
              rw [hidle _ (by simp [State.redirects])]
              have hnone := Option.isNone_iff_eq_none.mp (Bool.and_eq_true _ _ ▸ hfree).2
              obtain ⟨hreleased, hkept⟩ := State.releaseRedirect_spec armed.requestStop
              exact ⟨hnone.trans hreleased.symm, (hkept.trans hhit).symm⟩
          | true =>
              rw [Stops.State.exactStop, if_pos hfree]
              exact ⟨hredirected.symm, hhit.symm⟩

end PinBridge.StopFailure
