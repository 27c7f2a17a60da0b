import PinBridge.Recorder.Step

/-!
# The producer count across sessions

`IN_FLIGHT` should be the number of threads between the `fetch_add` and the
`fetch_sub` of `submit`.  Every access keeps that except one: `start_spec`
stores zero into the counter.  A thread that passed the first `ARMED` check of
the previous session may be inside `submit` at that moment.  Its `fetch_sub` then
takes the counter below zero.

The runs on which the count stays exact are the ones in which the store of
`start_spec` meets no thread inside.
-/

namespace PinBridge.Recorder

open Transition

variable {pool : Pool}

/-- The number of threads between `fetch_add` and `fetch_sub`. -/
def State.insideCount (s : State pool) : Nat :=
  Tally.count (fun pc : SubmitPc => pc.inside = true) s.threads

/-- `IN_FLIGHT` is exact. -/
def State.InFlightExact (s : State pool) : Prop := s.statics.inFlight = s.insideCount

/-- About to execute the `IN_FLIGHT` store of `start_spec`. -/
def ControlPc.resetsInFlight : ControlPc → Bool
  | .reset _ .inFlight _ => true
  | _ => false

/-- The `IN_FLIGHT` store of `start_spec` meets no thread inside `submit`. -/
def quietReset (s : State pool) : Action pool → Prop
  | .control _ => s.control.resetsInFlight = true → ∀ t, (s.threads t).inside = false
  | _ => True

instance (s : State pool) : (a : Action pool) → Decidable (quietReset s a)
  | .control _ =>
      inferInstanceAs
        (Decidable (s.control.resetsInFlight = true → ∀ t, (s.threads t).inside = false))
  | .call _ _ | .submit _ _ | .start _ | .stop | .drain _ => isTrue trivial

theorem State.insideCount_le (s : State pool) : s.insideCount ≤ 2 ^ 32 := by
  have := Tally.count_le_card (p := fun pc : SubmitPc => pc.inside = true) (g := s.threads)
  rw [Fintype.card_fin] at this
  exact this.trans pool.size_le

theorem State.insideCount_eq_zero (s : State pool) :
    s.insideCount = 0 ↔ ∀ t, (s.threads t).inside = false := by
  unfold State.insideCount
  rw [Tally.count_eq_zero]
  simp

/-! ## The accesses of the parties -/

/-- A producer changes the counter exactly when it crosses the boundary. -/
theorem submitStep_inFlight {g g' : Statics} {h h' : History} {spurious : Bool} {pc pc' : SubmitPc}
    (hstep : submitStep g h spurious pc = some (g', h', pc')) :
    (pc'.inside = pc.inside ∧ g'.inFlight = g.inFlight) ∨
      (pc.inside = false ∧ pc'.inside = true ∧ g'.inFlight = wrappingAdd g.inFlight 1) ∨
      (pc.inside = true ∧ pc'.inside = false ∧ g'.inFlight = wrappingSub g.inFlight 1) := by
  cases pc with
  | idle => cases hstep
  | enter event =>
      cases hstep
      exact .inr (.inl ⟨rfl, rfl, rfl⟩)
  | leave recorded =>
      cases hstep
      exact .inr (.inr ⟨rfl, rfl, rfl⟩)
  | recheckArmed event | exchange event cap current =>
      simp only [submitStep] at hstep
      split at hstep <;> cases hstep <;> exact .inl ⟨rfl, rfl⟩
  | loadSlab event | checkArmed event | loadCap event | loadDrained event cap current =>
      cases hstep
      left
      constructor
      · split <;> rfl
      · rfl
  | loadClaim event cap | overflow | writePayload event cap claim | storeTag event cap claim =>
      cases hstep
      exact .inl ⟨rfl, rfl⟩

/-- The drain thread reads the counter and does not write it. -/
theorem drainStep_inFlight {g g' : Statics} {h h' : History} {file file' : Option (List Event)}
    {ok : Bool} {pc pc' : DrainPc}
    (hstep : drainStep g h file ok pc = some (g', h', file', pc')) :
    g'.inFlight = g.inFlight := by
  cases pc with
  | absent => cases hstep
  | readPayload l | finalFlush l | writeStop l recorded =>
      simp only [drainStep] at hstep
      split at hstep <;> cases hstep <;> rfl
  | _ =>
      cases hstep
      rfl

/-- The query server writes the counter in the reset and nowhere else. -/
theorem controlStep_inFlight {s s' : State pool} {ok : Bool} {pc : ControlPc}
    (hstep : controlStep s ok pc = some s') :
    s'.threads = s.threads ∧
      s'.statics.inFlight = if pc.resetsInFlight then 0 else s.statics.inFlight := by
  cases pc with
  | idle => cases hstep
  | reset spec store rest =>
      cases hstep
      cases store <;> exact ⟨rfl, rfl⟩
  | flush ranges =>
      cases ranges <;> cases hstep <;> exact ⟨rfl, rfl⟩
  | stopPoll error left =>
      cases left <;> cases hstep <;> exact ⟨rfl, rfl⟩
  | _ =>
      cases hstep
      constructor <;> (repeat' split) <;> first | rfl | contradiction

/-! ## One step -/

/-- From an exact count, a step leads to an exact count if and only if it is not
the store of `start_spec` over a thread inside. -/
theorem inFlightExact_step {s s' : State pool} {a : Action pool} (hexact : s.InFlightExact)
    (hstep : step s a = some s') : s'.InFlightExact ↔ quietReset s a := by
  unfold State.InFlightExact at hexact ⊢
  cases a with
  | call t event =>
      refine iff_of_true ?_ trivial
      simp only [step] at hstep
      split at hstep
      case h_2 => cases hstep
      case h_1 hidle =>
        cases hstep
        rw [hexact]
        have hcount := Tally.count_update (p := fun pc : SubmitPc => pc.inside = true)
          (g := s.threads) t (.loadSlab event)
        rw [hidle] at hcount
        exact hcount.symm
  | submit t spurious =>
      refine iff_of_true ?_ trivial
      obtain ⟨⟨g, h, pc⟩, hsub, hs'⟩ := Option.map_eq_some_iff.mp hstep
      cases hs'
      have hcount := Tally.count_update (p := fun pc : SubmitPc => pc.inside = true)
        (g := s.threads) t pc
      have hle := s.insideCount_le
      have hpos : (s.threads t).inside = true → 0 < s.insideCount := fun hin =>
        Tally.count_pos (p := fun pc : SubmitPc => pc.inside = true) hin
      unfold State.insideCount at hexact hle hpos ⊢
      obtain ⟨hin, hfl⟩ | ⟨hin, hin', hfl⟩ | ⟨hin, hin', hfl⟩ := submitStep_inFlight hsub
      · rw [hin] at hcount
        simp only at hfl ⊢
        omega
      · simp only [hin, hin', Bool.false_eq_true, if_true, if_false] at hcount hfl ⊢
        rw [hfl, wrappingAdd_of_lt (by omega)]
        omega
      · have := hpos hin
        simp only [hin, hin', Bool.false_eq_true, if_true, if_false] at hcount hfl ⊢
        rw [hfl, wrappingSub_of_le (by omega) (by omega)]
        omega
  | start spec | stop =>
      refine iff_of_true ?_ trivial
      simp only [step] at hstep
      split at hstep <;> cases hstep
      exact hexact
  | control ok =>
      obtain ⟨hthreads, hfl⟩ := controlStep_inFlight hstep
      have hsame : s'.insideCount = s.insideCount := by
        unfold State.insideCount
        rw [hthreads]
      rw [hsame, hfl, quietReset, ← State.insideCount_eq_zero]
      by_cases hreset : s.control.resetsInFlight = true
      · rw [if_pos hreset, eq_comm]
        simp only [hreset, true_imp_iff]
      · rw [if_neg hreset]
        exact iff_of_true hexact fun h => absurd h hreset
  | drain ok =>
      refine iff_of_true ?_ trivial
      obtain ⟨⟨g, h, file, pc⟩, hdrain, hs'⟩ := Option.map_eq_some_iff.mp hstep
      cases hs'
      exact (drainStep_inFlight hdrain).trans hexact

/-! ## Runs -/

/-- The count stays exact on a run of any number of sessions if and only if every
`IN_FLIGHT` store of `start_spec` meets no thread inside `submit`. -/
theorem inFlight_exact_iff (pool : Pool) (recordCap : Option Nat) (as : List (Action pool))
    (s : State pool) (hrun : run step (State.init pool recordCap) as = some s) :
    Always step State.InFlightExact (State.init pool recordCap) as ↔
      Guarded step quietReset (State.init pool recordCap) as := by
  refine Guarded.always_iff (I := fun _ => True) (fun _ _ => trivial)
    (fun _ hexact hstep => inFlightExact_step hexact hstep) trivial ?_ hrun
  exact ((State.insideCount_eq_zero _).mpr fun _ => rfl).symm

/-! ## A straggler -/

/-- A target with one thread. -/
def onePool : Pool := ⟨1, by decide⟩

def onlyThread : onePool.Thread := ⟨0, by decide⟩

/-- Record executed instructions in one page. -/
def execSpec : StartSpec := ⟨8, [(0x1000, 0x2000)], [], "trace.pbtr"⟩

/-- Call `start_spec` and take `steps` of its steps. -/
def startSession (steps : Nat) : List (Action onePool) :=
  .start execSpec :: List.replicate steps (.control true)

/-- Disarm, drain an empty session and return from `stop`. -/
def stopSession : List (Action onePool) :=
  .stop :: .control true :: List.replicate 11 (.drain true) ++ List.replicate 6 (.control true)

/-- A thread passes the first `ARMED` check, waits through the end of the session
and through the reset of the next one, and leaves. -/
def stragglerRun : List (Action onePool) :=
  startSession 19 ++ [.call onlyThread Event.empty, .submit onlyThread false,
    .submit onlyThread false] ++ stopSession ++ [.submit onlyThread false] ++ startSession 10 ++
    [.submit onlyThread false, .submit onlyThread false]

/-- The straggler leaves the counter at `2 ^ 64 - 1` while no thread is inside. -/
theorem inFlight_wraps : ¬ ∀ (pool : Pool) (recordCap : Option Nat) (as : List (Action pool))
    (s : State pool), run step (State.init pool recordCap) as = some s → s.InFlightExact := by
  intro hall
  have hmax : (run step (State.init onePool (some 1024)) stragglerRun).map
      (fun s => s.statics.inFlight) = some (2 ^ 64 - 1) := by decide +kernel
  obtain ⟨s, hrun, hs⟩ := Option.map_eq_some_iff.mp hmax
  have hexact := hall onePool (some 1024) stragglerRun s hrun
  have hle := s.insideCount_le
  unfold State.InFlightExact at hexact
  omega

/-- Two sessions one after the other, with a call of `submit` in the first. -/
theorem inFlight_exact_iff_run :
    Always step State.InFlightExact (State.init onePool (some 1024))
      (startSession 19 ++ [.call onlyThread Event.empty, .submit onlyThread false,
        .submit onlyThread false] ++ stopSession ++ startSession 16) := by
  have hrun : (run step (State.init onePool (some 1024))
      (startSession 19 ++ [.call onlyThread Event.empty, .submit onlyThread false,
        .submit onlyThread false] ++ stopSession ++ startSession 16)).isSome := by decide +kernel
  obtain ⟨s, hs⟩ := Option.isSome_iff_exists.mp hrun
  exact (inFlight_exact_iff onePool (some 1024) _ s hs).mpr (by decide +kernel)

end PinBridge.Recorder
