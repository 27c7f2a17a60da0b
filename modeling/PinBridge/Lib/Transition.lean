import Mathlib.Data.List.Infix
import Mathlib.Logic.Function.Basic

/-!
# Runs of partial transitions

A system is a function `step : σ → α → Option σ`.  An action is a scheduling
choice: which party moves, and what the environment answers.  `step s a = none`
says that `a` is not enabled in `s`.  `run` iterates `step` over a list of
actions, so a run on a concrete list of actions can be computed.

*Invariants.*  `run_invariant` lifts a property that every step preserves to
every state a run reaches.  Its guarded form `Guarded.invariant` asks for
preservation only at the steps a guard admits, for the runs all of whose steps
the guard admits.

*Histories.*  `Always` says that a property holds in every state a run visits,
its first state included.  `Guarded.always_iff` turns a guard that is exactly
what one step needs into an exact description of the runs on which the
property always holds.

*Families.*  `family` runs systems side by side that share nothing.
-/

namespace Transition

variable {σ α : Type*} (step : σ → α → Option σ)

/-- Take the actions of a list in order.  `none` when one of them is not
enabled. -/
def run : σ → List α → Option σ
  | s, [] => some s
  | s, a :: as => (step s a).bind fun t => run t as

@[simp] theorem run_nil (s : σ) : run step s [] = some s := rfl

theorem run_cons (s : σ) (a : α) (as : List α) :
    run step s (a :: as) = (step s a).bind fun t => run step t as := rfl

variable {step}

theorem run_cons_eq_some {s u : σ} {a : α} {as : List α} :
    run step s (a :: as) = some u ↔ ∃ t, step s a = some t ∧ run step t as = some u := by
  rw [run_cons, Option.bind_eq_some_iff]

/-- Runs compose. -/
theorem run_append {s : σ} {as bs : List α} :
    run step s (as ++ bs) = (run step s as).bind fun t => run step t bs := by
  induction as generalizing s with
  | nil => rfl
  | cons a as ih =>
      rw [List.cons_append, run_cons, run_cons, Option.bind_assoc]
      exact congrArg _ (funext fun t => ih)

/-! ## Guards and invariants -/

variable (step) in
/-- Every step of the run over `as` from `s` meets the guard `C`. -/
def Guarded (C : σ → α → Prop) : σ → List α → Prop
  | _, [] => True
  | s, a :: as => C s a ∧ ∀ t, step s a = some t → Guarded C t as

/-- A run on a concrete list of actions can be checked against a guard that
decides. -/
instance Guarded.decidable {C : σ → α → Prop} [∀ s a, Decidable (C s a)] :
    ∀ (s : σ) (as : List α), Decidable (Guarded step C s as)
  | _, [] => isTrue trivial
  | s, a :: as =>
      match h : step s a with
      | none => decidable_of_iff (C s a) (by simp [Guarded, h])
      | some t =>
          let _ := Guarded.decidable (C := C) t as
          decidable_of_iff (C s a ∧ Guarded step C t as) (by simp [Guarded, h])

theorem Guarded.mono {C D : σ → α → Prop} (hCD : ∀ s a, C s a → D s a) :
    ∀ {s : σ} {as : List α}, Guarded step C s as → Guarded step D s as
  | _, [], _ => trivial
  | s, a :: _, ⟨ha, hrest⟩ => ⟨hCD s a ha, fun t ht => Guarded.mono hCD (hrest t ht)⟩

/-- A guarded run stays guarded after a part of it. -/
theorem Guarded.of_append {C : σ → α → Prop} :
    ∀ {as bs : List α} {s t : σ}, run step s as = some t → Guarded step C s (as ++ bs) →
      Guarded step C t bs
  | [], _, _, _, hrun, h => by
      cases hrun
      exact h
  | _ :: _, _, _, _, hrun, h => by
      obtain ⟨u, hu, hrun⟩ := run_cons_eq_some.mp hrun
      exact Guarded.of_append hrun (h.2 u hu)

theorem Guarded.and {C D : σ → α → Prop} :
    ∀ {s : σ} {as : List α}, Guarded step C s as → Guarded step D s as →
      Guarded step (fun s a => C s a ∧ D s a) s as
  | _, [], _, _ => trivial
  | _, _ :: _, ⟨hc, hcs⟩, ⟨hd, hds⟩ => ⟨⟨hc, hd⟩, fun t ht => (hcs t ht).and (hds t ht)⟩

/-- When guarded steps keep `I` and are admitted by `D` where `I` holds, so is
every step of a guarded run. -/
theorem Guarded.imp_of_invariant {C D : σ → α → Prop} {I : σ → Prop}
    (hstep : ∀ {s a}, I s → C s a → D s a ∧ ∀ t, step s a = some t → I t) :
    ∀ {as : List α} {s : σ}, Guarded step C s as → I s → Guarded step D s as
  | [], _, _, _ => trivial
  | _ :: _, _, ⟨hC, hrest⟩, hI =>
      have h := hstep hI hC
      ⟨h.1, fun t ht => Guarded.imp_of_invariant hstep (hrest t ht) (h.2 t ht)⟩

/-- A property kept by every guarded step holds at the end of a guarded run. -/
theorem Guarded.invariant {C : σ → α → Prop} {I : σ → Prop}
    (hstep : ∀ {s a t}, I s → C s a → step s a = some t → I t) :
    ∀ {as : List α} {s u : σ}, Guarded step C s as → I s → run step s as = some u → I u
  | [], _, _, _, hI, hrun => by
      cases hrun
      exact hI
  | _ :: _, _, _, ⟨hC, hrest⟩, hI, hrun => by
      obtain ⟨t, ht, hrun⟩ := run_cons_eq_some.mp hrun
      exact Guarded.invariant hstep (hrest t ht) (hstep hI hC ht) hrun

/-- A property kept by every step holds at the end of every run. -/
theorem run_invariant {I : σ → Prop} (hstep : ∀ {s a t}, I s → step s a = some t → I t) :
    ∀ {as : List α} {s u : σ}, I s → run step s as = some u → I u
  | [], _, _, hI, hrun => by
      cases hrun
      exact hI
  | _ :: _, _, _, hI, hrun => by
      obtain ⟨t, ht, hrun⟩ := run_cons_eq_some.mp hrun
      exact run_invariant hstep (hstep hI ht) hrun

/-! ## Histories -/

variable (step) in
/-- `P` holds in every state the run over `as` from `s` visits. -/
def Always (P : σ → Prop) (s : σ) (as : List α) : Prop :=
  ∀ (pre : List α) (t : σ), pre <+: as → run step s pre = some t → P t

theorem always_nil {P : σ → Prop} {s : σ} : Always step P s [] ↔ P s := by
  constructor
  · intro h
    exact h [] s (List.prefix_refl []) rfl
  · intro h pre t hpre hrun
    rw [List.prefix_nil.mp hpre] at hrun
    cases hrun
    exact h

theorem always_cons {P : σ → Prop} {s : σ} {a : α} {as : List α} :
    Always step P s (a :: as) ↔ P s ∧ ∀ t, step s a = some t → Always step P t as := by
  constructor
  · intro h
    refine ⟨h [] s List.nil_prefix rfl, fun t ht pre u hpre hrun => ?_⟩
    refine h (a :: pre) u (List.cons_prefix_cons.mpr ⟨rfl, hpre⟩) ?_
    exact run_cons_eq_some.mpr ⟨t, ht, hrun⟩
  · rintro ⟨hs, hrest⟩ pre u hpre hrun
    cases pre with
    | nil =>
        cases hrun
        exact hs
    | cons b pre =>
        obtain ⟨rfl, hpre'⟩ := List.cons_prefix_cons.mp hpre
        obtain ⟨t, ht, hrun⟩ := run_cons_eq_some.mp hrun
        exact hrest t ht pre u hpre' hrun

theorem Always.head {P : σ → Prop} {s : σ} {as : List α} (h : Always step P s as) : P s :=
  h [] s List.nil_prefix rfl

/-- The last state of a run is visited. -/
theorem Always.last {P : σ → Prop} {s t : σ} {as : List α} (h : Always step P s as)
    (hrun : run step s as = some t) : P t :=
  h as t (List.prefix_refl as) hrun

/-- A property kept by every guarded step holds all along a guarded run. -/
theorem Guarded.always {C : σ → α → Prop} {I : σ → Prop}
    (hstep : ∀ {s a t}, I s → C s a → step s a = some t → I t) :
    ∀ {as : List α} {s : σ}, Guarded step C s as → I s → Always step I s as
  | [], _, _, hI => always_nil.mpr hI
  | _ :: _, _, ⟨hC, hrest⟩, hI =>
      always_cons.mpr ⟨hI, fun t ht => Guarded.always hstep (hrest t ht) (hstep hI hC ht)⟩

/-- Every step meets a guard that admits all of them. -/
theorem Guarded.of_forall {C : σ → α → Prop} (h : ∀ s a, C s a) :
    ∀ (s : σ) (as : List α), Guarded step C s as
  | _, [] => trivial
  | s, a :: as => ⟨h s a, fun t _ => Guarded.of_forall h t as⟩

/-- Every step meets a guard on the actions that all of them meet. -/
theorem Guarded.of_forall_mem {C : α → Prop} :
    ∀ {as : List α} (s : σ), (∀ a ∈ as, C a) → Guarded step (fun _ => C) s as
  | [], _, _ => trivial
  | _ :: _, _, h => ⟨h _ (List.mem_cons_self ..), fun t _ =>
      Guarded.of_forall_mem t fun a ha => h a (List.mem_cons_of_mem _ ha)⟩

/-- When a guarded step keeps `P` and an unguarded one breaks it, the runs on
which `P` always holds are exactly the guarded ones.  All steps meet a second
guard `D`, and `I` is an invariant that needs no other. -/
theorem Guarded.always_iff_of_guarded {C D : σ → α → Prop} {I P : σ → Prop}
    (hI : ∀ {s a t}, I s → D s a → step s a = some t → I t)
    (hstep : ∀ {s a t}, I s → P s → D s a → step s a = some t → (P t ↔ C s a)) :
    ∀ {as : List α} {s u : σ}, I s → P s → Guarded step D s as → run step s as = some u →
      (Always step P s as ↔ Guarded step C s as)
  | [], _, _, _, hP, _, _ => by simpa [always_nil, Guarded] using hP
  | a :: as, s, u, hIs, hP, ⟨hD, hDs⟩, hrun => by
      obtain ⟨t, ht, hrun⟩ := run_cons_eq_some.mp hrun
      have hiff := hstep hIs hP hD ht
      have htail (hPt : P t) := Guarded.always_iff_of_guarded hI hstep (hI hIs hD ht) hPt
        (hDs t ht) hrun
      rw [always_cons]
      constructor
      · rintro ⟨-, hrest⟩
        have hPt := (hrest t ht).head
        refine ⟨hiff.mp hPt, fun t' ht' => ?_⟩
        obtain rfl := Option.some.inj (ht.symm.trans ht')
        exact (htail hPt).mp (hrest t ht)
      · rintro ⟨hC, hrest⟩
        refine ⟨hP, fun t' ht' => ?_⟩
        obtain rfl := Option.some.inj (ht.symm.trans ht')
        exact (htail (hiff.mpr hC)).mpr (hrest t ht)

/-- When a guarded step keeps `P` and an unguarded one breaks it, the runs on
which `P` always holds are exactly the guarded ones.  `I` is an invariant that
needs no guard. -/
theorem Guarded.always_iff {C : σ → α → Prop} {I P : σ → Prop}
    (hI : ∀ {s a t}, I s → step s a = some t → I t)
    (hstep : ∀ {s a t}, I s → P s → step s a = some t → (P t ↔ C s a)) {as : List α} {s u : σ}
    (hIs : I s) (hPs : P s) (hrun : run step s as = some u) :
    Always step P s as ↔ Guarded step C s as :=
  Guarded.always_iff_of_guarded (D := fun _ _ => True) (fun hs _ ht => hI hs ht)
    (fun hs hp _ ht => hstep hs hp ht) hIs hPs (Guarded.of_forall (fun _ _ => trivial) s as) hrun

/-! ## Families -/

section

variable {ι : Type*} [DecidableEq ι] {σ α : ι → Type*}

/-- Systems side by side.  An action is one of theirs. -/
def family (step : ∀ i, σ i → α i → Option (σ i)) (s : ∀ i, σ i) (a : Σ i, α i) :
    Option (∀ i, σ i) :=
  (step a.1 (s a.1) a.2).map (Function.update s a.1)

/-- Each system keeps its own invariant. -/
theorem Guarded.always_family {step : ∀ i, σ i → α i → Option (σ i)}
    {C : ∀ i, σ i → α i → Prop} {I : ∀ i, σ i → Prop}
    (hstep : ∀ {i s a t}, I i s → C i s a → step i s a = some t → I i t)
    {s : ∀ i, σ i} {as : List (Σ i, α i)}
    (hguarded : Guarded (family step) (fun s a => C a.1 (s a.1) a.2) s as)
    (hs : ∀ i, I i (s i)) : Always (family step) (fun s => ∀ i, I i (s i)) s as := by
  refine hguarded.always (fun {s a t} hI hC ht i => ?_) hs
  obtain ⟨u, hu, rfl⟩ := Option.map_eq_some_iff.mp ht
  rcases eq_or_ne i a.1 with rfl | hi
  · rw [Function.update_self]
    exact hstep (hI a.1) hC hu
  · rw [Function.update_of_ne hi]
    exact hI i

end

end Transition
