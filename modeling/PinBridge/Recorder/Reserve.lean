import Mathlib.Data.List.Range
import Mathlib.Data.Nat.ModEq
import PinBridge.Recorder.State

/-!
# Reserving slots of the recorder

Threads reserve the slots of the slab with `try_reserve`, and the drain thread
gives slots back by increasing `DRAINED`.  A call loads `CLAIM`, loads `DRAINED`,
compares their wrapping difference with the capacity and then exchanges `CLAIM`.

`DRAINED` can pass a value of `CLAIM` that a call still holds.  The difference
wraps then, and the call is refused although there is room
(`refused_with_room`).  `refused_iff_full` says that this is all that goes
wrong: a refusal means that the slab was full during the call in exactly the
runs in which no call reads a `DRAINED` beyond its `CLAIM`.

The claims and their log are exact in every run in which `CLAIM` does not wrap.
-/

namespace PinBridge.Reserve

open Transition (run Always Guarded)
open Recorder (wrappingAdd wrappingSub wrappingAdd_of_lt wrappingSub_of_le)

variable {τ : Type*}

/-! ## States -/

/-- Where a call of `try_reserve` is. -/
inductive CallPc where
  /-- No call. -/
  | idle
  /-- It is going to load `CLAIM`. -/
  | loadClaim
  /-- It is going to load `DRAINED`. -/
  | loadDrained (current : Nat)
  /-- It is going to exchange `CLAIM`. -/
  | exchange (current : Nat)
  deriving DecidableEq, Repr

/-- What a session starts with. -/
structure Start where
  /-- `CLAIM`. -/
  claim : Nat
  /-- `DRAINED`. -/
  drained : Nat
  /-- The capacity. -/
  cap : Nat
  /-- Only claimed slots are drained. -/
  drained_le : drained ≤ claim
  /-- The slots hold what is claimed. -/
  room : claim - drained ≤ cap
  /-- `CLAIM` is a word. -/
  claim_lt : claim < 2 ^ 64
  /-- The capacity is a word. -/
  cap_lt : cap < 2 ^ 64

/-- The counters, the calls and their answers. -/
structure State (τ : Type*) where
  /-- `CLAIM`. -/
  claim : Nat
  /-- `DRAINED`. -/
  drained : Nat
  /-- The calls. -/
  calls : τ → CallPc
  /-- The slab has been full since the call of a thread began. -/
  sawFull : τ → Bool
  /-- The reservations, in the order in which they were made. -/
  reserved : List Nat
  /-- For each call that was refused, whether it saw the slab full. -/
  refusals : List Bool

variable (c : Start)

/-- No call yet. -/
def State.init : State τ where
  claim := c.claim
  drained := c.drained
  calls _ := .idle
  sawFull _ := false
  reserved := []
  refusals := []

/-- All slots are claimed and not drained. -/
def State.full (s : State τ) : Bool := wrappingSub s.claim s.drained = c.cap

/-! ## Steps -/

/-- What happens next. -/
inductive Action (τ : Type*) where
  /-- A thread calls `try_reserve`. -/
  | call (t : τ)
  /-- A call goes on.  An exchange may fail without reason. -/
  | step (t : τ) (spurious : Bool)
  /-- The drain thread gives slots back. -/
  | drain (n : Nat)

/-- Every call under way sees whether the slab is full. -/
def State.look (s : State τ) : State τ :=
  { s with sawFull := fun t => s.sawFull t || s.full c }

variable [DecidableEq τ]

/-- A call is at another place. -/
def State.goto (s : State τ) (t : τ) (pc : CallPc) : State τ :=
  { s with calls := Function.update s.calls t pc }

/-- A call is refused. -/
def State.refuse (s : State τ) (t : τ) : State τ :=
  { s.goto t .idle with refusals := s.refusals ++ [s.sawFull t] }

/-- A thread calls `try_reserve`. -/
def State.call (s : State τ) (t : τ) : State τ :=
  let s := { s with sawFull := Function.update s.sawFull t (s.full c) }
  if c.cap = 0 then s.refuse t else s.goto t .loadClaim

/-- The next part of a call. -/
def State.proceed (s : State τ) (t : τ) (spurious : Bool) : CallPc → Option (State τ)
  | .idle => none
  | .loadClaim => some (s.goto t (.loadDrained s.claim))
  | .loadDrained current =>
      if c.cap ≤ wrappingSub current s.drained then some (s.refuse t)
      else some (s.goto t (.exchange current))
  | .exchange current =>
      if s.claim = current ∧ !spurious then
        some ({ s.goto t .idle with
          claim := wrappingAdd current 1
          reserved := s.reserved ++ [current] }.look c)
      else some (s.goto t (.loadDrained s.claim))

/-- One action. -/
def State.step (s : State τ) : Action τ → Option (State τ)
  | .call t => if s.calls t = .idle then some (s.call c t) else none
  | .step t spurious => s.proceed c t spurious (s.calls t)
  | .drain n =>
      if n ≤ wrappingSub s.claim s.drained then
        some ({ s with drained := wrappingAdd s.drained n }.look c)
      else none

/-! ## What holds -/

/-- Reservations are made in order, and only when there is room. -/
structure State.ReservesInOrder (s : State τ) : Prop where
  /-- They are contiguous from the start. -/
  contiguous : s.reserved = List.range' c.claim s.reserved.length
  /-- They are pairwise distinct. -/
  distinct : s.reserved.Nodup
  /-- At most as many as there are slots are not drained. -/
  outstanding : wrappingSub s.claim s.drained ≤ c.cap
  /-- Two of them share no slot. -/
  slots : ∀ r ∈ s.reserved, ∀ q ∈ s.reserved, s.drained ≤ r → s.drained ≤ q →
    r % c.cap = q % c.cap → r = q
  /-- A call that was refused saw the slab full. -/
  refused : ∀ saw ∈ s.refusals, saw = true

/-- `CLAIM` does not wrap. -/
def State.Unwrapped (s : State τ) : Action τ → Prop
  | .step t spurious =>
      s.calls t = .exchange s.claim → spurious = false → s.claim + 1 < 2 ^ 64
  | _ => True

/-- A call that reads `DRAINED` holds a value of `CLAIM` that is not less, or has
already seen the slab full, or is so far behind that the difference is less than
the capacity. -/
def State.Current (s : State τ) : Action τ → Prop
  | .step t _ =>
      match s.calls t with
      | .loadDrained current =>
          s.drained ≤ current ∨ s.sawFull t = true ∨ 2 ^ 64 < c.cap + (s.drained - current)
      | _ => True
  | _ => True

instance (s : State τ) : (a : Action τ) → Decidable (s.Unwrapped a)
  | .step _ _ => inferInstanceAs (Decidable (_ → _ → _))
  | .call _ | .drain _ => inferInstanceAs (Decidable True)

instance (s : State τ) : (a : Action τ) → Decidable (s.Current c a)
  | .step t _ =>
      match h : s.calls t with
      | .loadDrained current =>
          decidable_of_iff
            (s.drained ≤ current ∨ s.sawFull t = true ∨ 2 ^ 64 < c.cap + (s.drained - current))
            (by rw [State.Current, h])
      | .idle | .loadClaim | .exchange _ => isTrue (by rw [State.Current, h]; trivial)
  | .call _ | .drain _ => inferInstanceAs (Decidable True)

/-! ## The invariant -/

/-- What a call relies on. -/
def CallPc.Ok (s : State τ) : CallPc → Prop
  | .idle | .loadClaim => True
  | .loadDrained current => current ≤ s.claim
  | .exchange current =>
      current ≤ s.claim ∧ (s.drained ≤ current → current - s.drained < c.cap)

/-- What holds while `CLAIM` does not wrap. -/
structure State.Ok (s : State τ) : Prop where
  /-- Only claimed slots are drained. -/
  drained_le : s.drained ≤ s.claim
  /-- `CLAIM` only grows. -/
  base_le : c.claim ≤ s.claim
  /-- `CLAIM` is a word. -/
  claim_lt : s.claim < 2 ^ 64
  /-- The slots hold what is claimed. -/
  room : s.claim - s.drained ≤ c.cap
  /-- All claims of the session were returned, in order. -/
  reserved : s.reserved = List.range' c.claim (s.claim - c.claim)
  /-- The calls. -/
  calls : ∀ t, (s.calls t).Ok c s
  /-- A call under way has seen the slab if it is full. -/
  seen : ∀ t, s.calls t ≠ .idle → s.full c = true → s.sawFull t = true

omit [DecidableEq τ] in
theorem State.Ok.init : (State.init c : State τ).Ok c where
  drained_le := c.drained_le
  base_le := le_refl _
  claim_lt := c.claim_lt
  room := c.room
  reserved := by rw [State.init, Nat.sub_self]; rfl
  calls _ := trivial
  seen _ h := absurd rfl h

variable {c} {s s' : State τ} {t : τ}

omit [DecidableEq τ] in
theorem State.Ok.difference (h : s.Ok c) : wrappingSub s.claim s.drained = s.claim - s.drained :=
  wrappingSub_of_le h.drained_le h.claim_lt

omit [DecidableEq τ] in
theorem State.Ok.full_iff (h : s.Ok c) : s.full c = true ↔ s.claim - s.drained = c.cap := by
  rw [State.full, decide_eq_true_eq, h.difference]

/-- A call that has seen the slab goes on. -/
theorem State.Ok.goto (h : s.Ok c) {p : CallPc} (hpc : p.Ok c s)
    (hseen : s.full c = true → s.sawFull t = true) : (s.goto t p).Ok c where
  drained_le := h.drained_le
  base_le := h.base_le
  claim_lt := h.claim_lt
  room := h.room
  reserved := h.reserved
  calls u := by
    show (Function.update s.calls t p u).Ok c s
    rcases eq_or_ne u t with rfl | hu
    · rwa [Function.update_self]
    · rw [Function.update_of_ne hu]
      exact h.calls u
  seen u hu hfull := by
    rcases eq_or_ne u t with rfl | hne
    · exact hseen hfull
    · exact h.seen u (by simpa [State.goto, Function.update_of_ne hne] using hu) hfull

omit [DecidableEq τ] in
/-- The counters move on and every call sees the slab. -/
theorem State.Ok.look (h : s.Ok c) {claim drained : Nat} {reserved : List Nat}
    (hdrained : s.drained ≤ drained) (hle : drained ≤ claim) (hclaim : s.claim ≤ claim)
    (hlt : claim < 2 ^ 64) (hroom : claim - drained ≤ c.cap)
    (hreserved : reserved = List.range' c.claim (claim - c.claim)) :
    (State.look c { s with claim, drained, reserved }).Ok c where
  drained_le := hle
  base_le := h.base_le.trans hclaim
  claim_lt := hlt
  room := hroom
  reserved := hreserved
  calls u := by
    have hu := h.calls u
    show (s.calls u).Ok c _
    cases hpc : s.calls u with
    | idle | loadClaim => trivial
    | loadDrained current =>
        rw [hpc] at hu
        exact hu.trans hclaim
    | exchange current =>
        rw [hpc] at hu
        refine ⟨hu.1.trans hclaim, fun hcurrent => ?_⟩
        have hcurrent : drained ≤ current := hcurrent
        have := hu.2 (hdrained.trans hcurrent)
        show current - drained < c.cap
        omega
  seen u _ hfull := by
    show (s.sawFull u || _) = true
    rw [Bool.or_eq_true]
    exact .inr hfull

/-! ## Steps -/

omit [DecidableEq τ] in
/-- Everything but the refusals is right. -/
theorem State.Ok.reservesInOrder (h : s.Ok c) (hrefused : ∀ saw ∈ s.refusals, saw = true) :
    s.ReservesInOrder c where
  contiguous := by rw [h.reserved, List.length_range']
  distinct := by
    rw [h.reserved]
    exact List.nodup_range'
  outstanding := by
    rw [h.difference]
    exact h.room
  slots r hr q hq hdr hdq heq := by
    rw [h.reserved, List.mem_range'_1] at hr hq
    have hroom := h.room
    have hbase := h.base_le
    have hmod : r ≡ q [MOD c.cap] := heq
    exact hmod.eq_of_abs_lt (abs_lt.mpr ⟨by omega, by omega⟩)
  refused := hrefused

/-- A call begins. -/
theorem State.Ok.call (h : s.Ok c) (ht : s.calls t = .idle) : (s.call c t).Ok c := by
  have hseen : ∀ u, s.full c = true → s.calls u ≠ .idle ∨ u = t →
      Function.update s.sawFull t (s.full c) u = true := by
    intro u hfull hu
    rcases eq_or_ne u t with rfl | hne
    · rwa [Function.update_self]
    · rw [Function.update_of_ne hne]
      exact h.seen u (hu.resolve_right hne) hfull
  have hs : State.Ok c { s with sawFull := Function.update s.sawFull t (s.full c) } :=
    ⟨h.drained_le, h.base_le, h.claim_lt, h.room, h.reserved, h.calls,
      fun u hu hfull => hseen u hfull (.inl hu)⟩
  rw [State.call]
  split
  · have hidle := hs.goto (t := t) (p := .idle) trivial fun hfull => hseen t hfull (.inr rfl)
    exact ⟨hidle.drained_le, hidle.base_le, hidle.claim_lt, hidle.room, hidle.reserved,
      hidle.calls, hidle.seen⟩
  · exact hs.goto trivial fun hfull => hseen t hfull (.inr rfl)

/-- A call goes on. -/
theorem State.Ok.proceed (h : s.Ok c) {spurious : Bool}
    (hunwrapped : s.Unwrapped (.step t spurious))
    (hs' : s.proceed c t spurious (s.calls t) = some s') : s'.Ok c := by
  have hcall := h.calls t
  cases hpc : s.calls t with
  | idle =>
      rw [hpc] at hs'
      cases hs'
  | loadClaim =>
      rw [hpc] at hs'
      cases hs'
      exact h.goto (le_refl s.claim) (h.seen t (by simp [hpc]))
  | loadDrained current =>
      rw [hpc] at hs' hcall
      have hle : current ≤ s.claim := hcall
      rw [State.proceed] at hs'
      split at hs'
      · cases hs'
        have hidle := h.goto (t := t) (p := .idle) trivial (h.seen t (by simp [hpc]))
        exact ⟨hidle.drained_le, hidle.base_le, hidle.claim_lt, hidle.room, hidle.reserved,
          hidle.calls, hidle.seen⟩
      next hroom =>
        cases hs'
        refine h.goto ⟨hle, fun hdrained => ?_⟩ (h.seen t (by simp [hpc]))
        rwa [wrappingSub_of_le hdrained (hle.trans_lt h.claim_lt), not_le] at hroom
  | exchange current =>
      rw [hpc] at hs' hcall
      rw [State.proceed] at hs'
      split at hs'
      next hsuccess =>
        obtain ⟨hcurrent, hspurious⟩ := hsuccess
        cases hs'
        have hlt : s.claim + 1 < 2 ^ 64 := hunwrapped (by rw [hpc, hcurrent]) (by simpa using hspurious)
        have hroom := hcall.2 (hcurrent ▸ h.drained_le)
        have hbase := h.base_le
        have hidle := h.goto (t := t) (p := .idle) trivial (h.seen t (by simp [hpc]))
        rw [← hcurrent] at hroom ⊢
        rw [wrappingAdd_of_lt hlt]
        refine hidle.look (le_refl _) (h.drained_le.trans (Nat.le_succ _)) (Nat.le_succ _) hlt ?_ ?_
        · show s.claim + 1 - s.drained ≤ c.cap
          omega
        · have hsplit : s.claim + 1 - c.claim = (s.claim - c.claim) + 1 := by omega
          have hlast : c.claim + (s.claim - c.claim) = s.claim := by omega
          rw [hsplit, List.range'_1_concat, hlast, h.reserved]
      next =>
        cases hs'
        exact h.goto (le_refl s.claim) (h.seen t (by simp [hpc]))

/-- An action keeps the invariant. -/
theorem State.Ok.step (h : s.Ok c) {a : Action τ} (hunwrapped : s.Unwrapped a)
    (hs' : s.step c a = some s') : s'.Ok c := by
  cases a with
  | call t =>
      rw [State.step] at hs'
      split at hs'
      next ht =>
        cases hs'
        exact h.call ht
      next => cases hs'
  | step t spurious => exact h.proceed hunwrapped hs'
  | drain n =>
      rw [State.step] at hs'
      split at hs'
      next hn =>
        cases hs'
        rw [h.difference] at hn
        have hle := h.drained_le
        have hlt := h.claim_lt
        have hroom := h.room
        rw [wrappingAdd_of_lt (by omega)]
        exact h.look (Nat.le_add_right _ _) (by omega) (le_refl _) hlt (by omega) h.reserved
      next => cases hs'

/-! ## Refusals -/

omit [DecidableEq τ] in
/-- A call that is refused has seen the slab full, unless `DRAINED` has passed
its `CLAIM`. -/
theorem State.Ok.refused_iff (h : s.Ok c) {current : Nat} (hpc : s.calls t = .loadDrained current)
    (hrefused : c.cap ≤ wrappingSub current s.drained) :
    s.sawFull t = true ↔ s.Current c (.step t false) := by
  have hle : current ≤ s.claim := by
    have hcall := h.calls t
    rwa [hpc] at hcall
  have hlt := h.claim_lt
  have hdrained := h.drained_le
  have hroom := h.room
  rw [State.Current, hpc]
  refine ⟨fun hsaw => .inr (.inl hsaw), ?_⟩
  rintro (hcurrent | hsaw | hfar)
  · refine h.seen t (by simp [hpc]) (h.full_iff.mpr ?_)
    rw [wrappingSub_of_le hcurrent (hle.trans_lt hlt)] at hrefused
    omega
  · exact hsaw
  · rw [wrappingSub] at hrefused
    omega

/-- A step keeps what is to hold exactly if the call reads no `DRAINED` beyond
its `CLAIM`. -/
theorem State.Ok.reservesInOrder_step (h : s.Ok c) (hgood : s.ReservesInOrder c) {a : Action τ}
    (hunwrapped : s.Unwrapped a) (hs' : s.step c a = some s') :
    s'.ReservesInOrder c ↔ s.Current c a := by
  have hok := h.step hunwrapped hs'
  have hkept (heq : s'.refusals = s.refusals) : s'.ReservesInOrder c :=
    hok.reservesInOrder (heq ▸ hgood.refused)
  cases a with
  | call t =>
      refine iff_of_true ?_ trivial
      rw [State.step] at hs'
      split at hs'
      next =>
        cases hs'
        refine hok.reservesInOrder ?_
        rw [State.call]
        split
        next hcap =>
          have hfull : s.full c = true := by
            have hroom := h.room
            rw [h.full_iff]
            omega
          intro saw hsaw
          rcases List.mem_append.mp hsaw with hsaw | hsaw
          · exact hgood.refused saw hsaw
          · rw [List.mem_singleton.mp hsaw]
            show Function.update s.sawFull t (s.full c) t = true
            rwa [Function.update_self]
        next => exact hgood.refused
      next => cases hs'
  | step t spurious =>
      cases hpc : s.calls t with
      | idle =>
          rw [State.step, hpc] at hs'
          cases hs'
      | loadClaim =>
          rw [State.step, hpc] at hs'
          cases hs'
          exact iff_of_true (hkept rfl) (by rw [State.Current, hpc]; trivial)
      | loadDrained current =>
          rw [State.step, hpc, State.proceed] at hs'
          split at hs'
          next hrefused =>
            cases hs'
            rw [show s.Current c (.step t spurious) ↔ s.Current c (.step t false) from Iff.rfl,
              ← h.refused_iff hpc hrefused]
            constructor
            · intro hgood'
              exact hgood'.refused _ (List.mem_append_right _ (List.mem_singleton_self _))
            · intro hsaw
              refine hok.reservesInOrder fun saw hmem => ?_
              rcases List.mem_append.mp hmem with hmem | hmem
              · exact hgood.refused saw hmem
              · rwa [List.mem_singleton.mp hmem]
          next hroom =>
            cases hs'
            refine iff_of_true (hkept rfl) ?_
            rw [State.Current, hpc]
            rcases Nat.lt_or_ge current s.drained with hlt | hge
            · refine .inr (.inr ?_)
              have := h.drained_le
              have := h.claim_lt
              rw [wrappingSub] at hroom
              omega
            · exact .inl hge
      | exchange current =>
          refine iff_of_true ?_ (by rw [State.Current, hpc]; trivial)
          rw [State.step, hpc, State.proceed] at hs'
          split at hs' <;> cases hs' <;> exact hkept rfl
  | drain n =>
      refine iff_of_true ?_ trivial
      rw [State.step] at hs'
      split at hs'
      · cases hs'
        exact hkept rfl
      · cases hs'

/-! ## Runs -/

/-- In a run in which `CLAIM` does not wrap, reservations are right and every
refused call saw the slab full in exactly the case that no call reads a
`DRAINED` beyond its `CLAIM`. -/
theorem refused_iff_full (c : Start) {as : List (Action τ)} {u : State τ}
    (hunwrapped : Guarded (State.step c) State.Unwrapped (.init c) as)
    (hrun : run (State.step c) (.init c) as = some u) :
    Always (State.step c) (State.ReservesInOrder c) (.init c) as ↔
      Guarded (State.step c) (State.Current c) (.init c) as := by
  have hinit : State.Ok c (State.init c : State τ) := .init c
  exact Guarded.always_iff_of_guarded (I := State.Ok c) (fun hs hd ht => hs.step hd ht)
    (fun hs hp hd ht => hs.reservesInOrder_step hp hd ht) hinit (hinit.reservesInOrder nofun)
    hunwrapped hrun

/-! ## Two runs -/

/-- An empty slab with two slots. -/
def twoSlots : Start where
  claim := 0
  drained := 0
  cap := 2
  drained_le := le_refl 0
  room := by decide
  claim_lt := by decide
  cap_lt := by decide

/-- A call of a thread that nobody disturbs. -/
def undisturbed (t : Bool) : List (Action Bool) :=
  [.call t, .step t false, .step t false, .step t false]

/-- A thread loads `CLAIM`, another one reserves a slot that is drained at once,
and then the first one loads `DRAINED`. -/
def overtaken : List (Action Bool) :=
  [.call false, .step false false] ++ undisturbed true ++ [.drain 1, .step false false]

/-- A call is refused although one slot at most was ever claimed. -/
theorem refused_with_room : ¬ ∀ (c : Start) (as : List (Action Bool)),
    Always (State.step c) (State.ReservesInOrder c) (.init c) as := by
  intro h
  have hrefusals : (run (State.step twoSlots) (.init twoSlots) overtaken).map State.refusals =
    some [false] := by decide +kernel
  obtain ⟨u, hu, hrefusals⟩ := Option.map_eq_some_iff.mp hrefusals
  have hsaw := ((h twoSlots overtaken).last hu).refused false (by simp [hrefusals])
  cases hsaw

/-- Two slots are reserved, a call is refused, and a slot is drained. -/
def filled : List (Action Bool) :=
  undisturbed true ++ undisturbed false ++ [.call true, .step true false, .step true false, .drain 1]

/-- The slab is full when the call is refused. -/
theorem refused_when_full :
    Always (State.step twoSlots) (State.ReservesInOrder twoSlots) (.init twoSlots) filled := by
  have hrefusals : (run (State.step twoSlots) (.init twoSlots) filled).map State.refusals =
    some [true] := by decide +kernel
  obtain ⟨u, hu, -⟩ := Option.map_eq_some_iff.mp hrefusals
  exact (refused_iff_full twoSlots (by decide +kernel) hu).mpr (by decide +kernel)

end PinBridge.Reserve
