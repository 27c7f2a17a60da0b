import Mathlib.Algebra.Ring.Nat
import PinBridge.Lib.Table

/-!
# Leases on native points

Scripts share native breakpoints and native Hooks.  A lease counts the script
subscriptions on a point and remembers whether the script host removes the
point with the last of them (`Lease.removeAtZero`).  A point whose removal has
to wait is queued.  A new subscription takes it off the queue again.

Breakpoints and Hooks have a table of their own, keyed by id and by address, and
the same functions on it.  Only breakpoints have `markExternalOwner`.

`Leases.Sound` says how a table fits what surrounds it: the live subscriptions
(`users`), the points that exist (`native`), the ones that somebody else wants
(`wanted`) and the ones the host is working on (`busy`).  One lemma for each
function says under which condition it stays so.
-/

namespace PinBridge.Host

/-! ## The tables -/

/-- `u32::MAX`. -/
def maxSubscribers : Nat := 2 ^ 32 - 1

/-- `NativeLease` and `HookLease`. -/
structure Lease where
  /-- The subscriptions. -/
  subscribers : Nat
  /-- The host removes the point with the last one. -/
  removeAtZero : Bool
  deriving DecidableEq, Repr

/-- `acquire`.  The count saturates. -/
def Lease.acquire (lease : Lease) (createdByScripts : Bool) : Lease where
  subscribers := min (lease.subscribers + 1) maxSubscribers
  removeAtZero := lease.removeAtZero || createdByScripts

/-- `release`, with the answer whether the point is to be removed. -/
def Lease.release (lease : Lease) : Lease × Bool :=
  ({ lease with subscribers := lease.subscribers - 1 },
    lease.subscribers - 1 = 0 && lease.removeAtZero)

/-- A lease table with its queue of removals. -/
structure Leases (κ : Type) where
  /-- The leases. -/
  table : Table κ Lease
  /-- The points to remove. -/
  pending : List κ

/-- No leases. -/
def Leases.init {κ : Type} : Leases κ := ⟨∅, []⟩

namespace Leases

variable {κ : Type} [DecidableEq κ]

/-- `acquire_native` and `acquire_hook`. -/
def acquire (l : Leases κ) (k : κ) (createdByScripts : Bool) : Leases κ :=
  let revived : Bool := k ∈ l.pending
  let createdByScripts := createdByScripts || revived
  let lease :=
    match l.table.lookup k with
    | some lease => lease.acquire createdByScripts
    | none => ⟨1, createdByScripts⟩
  ⟨l.table.insert k lease, l.pending.filter (· ≠ k)⟩

/-- `mark_external_owner`. -/
def markExternalOwner (l : Leases κ) (k : κ) : Leases κ :=
  { l with table := l.table.modify k fun lease => { lease with removeAtZero := false } }

/-- `release_native` and `release_hook`. -/
def release (l : Leases κ) (k : κ) : Leases κ × Bool :=
  match l.table.lookup k with
  | none => (l, false)
  | some lease =>
      let (lease, remove) := lease.release
      let table := if lease.subscribers = 0 then l.table.erase k else l.table.insert k lease
      ({ l with table }, remove)

/-- `queue_native_removal` and `queue_hook_removal`. -/
def queue (l : Leases κ) (k : κ) : Leases κ :=
  if k ∈ l.pending then l else { l with pending := l.pending ++ [k] }

/-- Take a removal off the queue. -/
def unqueue (l : Leases κ) (k : κ) : Leases κ := { l with pending := l.pending.filter (· ≠ k) }

/-- Release a subscription and queue the point if it is to be removed. -/
def drop (l : Leases κ) (k : κ) : Leases κ :=
  let (l, remove) := l.release k
  if remove then l.queue k else l

/-- How many subscriptions a lease counts. -/
def subscribers (l : Leases κ) (k : κ) : Nat := (l.table.lookup k).elim 0 Lease.subscribers

/-! ## Soundness -/

/-- A lease table that fits what surrounds it. -/
structure Sound (l : Leases κ) (users : κ → Nat) (native wanted busy : κ → Prop) : Prop where
  /-- A lease counts the subscriptions. -/
  count : ∀ k, l.subscribers k = users k
  /-- A lease has a subscription. -/
  positive : ∀ {k : κ} {lease : Lease}, l.table.lookup k = some lease → 0 < lease.subscribers
  /-- Nobody else wants a point that is removed with the last subscription. -/
  removed : ∀ {k : κ} {lease : Lease}, l.table.lookup k = some lease →
    lease.removeAtZero = true → ¬ wanted k
  /-- Somebody else wants any other point. -/
  kept : ∀ {k : κ} {lease : Lease}, l.table.lookup k = some lease →
    lease.removeAtZero = false → native k → wanted k ∨ busy k
  /-- Nobody wants a queued point. -/
  queued : ∀ {k : κ}, k ∈ l.pending → ¬ wanted k ∧ l.table.lookup k = none
  /-- A point that nobody wants is queued. -/
  orphan : ∀ {k : κ}, native k → ¬ wanted k → l.table.lookup k = none → k ∈ l.pending ∨ busy k
  /-- What somebody else wants is there. -/
  wanted_native : ∀ {k : κ}, wanted k → native k

variable {l : Leases κ} {users users' : κ → Nat} {native native' wanted wanted' busy busy' : κ → Prop}

theorem Sound.users_eq_zero (h : l.Sound users native wanted busy) {k : κ} :
    users k = 0 ↔ l.table.lookup k = none := by
  rw [← h.count k, subscribers]
  cases hk : l.table.lookup k with
  | none => simp
  | some lease => simpa using Nat.ne_of_gt (h.positive hk)

theorem Sound.init : (Leases.init : Leases κ).Sound (fun _ => 0) (fun _ => False) (fun _ => False)
    fun _ => False where
  count _ := rfl
  positive hk := by cases hk
  removed hk := by cases hk
  kept hk := by cases hk
  queued hk := by cases hk
  orphan hk := hk.elim
  wanted_native hk := hk.elim

/-- Nothing changes but what the host is working on. -/
theorem Sound.congr (h : l.Sound users native wanted busy) (husers : ∀ k, users' k = users k)
    (hnative : ∀ k, native' k ↔ native k) (hwanted : ∀ k, wanted' k ↔ wanted k)
    (hbusy : ∀ k, busy k → busy' k) : l.Sound users' native' wanted' busy' where
  count k := (h.count k).trans (husers k).symm
  positive := h.positive
  removed hk hlease := (hwanted _).not.mpr (h.removed hk hlease)
  kept hk hlease hn :=
    (h.kept hk hlease ((hnative _).mp hn)).imp (hwanted _).mpr (hbusy _)
  queued hk := (h.queued hk).imp_left (hwanted _).not.mpr
  orphan hn hw hk :=
    (h.orphan ((hnative _).mp hn) ((hwanted _).not.mp hw) hk).imp_right (hbusy _)
  wanted_native hw := (hnative _).mpr (h.wanted_native ((hwanted _).mp hw))

theorem lookup_acquire (l : Leases κ) (k j : κ) (created : Bool) :
    (l.acquire k created).table.lookup j =
      if j = k then
        some ((l.table.lookup k).elim ⟨1, created || k ∈ l.pending⟩
          (Lease.acquire · (created || k ∈ l.pending)))
      else l.table.lookup j := by
  rw [acquire]
  by_cases hj : j = k
  · rw [if_pos hj, hj]
    cases hk : l.table.lookup k <;> exact AList.lookup_insert _
  · rw [if_neg hj]
    exact AList.lookup_insert_ne hj

theorem mem_unqueue {k j : κ} : j ∈ (l.unqueue k).pending ↔ j ∈ l.pending ∧ j ≠ k := by
  simp [unqueue]

/-- A subscription on a point.  The scripts have created the point only if
nobody else wants it. -/
theorem Sound.acquire (h : l.Sound users native wanted busy) {k : κ} {created : Bool}
    (hroom : users k < maxSubscribers) (hcreated : created = true → ¬ wanted k)
    (hexisted : created = false → busy k → busy' k)
    (husers : ∀ j, users' j = users j + if j = k then 1 else 0)
    (hbusy : ∀ j, busy j → j ≠ k → busy' j) :
    (l.acquire k created).Sound users' native wanted busy' := by
  have hpending : ∀ {j}, j ∈ (l.acquire k created).pending ↔ j ∈ l.pending ∧ j ≠ k := mem_unqueue
  -- the new lease
  have hnew : ∀ {j lease}, (l.acquire k created).table.lookup j = some lease → j = k →
      lease.subscribers = users k + 1 ∧ (lease.removeAtZero = true → ¬ wanted k) ∧
        (lease.removeAtZero = false → native k → wanted k ∨ busy' k) := by
    intro j lease hj heq
    rw [lookup_acquire, if_pos heq, Option.some.injEq] at hj
    have hcount := h.count k
    rw [subscribers] at hcount
    cases hk : l.table.lookup k with
    | none =>
        rw [hk] at hj hcount
        subst hj
        refine ⟨by rw [← hcount]; rfl, fun hflag => ?_, fun hflag hn => ?_⟩
        · rcases Bool.or_eq_true_iff.mp hflag with hc | hq
          · exact hcreated hc
          · exact (h.queued (of_decide_eq_true hq)).1
        · obtain ⟨hc, hq⟩ := Bool.or_eq_false_iff.mp hflag
          by_cases hw : wanted k
          · exact .inl hw
          · exact .inr (hexisted hc ((h.orphan hn hw hk).resolve_left (of_decide_eq_false hq)))
    | some lease' =>
        have hq : k ∉ l.pending := fun hq => by simp [(h.queued hq).2] at hk
        rw [hk] at hj hcount
        subst hj
        refine ⟨?_, fun hflag => ?_, fun hflag hn => ?_⟩
        · show min (lease'.subscribers + 1) maxSubscribers = _
          have hcount' : lease'.subscribers = users k := hcount
          rw [hcount']
          omega
        · rcases Bool.or_eq_true_iff.mp hflag with hlease | hc
          · exact h.removed hk hlease
          · simp only [hq, decide_false, Bool.or_false] at hc
            exact hcreated hc
        · obtain ⟨hlease, hc⟩ := Bool.or_eq_false_iff.mp hflag
          simp only [hq, decide_false, Bool.or_false] at hc
          exact (h.kept hk hlease hn).imp_right (hexisted hc)
  refine ⟨fun j => ?_, fun {j lease} hj => ?_, fun {j lease} hj hlease => ?_,
    fun {j lease} hj hlease hn => ?_, fun {j} hj => ?_, fun {j} hn hw hj => ?_, h.wanted_native⟩
  · rw [husers j, subscribers]
    by_cases heq : j = k
    · have hj : ∃ lease, (l.acquire k created).table.lookup j = some lease := by
        rw [lookup_acquire, if_pos heq]
        exact ⟨_, rfl⟩
      obtain ⟨lease, hj⟩ := hj
      rw [hj, if_pos heq, heq]
      exact (hnew hj heq).1
    · rw [lookup_acquire, if_neg heq, if_neg heq]
      exact h.count j
  · by_cases heq : j = k
    · rw [(hnew hj heq).1]
      omega
    · rw [lookup_acquire, if_neg heq] at hj
      exact h.positive hj
  · by_cases heq : j = k
    · exact heq ▸ (hnew hj heq).2.1 hlease
    · rw [lookup_acquire, if_neg heq] at hj
      exact h.removed hj hlease
  · by_cases heq : j = k
    · exact heq ▸ (hnew hj heq).2.2 hlease (heq ▸ hn)
    · rw [lookup_acquire, if_neg heq] at hj
      exact (h.kept hj hlease hn).imp_right fun hb => hbusy j hb heq
  · obtain ⟨hj, heq⟩ := hpending.mp hj
    rw [lookup_acquire, if_neg heq]
    exact h.queued hj
  · have heq : j ≠ k := by
      intro heq
      rw [lookup_acquire, if_pos heq] at hj
      cases hj
    rw [lookup_acquire, if_neg heq] at hj
    refine (h.orphan hn hw hj).imp (fun hq => hpending.mpr ⟨hq, heq⟩) fun hb => hbusy j hb heq

/-! ## Releasing -/

theorem lookup_release (l : Leases κ) {k j : κ} {lease : Lease}
    (hk : l.table.lookup k = some lease) :
    (l.release k).1.table.lookup j =
      if j = k then
        if lease.subscribers - 1 = 0 then none
        else some { lease with subscribers := lease.subscribers - 1 }
      else l.table.lookup j := by
  have htable : (l.release k).1.table =
      if lease.subscribers - 1 = 0 then l.table.erase k
      else l.table.insert k { lease with subscribers := lease.subscribers - 1 } := by
    rw [release, hk]
    rfl
  rw [htable]
  by_cases hj : j = k
  · rw [if_pos hj, hj]
    split
    · exact AList.lookup_erase k l.table
    · exact AList.lookup_insert _
  · rw [if_neg hj]
    split
    · exact AList.lookup_erase_ne hj
    · exact AList.lookup_insert_ne hj

theorem pending_release (l : Leases κ) (k : κ) : (l.release k).1.pending = l.pending := by
  rw [release]
  split <;> rfl

/-- A subscription on a point ends.  If the answer is that the point is to be
removed, the host is working on it. -/
theorem Sound.release (h : l.Sound users native wanted busy) {k : κ} (hk : users k ≠ 0)
    (husers : ∀ j, users' j + (if j = k then 1 else 0) = users j) :
    (l.release k).1.Sound users' native wanted (fun j => busy j ∨ j = k ∧ (l.release k).2 = true) ∧
      ((l.release k).2 = true → ¬ wanted k ∧ (l.release k).1.table.lookup k = none) := by
  obtain ⟨lease, hlease⟩ : ∃ lease, l.table.lookup k = some lease :=
    Option.ne_none_iff_exists'.mp (h.users_eq_zero.not.mp hk)
  have hcount : lease.subscribers = users k := by
    rw [← h.count k, subscribers, hlease]
    rfl
  have hremove : (l.release k).2 = (lease.subscribers - 1 = 0 && lease.removeAtZero) := by
    rw [Leases.release, hlease]
    rfl
  have hlookup := fun j => l.lookup_release (j := j) hlease
  -- what a lease says that is left
  have hleft : ∀ {j lease'}, (l.release k).1.table.lookup j = some lease' →
      ∃ old, l.table.lookup j = some old ∧ old.removeAtZero = lease'.removeAtZero ∧
        0 < lease'.subscribers := by
    intro j lease' hj
    rw [hlookup] at hj
    split at hj
    next heq =>
      split at hj
      · cases hj
      next hpos =>
        cases hj
        exact ⟨lease, heq ▸ hlease, rfl, Nat.pos_of_ne_zero hpos⟩
    next => exact ⟨lease', hj, rfl, h.positive hj⟩
  refine ⟨⟨fun j => ?_, fun hj => ?_, fun hj hflag => ?_, fun hj hflag hn => ?_, fun {j} hj => ?_,
    fun {j} hn hw hj => ?_, h.wanted_native⟩, fun hr => ?_⟩
  · have hj := husers j
    rw [subscribers, hlookup]
    split
    next heq =>
      rw [if_pos heq, heq] at hj
      split
      · show 0 = _
        rw [heq]
        omega
      · show lease.subscribers - 1 = _
        rw [heq]
        omega
    next heq =>
      rw [if_neg heq, Nat.add_zero] at hj
      rw [hj]
      exact h.count j
  · obtain ⟨_, -, -, hpos⟩ := hleft hj
    exact hpos
  · obtain ⟨old, hold, heq, -⟩ := hleft hj
    exact h.removed hold (heq.trans hflag)
  · obtain ⟨old, hold, heq, -⟩ := hleft hj
    exact (h.kept hold (heq.trans hflag) hn).imp_right .inl
  · rw [pending_release] at hj
    have hne : j ≠ k := by
      rintro rfl
      rw [(h.queued hj).2] at hlease
      cases hlease
    rw [hlookup, if_neg hne]
    exact h.queued hj
  · rw [pending_release]
    by_cases heq : j = k
    · subst heq
      rw [hlookup, if_pos rfl] at hj
      split at hj
      next hzero =>
        cases hflag : lease.removeAtZero with
        | true => exact .inr (.inr ⟨rfl, by rw [hremove, hflag]; simp [hzero]⟩)
        | false => exact .inr (.inl ((h.kept hlease hflag hn).resolve_left hw))
      next => cases hj
    · rw [hlookup, if_neg heq] at hj
      exact (h.orphan hn hw hj).imp_right .inl
  · rw [hremove, Bool.and_eq_true, decide_eq_true_eq] at hr
    refine ⟨h.removed hlease hr.2, ?_⟩
    rw [hlookup, if_pos rfl, if_pos hr.1]

theorem mem_queue {k j : κ} : j ∈ (l.queue k).pending ↔ j ∈ l.pending ∨ j = k := by
  rw [queue]
  split
  next hk =>
    refine ⟨.inl, fun hj => hj.elim id ?_⟩
    rintro rfl
    exact hk
  next => simp

theorem table_queue (l : Leases κ) (k : κ) : (l.queue k).table = l.table := by
  rw [queue]
  split <;> rfl

/-- The host queues a point it was working on. -/
theorem Sound.queue (h : l.Sound users native wanted busy) {k : κ} (hw : ¬ wanted k)
    (hk : l.table.lookup k = none) (hbusy : ∀ j, busy j → j ≠ k → busy' j) :
    (l.queue k).Sound users native wanted busy' := by
  have htable := l.table_queue k
  refine ⟨fun j => ?_, fun hj => ?_, fun hj => ?_, fun {j lease} hj hflag hn => ?_, fun hj => ?_,
    fun {j} hn hwj hj => ?_, h.wanted_native⟩
  · rw [subscribers, htable]
    exact h.count j
  · exact h.positive (htable ▸ hj)
  · exact h.removed (htable ▸ hj)
  · rw [htable] at hj
    refine (h.kept hj hflag hn).imp_right fun hb => hbusy j hb ?_
    rintro rfl
    rw [hk] at hj
    cases hj
  · rw [htable]
    rcases mem_queue.mp hj with hj | rfl
    · exact h.queued hj
    · exact ⟨hw, hk⟩
  · rw [htable] at hj
    by_cases heq : j = k
    · exact .inl (mem_queue.mpr (.inr heq))
    · exact (h.orphan hn hwj hj).imp (fun hq => mem_queue.mpr (.inl hq)) fun hb => hbusy j hb heq

/-- A subscription ends, and a point that is to be removed is queued. -/
theorem Sound.drop (h : l.Sound users native wanted busy) {k : κ} (hk : users k ≠ 0)
    (husers : ∀ j, users' j + (if j = k then 1 else 0) = users j) :
    (l.drop k).Sound users' native wanted busy := by
  obtain ⟨hs, hgone⟩ := h.release hk husers
  show (if (l.release k).2 then (l.release k).1.queue k else (l.release k).1).Sound _ _ _ _
  split
  next hr =>
    obtain ⟨hw, hlookup⟩ := hgone hr
    exact hs.queue hw hlookup fun j hb hne => hb.resolve_right fun hjk => hne hjk.1
  next hr =>
    exact hs.congr (fun _ => rfl) (fun _ => Iff.rfl) (fun _ => Iff.rfl) fun j hb =>
      hb.resolve_right fun hjk => hr hjk.2

/-- Many subscriptions end. -/
theorem Sound.drop_all {ks : List κ} :
    ∀ {l : Leases κ} {users users' : κ → Nat}, l.Sound users native wanted busy →
      (∀ j, users' j + ks.count j = users j) →
      (ks.foldl Leases.drop l).Sound users' native wanted busy := by
  induction ks with
  | nil =>
      intro l users users' h husers
      exact h.congr (fun k => husers k) (fun _ => Iff.rfl) (fun _ => Iff.rfl) fun _ hb => hb
  | cons k ks ih =>
      intro l users users' h husers
      have hk := husers k
      rw [List.count_cons_self] at hk
      refine ih (h.drop (by omega) fun j => ?_) fun j => rfl
      show users' j + ks.count j + _ = _
      rw [← husers j, List.count_cons, Nat.add_assoc]
      by_cases heq : j = k
      · rw [heq, if_pos rfl, if_pos (beq_self_eq_true k)]
      · rw [if_neg heq, if_neg (fun hb => heq (beq_iff_eq.mp hb).symm)]

/-! ## What others do -/

variable {k : κ}

/-- A point is removed that nobody wants any more. -/
theorem Sound.remove (h : l.Sound users native wanted busy)
    (hnative : ∀ j, native' j ↔ native j ∧ j ≠ k) (hwanted : ∀ j, wanted' j ↔ wanted j ∧ j ≠ k)
    (hbusy : ∀ j, busy j → j ≠ k → busy' j) : l.Sound users native' wanted' busy' where
  count := h.count
  positive := h.positive
  removed hj hflag hw := h.removed hj hflag ((hwanted _).mp hw).1
  kept {j _} hj hflag hn :=
    have hn := (hnative j).mp hn
    (h.kept hj hflag hn.1).imp (fun hw => (hwanted j).mpr ⟨hw, hn.2⟩) fun hb => hbusy j hb hn.2
  queued hj := (h.queued hj).imp_left fun hnot hw => hnot ((hwanted _).mp hw).1
  orphan {j} hn hw hj :=
    have hn := (hnative j).mp hn
    (h.orphan hn.1 (fun hwj => hw ((hwanted j).mpr ⟨hwj, hn.2⟩)) hj).imp_right fun hb =>
      hbusy j hb hn.2
  wanted_native hw :=
    have hw := (hwanted _).mp hw
    (hnative _).mpr ⟨h.wanted_native hw.1, hw.2⟩

/-- A point that is gone is taken off the queue. -/
theorem Sound.unqueue (h : l.Sound users native wanted busy) (hk : ¬ native k) :
    (l.unqueue k).Sound users native wanted busy where
  count := h.count
  positive := h.positive
  removed := h.removed
  kept := h.kept
  queued hj := h.queued (mem_unqueue.mp hj).1
  orphan {j} hn hw hj := by
    refine (h.orphan hn hw hj).imp_left fun hq => mem_unqueue.mpr ⟨hq, ?_⟩
    rintro rfl
    exact hk hn
  wanted_native := h.wanted_native

/-- Somebody else comes to want a point, and its lease is marked. -/
theorem Sound.mark (h : l.Sound users native wanted busy) (hk : k ∉ l.pending)
    (hnative : ∀ j, native' j ↔ native j ∨ j = k) (hwanted : ∀ j, wanted' j ↔ wanted j ∨ j = k)
    (hbusy : ∀ j, busy j → j ≠ k → busy' j) :
    (l.markExternalOwner k).Sound users native' wanted' busy' := by
  have hlookup : ∀ j, (l.markExternalOwner k).table.lookup j =
      if j = k then (l.table.lookup k).map fun lease => { lease with removeAtZero := false }
      else l.table.lookup j := fun j => Table.lookup_modify _ _ _ _
  have hold : ∀ {j lease}, (l.markExternalOwner k).table.lookup j = some lease →
      ∃ old, l.table.lookup j = some old ∧ old.subscribers = lease.subscribers ∧
        (j ≠ k → old.removeAtZero = lease.removeAtZero) ∧
          (j = k → lease.removeAtZero = false) := by
    intro j lease hj
    rw [hlookup] at hj
    split at hj
    next heq =>
      obtain ⟨old, hold, rfl⟩ := Option.map_eq_some_iff.mp hj
      exact ⟨old, heq ▸ hold, rfl, fun hne => absurd heq hne, fun _ => rfl⟩
    next heq => exact ⟨lease, hj, rfl, fun _ => rfl, fun h => absurd h heq⟩
  have hnone : ∀ {j}, (l.markExternalOwner k).table.lookup j = none ↔ l.table.lookup j = none := by
    intro j
    rw [hlookup]
    split
    next heq => rw [Option.map_eq_none_iff, heq]
    next => rfl
  refine ⟨fun j => ?_, fun {j _} hj => ?_, fun {j _} hj hflag hw => ?_,
    fun {j _} hj hflag hn => ?_, fun {j} hj => ?_, fun {j} hn hw hj => ?_, fun {j} hw => ?_⟩
  · rw [← h.count j, subscribers, subscribers, hlookup]
    split
    next heq =>
      rw [heq]
      cases l.table.lookup k <;> rfl
    next => rfl
  · obtain ⟨old, hj, hcount, -, -⟩ := hold hj
    exact hcount ▸ h.positive hj
  · obtain ⟨old, hj, -, hflag', hk'⟩ := hold hj
    by_cases heq : j = k
    · rw [hk' heq] at hflag
      cases hflag
    · exact h.removed hj ((hflag' heq).trans hflag) (((hwanted j).mp hw).resolve_right heq)
  · obtain ⟨old, hj, -, hflag', -⟩ := hold hj
    by_cases heq : j = k
    · exact .inl ((hwanted j).mpr (.inr heq))
    · exact (h.kept hj ((hflag' heq).trans hflag) (((hnative j).mp hn).resolve_right heq)).imp
        (fun hw => (hwanted j).mpr (.inl hw)) fun hb => hbusy j hb heq
  · obtain ⟨hw, hlookup'⟩ := h.queued hj
    refine ⟨fun hwj => ?_, hnone.mpr hlookup'⟩
    rcases (hwanted j).mp hwj with hwj | rfl
    · exact hw hwj
    · exact hk hj
  · obtain ⟨hwj, hne⟩ := not_or.mp ((hwanted j).not.mp hw)
    exact (h.orphan (((hnative j).mp hn).resolve_right hne) hwj (hnone.mp hj)).imp_right fun hb =>
      hbusy j hb hne
  · exact (hnative j).mpr (((hwanted j).mp hw).imp_left h.wanted_native)

/-! ## Known points -/

/-- A table has a lease on a point or has queued it. -/
def Knows (l : Leases κ) (k : κ) : Prop := k ∈ l.pending ∨ l.table.lookup k ≠ none

variable {j : κ}

theorem Knows.of_release (h : (l.release k).1.Knows j) : l.Knows j := by
  cases hk : l.table.lookup k with
  | none =>
      rw [release, hk] at h
      exact h
  | some lease =>
      rcases h with hq | hlookup
      · exact .inl (l.pending_release k ▸ hq)
      · right
        rw [lookup_release l hk] at hlookup
        split at hlookup
        next hjk =>
          rw [hjk, hk]
          simp
        next => exact hlookup

theorem Knows.of_queue (h : (l.queue k).Knows j) : l.Knows j ∨ j = k := by
  rcases h with hq | hlookup
  · exact (mem_queue.mp hq).imp_left .inl
  · exact .inl (.inr (l.table_queue k ▸ hlookup))

theorem Knows.of_unqueue (h : (l.unqueue k).Knows j) : l.Knows j :=
  h.imp_left fun hq => (mem_unqueue.mp hq).1

theorem Knows.of_drop (h : (l.drop k).Knows j) : l.Knows j := by
  cases hk : l.table.lookup k with
  | none =>
      rw [drop, release, hk] at h
      exact h
  | some lease =>
      have h' : (if (l.release k).2 then (l.release k).1.queue k else (l.release k).1).Knows j := h
      split at h'
      · rcases h'.of_queue with h' | rfl
        · exact h'.of_release
        · exact .inr (by simp [hk])
      · exact h'.of_release

theorem Knows.of_drop_all {ks : List κ} (h : (ks.foldl Leases.drop l).Knows j) : l.Knows j := by
  induction ks generalizing l with
  | nil => exact h
  | cons k ks ih => exact (ih h).of_drop

end Leases

end PinBridge.Host
