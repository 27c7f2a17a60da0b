import Mathlib.Order.Fin.Basic
import PinBridge.Registers.Snapshot

/-!
# The recorder's deltas

A thread owns at most one slot, because the owned slots form a prefix of the table and a
scan stops at the first slot that is free or its own.  A slot that is valid holds the values
of the last complete attempt of its owner.  So an attempt that is not a baseline is a delta
against the last complete attempt of its thread, and the attempts of a thread are a
`DeltaLog.Chained` log, however the slots were claimed and whatever was dropped.
-/

namespace PinBridge.Registers

open Transition

variable {m : Machine}

/-! ## Attempts as log entries -/

/-- The data of the registers that satisfy `p`, by register id. -/
def Machine.lookup (m : Machine) (p : Index → Bool) (values : Values) (id : Nat) :
    Option (List UInt8) :=
  ((List.finRange contextRegCount).find? fun i => p i && contextReg m.is64 i == id).map
    (m.data values)

/-- An attempt as an entry of the log of its thread. -/
def Attempt.entry (m : Machine) (a : Attempt) : DeltaLog.Entry Nat (List UInt8) where
  content := m.lookup (m.available a.thread) a.values
  full := a.baseline
  changes := m.lookup a.changed a.values
  complete := a.complete m

theorem Machine.width_of_available {t : ThreadId} {i : Index} (h : m.available t i = true) :
    contextWidth m.is64 i ≠ 0 := by
  simp only [Machine.available, Bool.and_eq_true, bne_iff_ne] at h
  exact h.2

theorem Machine.lookup_eq_some {p : Index → Bool} {values : Values} {id : Nat} {d : List UInt8}
    (hp : ∀ i, p i = true → contextWidth m.is64 i ≠ 0) :
    m.lookup p values id = some d ↔
      ∃ i, p i = true ∧ contextReg m.is64 i = id ∧ d = m.data values i := by
  simp only [Machine.lookup, Option.map_eq_some_iff]
  constructor
  · rintro ⟨i, hi, rfl⟩
    have := List.find?_some hi
    simp only [Bool.and_eq_true, beq_iff_eq] at this
    exact ⟨i, this.1, this.2, rfl⟩
  · rintro ⟨i, hi, rfl, rfl⟩
    cases hfind : (List.finRange contextRegCount).find? fun j =>
        p j && contextReg m.is64 j == contextReg m.is64 i with
    | none =>
        have := List.find?_eq_none.mp hfind i (List.mem_finRange i)
        simp [hi] at this
    | some j =>
        have := List.find?_some hfind
        simp only [Bool.and_eq_true, beq_iff_eq] at this
        obtain rfl := contextReg_injective (hp j this.1) (hp i hi) this.2
        exact ⟨j, rfl, rfl⟩

theorem Machine.lookup_eq_none {p : Index → Bool} {values : Values} {id : Nat} :
    m.lookup p values id = none ↔ ∀ i, p i = true → contextReg m.is64 i ≠ id := by
  simp only [Machine.lookup, Option.map_eq_none_iff, List.find?_eq_none, List.mem_finRange,
    Bool.and_eq_true, beq_iff_eq, not_and, true_implies]

/-- The data of a register depends on its chunks. -/
theorem Machine.data_congr {v w : Values} {i : Index}
    (h : ∀ chunk < contextWidth m.is64 i / 8, v i chunk = w i chunk) : m.data v i = m.data w i := by
  unfold Machine.data
  refine List.flatMap_congr fun chunk hchunk => ?_
  rw [h chunk (List.mem_range.mp hchunk)]

/-- A delta restores the content: what differs is sent, the rest has not changed. -/
theorem Machine.lookup_delta {t : ThreadId} {v w : Values} (id : Nat) :
    m.lookup (m.available t) v id =
      (m.lookup (fun i => m.available t i && m.differs w v i) v id).or
        (m.lookup (m.available t) w id) := by
  have hsent : ∀ i, (m.available t i && m.differs w v i) = true → contextWidth m.is64 i ≠ 0 := by
    intro i hi
    exact m.width_of_available (Bool.and_eq_true_iff.mp hi).1
  cases hchanged : m.lookup (fun i => m.available t i && m.differs w v i) v id with
  | some d =>
      obtain ⟨i, hi, hid, rfl⟩ := (Machine.lookup_eq_some hsent).mp hchanged
      rw [Option.some_or, Machine.lookup_eq_some fun i => m.width_of_available]
      exact ⟨i, (Bool.and_eq_true_iff.mp hi).1, hid, rfl⟩
  | none =>
      rw [Option.none_or]
      have hsame : ∀ i, m.available t i = true → contextReg m.is64 i = id →
          m.data v i = m.data w i := by
        intro i hi hid
        refine Machine.data_congr fun chunk hchunk => ?_
        by_contra hne
        refine Machine.lookup_eq_none.mp hchanged i ?_ hid
        simp only [hi, Bool.true_and, Machine.differs, List.any_eq_true, List.mem_range,
          bne_iff_ne]
        exact ⟨chunk, hchunk, fun h => hne h.symm⟩
      cases hw : m.lookup (m.available t) w id with
      | none => exact Machine.lookup_eq_none.mpr (Machine.lookup_eq_none.mp hw)
      | some d =>
          obtain ⟨i, hi, hid, rfl⟩ := (Machine.lookup_eq_some fun i => m.width_of_available).mp hw
          exact (Machine.lookup_eq_some fun i => m.width_of_available).mpr
            ⟨i, hi, hid, (hsame i hi hid).symm⟩

/-! ## The invariant -/

/-- The log of a thread. -/
def State.log (m : Machine) (s : State) (t : ThreadId) : List (DeltaLog.Entry Nat (List UInt8)) :=
  (s.attempts t).map (Attempt.entry m)

/-- Slot `j` belongs to another thread. -/
def State.Foreign (s : State) (t : ThreadId) (j : SlotIndex) : Prop :=
  (s.slots j).owner ≠ none ∧ (s.slots j).owner ≠ some t

/-- The slot of a thread that submits. -/
def State.Slot (s : State) (t : ThreadId) : Option SlotIndex → Prop
  | some k => (s.slots k).owner = some t
  | none => ∀ j, s.Foreign t j

/-- An attempt of thread `t` sends registers that can be read. -/
structure Attempt.Ok (m : Machine) (t : ThreadId) (a : Attempt) : Prop where
  thread : a.thread = t
  changed : ∀ i, a.changed i = true → m.available t i = true

/-- What a thread relies on at each access. -/
def Pc.Knows (m : Machine) (s : State) (t : ThreadId) : Pc → Prop
  | .idle => True
  | .scan _ k => ∀ j < k, s.Foreign t j
  | .claim _ k => (∀ j < k, s.Foreign t j) ∧ (s.slots k).owner ≠ some t
  | .submit a slot => a.Ok m t ∧ a.outcomes.length < (a.events m).length ∧ s.Slot t slot ∧
      DeltaLog.Follows (DeltaLog.lastComplete (s.log m t)) (a.entry m)

/-- A valid slot holds the values of the last complete attempt of its owner. -/
def State.Holds (m : Machine) (s : State) (k : SlotIndex) (t : ThreadId) : Prop :=
  ∃ a : Attempt, a.thread = t ∧ DeltaLog.lastComplete (s.log m t) = some (a.entry m) ∧
    ∀ i, m.available t i = true → ∀ chunk < contextWidth m.is64 i / 8,
      (s.slots k).values i chunk = a.values i chunk

/-- The invariant of the recorder. -/
structure Inv (m : Machine) (s : State) : Prop where
  gapless : ∀ j k, j < k → (s.slots k).owner ≠ none → (s.slots j).owner ≠ none
  injective : ∀ j k t, (s.slots j).owner = some t → (s.slots k).owner = some t → j = k
  free : ∀ k, (s.slots k).owner = none → (s.slots k).valid = false
  threads : ∀ t, (s.threads t).Knows m s t
  values : ∀ k t, (s.slots k).owner = some t → (s.slots k).valid = true → s.Holds m k t
  chained : ∀ t, DeltaLog.Chained (s.log m t)
  ended : ∀ t, ∀ a ∈ s.attempts t, a.Ok m t ∧ a.outcomes.length = (a.events m).length

theorem SessionStart.inv {s : State} (h : SessionStart s) : Inv m s where
  gapless _ k _ hk := absurd (h.reset k).1 hk
  injective i _ t hi := by
    rw [(h.reset i).1] at hi
    cases hi
  free k _ := (h.reset k).2
  threads t := by
    rw [h.outside t]
    trivial
  values k t hk := by
    rw [(h.reset k).1] at hk
    cases hk
  chained t := by
    rw [State.log, h.attempts t]
    exact .nil
  ended t a ha := by
    rw [h.attempts t] at ha
    cases ha

/-- The slots of `s'` are those of `s`, except that thread `t` may have claimed one. -/
def Claims (s s' : State) (t : ThreadId) : Prop :=
  ∀ j, (s'.slots j).owner = (s.slots j).owner ∨
    (s.slots j).owner = none ∧ (s'.slots j).owner = some t

theorem State.Foreign.claims {s s' : State} {t u : ThreadId} {j : SlotIndex}
    (h : s.Foreign u j) (hclaims : Claims s s' t) : s'.Foreign u j := by
  obtain hj | ⟨hj, -⟩ := hclaims j
  · exact ⟨by rw [hj]; exact h.1, by rw [hj]; exact h.2⟩
  · exact absurd hj h.1

/-- What another thread relies on survives the claim of a slot. -/
theorem Pc.Knows.congr {s s' : State} {t u : ThreadId} {pc : Pc} (h : pc.Knows m s u)
    (hut : u ≠ t) (hclaims : Claims s s' t) (hattempts : s'.attempts u = s.attempts u) :
    pc.Knows m s' u := by
  cases pc with
  | idle => trivial
  | scan x k => exact fun j hj => (h j hj).claims hclaims
  | claim x k =>
      refine ⟨fun j hj => (h.1 j hj).claims hclaims, ?_⟩
      obtain hk | ⟨-, hk⟩ := hclaims k
      · rw [hk]
        exact h.2
      · rw [hk]
        exact fun heq => hut (Option.some.inj heq).symm
  | submit a slot =>
      refine ⟨h.1, h.2.1, ?_, by rw [State.log, hattempts]; exact h.2.2.2⟩
      cases slot with
      | none => exact fun j => (h.2.2.1 j).claims hclaims
      | some k =>
          have hown : (s.slots k).owner = some u := h.2.2.1
          obtain hk | ⟨hk, -⟩ := hclaims k
          · exact hk.trans hown
          · rw [hk] at hown
            cases hown

/-- A step of thread `t` to `pc` that leaves the slots and the attempts alone. -/
theorem Inv.goto {s s' : State} {t : ThreadId} {pc : Pc} (h : Inv m s)
    (hslots : s'.slots = s.slots) (hthreads : s'.threads = Function.update s.threads t pc)
    (hattempts : s'.attempts = s.attempts) (hpc : pc.Knows m s t) : Inv m s' := by
  have hlog : ∀ u, s'.log m u = s.log m u := fun u => by rw [State.log, hattempts, State.log]
  have hknows : ∀ {u} {pc : Pc}, pc.Knows m s u → pc.Knows m s' u := by
    intro u pc hpc
    cases pc with
    | idle => trivial
    | scan | claim =>
        unfold Pc.Knows State.Foreign at hpc ⊢
        rw [hslots]
        exact hpc
    | submit a slot =>
        refine ⟨hpc.1, hpc.2.1, ?_, by rw [hlog]; exact hpc.2.2.2⟩
        cases slot <;> (have hslot := hpc.2.2.1; unfold State.Slot State.Foreign at *; rw [hslots])
        · exact hslot
        · exact hslot
  constructor
  · rw [hslots]
    exact h.gapless
  · rw [hslots]
    exact h.injective
  · rw [hslots]
    exact h.free
  · intro u
    rw [hthreads]
    by_cases hu : u = t
    · subst hu
      rw [Function.update_self]
      exact hknows hpc
    · rw [Function.update_of_ne hu]
      exact hknows (h.threads u)
  · intro k u hk hvalid
    rw [hslots] at hk hvalid
    unfold State.Holds
    rw [hlog, hslots]
    exact h.values k u hk hvalid
  · intro u
    rw [hlog]
    exact h.chained u
  · rw [hattempts]
    exact h.ended

/-! ## Steps -/

/-- The attempt of a snapshot is written against the last complete attempt. -/
theorem Inv.attempt {s : State} {t : ThreadId} (h : Inv m s) (x : Snapshot)
    (slot : Option SlotIndex) (hslot : s.Slot t slot) :
    (Pc.submit (m.attempt s t x slot) slot).Knows m s t := by
  refine ⟨⟨rfl, fun i hi => (Bool.and_eq_true_iff.mp hi).1⟩, Nat.succ_pos _, hslot,
    fun hfull id => ?_, fun hfull => ?_⟩
  · have hchanged : (m.attempt s t x slot).changed = m.available t := by
      funext i
      change (m.available t i && ((m.attempt s t x slot).baseline || _)) = _
      rw [show (m.attempt s t x slot).baseline = true from hfull]
      simp
    change m.lookup (m.attempt s t x slot).changed _ id = _
    rw [hchanged]
    rfl
  · cases slot with
    | none => cases hfull
    | some k =>
        have hbase : (!(s.slots k).valid) = false := hfull
        have hvalid : (s.slots k).valid = true := by simpa using hbase
        obtain ⟨a, ha, hlast, hvalues⟩ := h.values k t hslot hvalid
        refine ⟨a.entry m, hlast, fun id => ?_⟩
        have hchanged : (m.attempt s t x (some k)).changed =
            fun i => m.available t i && m.differs a.values x.values i := by
          funext i
          change (m.available t i && ((!(s.slots k).valid) || m.differs (s.slots k).values _ i)) = _
          rw [hbase, Bool.false_or]
          by_cases hi : m.available t i = true
          · congr 1
            refine Bool.eq_iff_iff.mpr ?_
            simp only [Machine.differs, List.any_eq_true, List.mem_range]
            refine exists_congr fun chunk => and_congr_right fun hchunk => ?_
            rw [hvalues i hi chunk hchunk]
          · simp [hi]
        change m.lookup (m.available t) x.values id =
          (m.lookup (m.attempt s t x (some k)).changed x.values id).or
            (m.lookup (m.available a.thread) a.values id)
        rw [hchanged, ha]
        exact Machine.lookup_delta id

/-- A thread that cannot have slot `k` goes on to the next one. -/
theorem Inv.skip {s : State} {t : ThreadId} (h : Inv m s) (x : Snapshot) {k : SlotIndex}
    (hbefore : ∀ j < k, s.Foreign t j) (hk : s.Foreign t k) : Inv m (m.skip s t x k) := by
  have hupto : ∀ j : SlotIndex, j.val ≤ k.val → s.Foreign t j := by
    intro j hj
    obtain hlt | heq := Nat.lt_or_eq_of_le hj
    · exact hbefore j hlt
    · rw [Fin.ext heq]
      exact hk
  refine h.goto rfl rfl rfl ?_
  unfold nextSlot
  split
  case h_1 k' hnext =>
    split at hnext
    case isTrue hlt =>
      cases hnext
      exact fun j hj => hupto j (Nat.le_of_lt_succ hj)
    case isFalse => cases hnext
  case h_2 hnext =>
    split at hnext
    case isTrue => cases hnext
    case isFalse hlast =>
      refine h.attempt x none fun j => hupto j ?_
      have := j.isLt
      omega

/-- A thread claims the first free slot. -/
theorem Inv.claim {s : State} {t : ThreadId} (h : Inv m s) (x : Snapshot) {k : SlotIndex}
    (hbefore : ∀ j < k, s.Foreign t j) (hk : (s.slots k).owner = none) :
    Inv m { s.goto t (.submit (m.attempt s t x (some k)) (some k)) with
      slots := Function.update s.slots k { s.slots k with owner := some t } } := by
  have hnone : ∀ j, (s.slots j).owner ≠ some t := by
    intro j hj
    obtain hlt | heq | hgt := lt_trichotomy j k
    · exact (hbefore j hlt).2 hj
    · rw [heq, hk] at hj
      cases hj
    · exact h.gapless k j hgt (by rw [hj]; exact Option.some_ne_none t) hk
  have hother : ∀ j, j ≠ k →
      Function.update s.slots k { s.slots k with owner := some t } j = s.slots j := fun j hj =>
    Function.update_of_ne hj _ _
  have hclaims : Claims s { s.goto t (.submit (m.attempt s t x (some k)) (some k)) with
      slots := Function.update s.slots k { s.slots k with owner := some t } } t := by
    intro j
    by_cases hj : j = k
    · subst hj
      exact .inr ⟨hk, by simp⟩
    · exact .inl (by simp [hj])
  constructor
  · intro j l hjl hl
    by_cases hj : j = k
    · subst hj
      simp
    · dsimp only at hl ⊢
      rw [hother j hj]
      by_cases hlk : l = k
      · subst hlk
        exact (hbefore j hjl).1
      · rw [hother l hlk] at hl
        exact h.gapless j l hjl hl
  · intro j l u hj hl
    dsimp only at hj hl
    by_cases hjk : j = k
    · by_cases hlk : l = k
      · rw [hjk, hlk]
      · rw [hother l hlk] at hl
        rw [hjk, Function.update_self] at hj
        cases hj
        exact absurd hl (hnone l)
    · rw [hother j hjk] at hj
      by_cases hlk : l = k
      · rw [hlk, Function.update_self] at hl
        cases hl
        exact absurd hj (hnone j)
      · rw [hother l hlk] at hl
        exact h.injective j l u hj hl
  · intro j hj
    dsimp only at hj ⊢
    by_cases hjk : j = k
    · rw [hjk, Function.update_self] at hj
      cases hj
    · rw [hother j hjk] at hj ⊢
      exact h.free j hj
  · intro u
    dsimp only [State.goto]
    by_cases hu : u = t
    · subst hu
      rw [Function.update_self]
      refine ⟨⟨rfl, fun i hi => (Bool.and_eq_true_iff.mp hi).1⟩, Nat.succ_pos _, ?_,
        fun _ id => ?_, fun hfull => ?_⟩
      · simp [State.Slot]
      · have hchanged : (m.attempt s u x (some k)).changed = m.available u := by
          funext i
          simp [Machine.attempt, h.free k hk]
        change m.lookup (m.attempt s u x (some k)).changed _ id = _
        rw [hchanged]
        rfl
      · have : (!(s.slots k).valid) = false := hfull
        rw [h.free k hk] at this
        cases this
    · rw [Function.update_of_ne hu]
      exact (h.threads u).congr hu hclaims rfl
  · intro j u hj hvalid
    dsimp only at hj hvalid
    by_cases hjk : j = k
    · rw [hjk, Function.update_self] at hvalid
      rw [h.free k hk] at hvalid
      cases hvalid
    · rw [hother j hjk] at hj hvalid
      obtain ⟨a, ha, hlast, hvalues⟩ := h.values j u hj hvalid
      refine ⟨a, ha, hlast, ?_⟩
      dsimp only
      rw [hother j hjk]
      exact hvalues
  · exact h.chained
  · exact h.ended

/-- The end of an attempt. -/
theorem Inv.finish {s : State} {t : ThreadId} (h : Inv m s) {a : Attempt}
    {slot : Option SlotIndex} (hok : a.Ok m t) (hended : a.outcomes.length = (a.events m).length)
    (hslot : s.Slot t slot)
    (hfollows : DeltaLog.Follows (DeltaLog.lastComplete (s.log m t)) (a.entry m)) :
    Inv m (m.finish s t a slot) := by
  have hlog : (m.finish s t a slot).log m t = s.log m t ++ [a.entry m] := by
    simp [State.log, Machine.finish]
  have hlogs : ∀ u, u ≠ t → (m.finish s t a slot).log m u = s.log m u := by
    intro u hu
    simp [State.log, Machine.finish, hu]
  have hslots : ∀ j, ((m.finish s t a slot).slots j = s.slots j ∧
        (slot = some j → a.complete m ≠ true)) ∨
      slot = some j ∧ a.complete m = true ∧
        (m.finish s t a slot).slots j = m.store (s.slots j) a := by
    intro j
    cases slot with
    | none => exact .inl ⟨rfl, nofun⟩
    | some k =>
        by_cases hcomplete : a.complete m = true
        · by_cases hj : j = k
          · subst hj
            exact .inr ⟨rfl, hcomplete, by simp [Machine.finish, hcomplete]⟩
          · refine .inl ⟨by simp [Machine.finish, hcomplete, hj], ?_⟩
            rintro ⟨⟩
            exact absurd rfl hj
        · exact .inl ⟨by simp [Machine.finish, hcomplete], fun _ => hcomplete⟩
  have howner : ∀ j, ((m.finish s t a slot).slots j).owner = (s.slots j).owner := by
    intro j
    obtain ⟨hj, -⟩ | ⟨-, -, hj⟩ := hslots j <;> rw [hj]
    rfl
  constructor
  · intro j k
    rw [howner, howner]
    exact h.gapless j k
  · intro j k u
    rw [howner, howner]
    exact h.injective j k u
  · intro j hj
    rw [howner] at hj
    obtain ⟨heq, -⟩ | ⟨rfl, -, -⟩ := hslots j
    · rw [heq]
      exact h.free j hj
    · rw [show (s.slots j).owner = some t from hslot] at hj
      cases hj
  · intro u
    change (Function.update s.threads t .idle u).Knows m _ u
    by_cases hu : u = t
    · subst hu
      rw [Function.update_self]
      trivial
    · rw [Function.update_of_ne hu]
      exact (h.threads u).congr hu (fun j => .inl (howner j)) (by simp [Machine.finish, hu])
  · intro j u hj hvalid
    rw [howner] at hj
    unfold State.Holds
    obtain ⟨heq, hkept⟩ | ⟨rfl, hcomplete, heq⟩ := hslots j
    · rw [heq] at hvalid ⊢
      obtain ⟨b, hb, hlast, hvalues⟩ := h.values j u hj hvalid
      refine ⟨b, hb, ?_, hvalues⟩
      by_cases hu : u = t
      · -- the thread keeps a slot unchanged only if its attempt is incomplete
        subst hu
        rw [hlog, DeltaLog.lastComplete_concat, if_neg]
        · exact hlast
        · intro hcomplete
          cases slot with
          | none => exact (hslot j).2 hj
          | some k =>
              obtain rfl := h.injective k j u hslot hj
              exact hkept rfl hcomplete
      · rw [hlogs u hu]
        exact hlast
    · rw [show (s.slots j).owner = some t from hslot] at hj
      cases hj
      refine ⟨a, hok.thread, ?_, fun i hi chunk hchunk => ?_⟩
      · rw [hlog, DeltaLog.lastComplete_concat]
        exact if_pos hcomplete
      · rw [heq]
        simp [Machine.store, hok.thread, hi, hchunk]
  · intro u
    by_cases hu : u = t
    · subst hu
      rw [hlog]
      exact (h.chained u).concat hfollows
    · rw [hlogs u hu]
      exact h.chained u
  · intro u b hb
    change b ∈ Function.update s.attempts t (s.attempts t ++ [a]) u at hb
    by_cases hu : u = t
    · subst hu
      rw [Function.update_self] at hb
      obtain hb | hb := List.mem_append.mp hb
      · exact h.ended u b hb
      · rw [List.mem_singleton.mp hb]
        exact ⟨hok, hended⟩
    · rw [Function.update_of_ne hu] at hb
      exact h.ended u b hb

theorem Inv.step {s s' : State} {a : Action} (h : Inv m s) (hstep : step m s a = some s') :
    Inv m s' := by
  cases a with
  | enter t rip reads =>
      simp only [Registers.step] at hstep
      split at hstep
      · cases hstep
        exact h.goto rfl rfl rfl fun j hj => absurd hj (Nat.not_lt_zero _)
      · cases hstep
  | slot t =>
      simp only [Registers.step] at hstep
      have hknows := h.threads t
      split at hstep
      case h_1 x k hpc =>
        rw [hpc] at hknows
        cases hstep
        split
        case h_1 owner howner =>
          split
          case isTrue heq =>
            subst heq
            exact h.goto rfl rfl rfl (h.attempt x (some k) howner)
          case isFalse hne =>
            exact h.skip x hknows ⟨by rw [howner]; exact Option.some_ne_none _,
              by rw [howner]; exact fun heq => hne (Option.some.inj heq)⟩
        case h_2 hfree =>
          exact h.goto rfl rfl rfl ⟨hknows, by rw [hfree]; exact nofun⟩
      case h_2 x k hpc =>
        rw [hpc] at hknows
        cases hstep
        split
        case isTrue hfree => exact h.claim x hknows.1 hfree
        case isFalse hne => exact h.skip x hknows.1 ⟨hne, hknows.2⟩
      case h_3 => cases hstep
  | submit t outcome =>
      simp only [Registers.step] at hstep
      have hknows := h.threads t
      split at hstep
      case h_1 a slot hpc =>
        rw [hpc] at hknows
        obtain ⟨hok, hlt, hslot, hfollows⟩ := hknows
        obtain ⟨e, -, rfl⟩ := Option.map_eq_some_iff.mp hstep
        have hrecord : Inv m (s.record e outcome) :=
          ⟨h.gapless, h.injective, h.free, h.threads, h.values, h.chained, h.ended⟩
        have hok' : Attempt.Ok m t { a with outcomes := a.outcomes ++ [outcome.isSome] } :=
          ⟨hok.thread, hok.changed⟩
        split
        case isTrue hend =>
          exact hrecord.finish hok' hend hslot ⟨hfollows.full, hfollows.delta⟩
        case isFalse hne =>
          refine hrecord.goto (t := t) rfl rfl rfl
            ⟨hok', ?_, hslot, ⟨hfollows.full, hfollows.delta⟩⟩
          simp only [List.length_append, List.length_singleton] at hne ⊢
          exact Nat.lt_of_le_of_ne hlt hne
      case h_2 => cases hstep
  | other t e =>
      simp only [Registers.step] at hstep
      split at hstep
      · split at hstep
        · cases hstep
          exact h.goto (t := t) rfl (Function.update_eq_self t _).symm rfl (h.threads t)
        · cases hstep
      · cases hstep
  | marker e =>
      simp only [Registers.step] at hstep
      split at hstep
      · cases hstep
        exact ⟨h.gapless, h.injective, h.free, h.threads, h.values, h.chained, h.ended⟩
      · cases hstep

end PinBridge.Registers
