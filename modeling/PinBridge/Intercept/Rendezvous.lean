import PinBridge.Intercept.Ownership

/-!
# The rendezvous is safe

Next to the slots stand the `Accounts`: every call that has returned is counted once,
under the counter that belongs to its result, and the three counters are the numbers
of the increments.  A call whose slot is in a state the code does not expect would
return uncounted; `Slots` says that this does not happen.

Both invariants hold in every state of every run, and `Safe` follows from them.
-/

namespace PinBridge.Intercept

open Transition

variable {ρ σ : Type*} {n : Nat}

/-! ## Accounts -/

/-- The counter a call in progress has incremented. -/
def CallPc.counter : CallPc ρ σ → Option Counter
  | storeIdle _ _ => some .completed
  | _ => none

/-- The counter a return belongs to. -/
def Return.counter (e : Return σ) : Counter :=
  match e.result, e.ticket with
  | some _, _ => .completed
  | none, some _ => .timeouts
  | none, none => .busy

/-- A returned response was passed to `complete` for the generation of the call. -/
def Return.Answered (completions : List (SlotIndex × Nat × σ)) (e : Return σ) : Prop :=
  ∀ r, e.result = some r →
    ∃ t, e.ticket = some t ∧ t.call = e.call ∧ (t.slot, t.generation, r) ∈ completions

/-- The number of increments of a counter, as a word. -/
def State.total (s : State ρ σ n) (c : Counter) : Nat :=
  s.log.counted.countP (fun e => e.2 = c) % 2 ^ 64

/-- The three counters are the numbers of their increments. -/
structure Totals (s : State ρ σ n) : Prop where
  completed : s.completed = s.total .completed
  timeouts : s.timeouts = s.total .timeouts
  busy : s.busy = s.total .busy

/-- The invariant of the calls and the counters. -/
structure Accounts (s : State ρ σ n) : Prop where
  ready : s.ready = true
  fresh : ∀ i c, (s.threads i).call = some c → c < s.calls
  differ : CallsDiffer s
  taken : ∀ c ∈ s.log.taken, c < s.calls
  counted : ∀ c k, (c, k) ∈ s.log.counted → c < s.calls
  current : ∀ i c, (s.threads i).call = some c →
    ∀ k, (c, k) ∈ s.log.counted ↔ (s.threads i).counter = some k
  once : (s.log.counted.map Prod.fst).Nodup
  all : ∀ c < s.calls, (∃ i, (s.threads i).call = some c) ∨ ∃ k, (c, k) ∈ s.log.counted
  returned : ∀ e ∈ s.log.returned,
    (e.call, e.counter) ∈ s.log.counted ∧ e.Answered s.log.completions
  totals : Totals s

/-- A step of the call `c` of thread `i` that increments the counter `add`, if any. -/
theorem Accounts.thread {s s' : State ρ σ n} {i : Fin n} {c : Nat} {pc : CallPc ρ σ}
    (add : Option Counter) (hs : Accounts s) (hcall : (s.threads i).call = some c)
    (hthreads : s'.threads = Function.update s.threads i pc) (hready : s'.ready = s.ready)
    (hcalls : s'.calls = s.calls) (htaken : s'.log.taken = s.log.taken)
    (hcompletions : s'.log.completions = s.log.completions)
    (hcounted : s'.log.counted = s.log.counted ++ add.toList.map (Prod.mk c))
    (hadd : add = none ∨ (s.threads i).counter = none)
    (hpc : pc.call = some c ∧ pc.counter = (s.threads i).counter.or add ∨
      pc.call = none ∧ ((s.threads i).counter.or add).isSome = true)
    (hreturned : ∀ e ∈ s'.log.returned, e ∈ s.log.returned ∨
      e.call = c ∧ (s.threads i).counter.or add = some e.counter ∧
        e.Answered s.log.completions)
    (htotals : Totals s') : Accounts s' := by
  have hmem : ∀ c' k, (c', k) ∈ s'.log.counted ↔
      (c', k) ∈ s.log.counted ∨ c' = c ∧ add = some k := by
    intro c' k
    rw [hcounted, List.mem_append]
    cases add <;> simp [eq_comm]
  have hmine : ∀ k, (c, k) ∈ s'.log.counted ↔ (s.threads i).counter.or add = some k := by
    intro k
    rw [hmem, hs.current i c hcall k]
    obtain rfl | hnone := hadd
    · simp
    · simp [hnone]
  have hself : s'.threads i = pc := by rw [hthreads, Function.update_self]
  have hother : ∀ j, j ≠ i → s'.threads j = s.threads j := by
    intro j hj
    rw [hthreads, Function.update_of_ne hj]
  have hpcall : ∀ c', pc.call = some c' → c' = c ∧ pc.counter = (s.threads i).counter.or add := by
    intro c' hc'
    obtain ⟨hsome, hcounter⟩ | ⟨hnone, -⟩ := hpc
    · exact ⟨Option.some.inj (hc'.symm.trans hsome), hcounter⟩
    · rw [hnone] at hc'
      cases hc'
  have hdistinct : ∀ j c', j ≠ i → (s.threads j).call = some c' → c' ≠ c := by
    rintro j c' hj hc' rfl
    exact hj (hs.differ j i c' hc' hcall)
  have hcurrent : ∀ j c', (s'.threads j).call = some c' → j = i ∧ c' = c ∨
      j ≠ i ∧ c' ≠ c ∧ (s.threads j).call = some c' := by
    intro j c' hc'
    by_cases hj : j = i
    · subst hj
      rw [hself] at hc'
      exact .inl ⟨rfl, (hpcall c' hc').1⟩
    · rw [hother j hj] at hc'
      exact .inr ⟨hj, hdistinct j c' hj hc', hc'⟩
  refine ⟨hready.trans hs.ready, fun j c' hc' => ?_, fun j j' c' hc' hc'' => ?_, ?_,
    fun c' k hk => ?_, fun j c' hc' k => ?_, ?_, fun c' hc' => ?_, fun e he => ?_, htotals⟩
  · rw [hcalls]
    obtain ⟨-, rfl⟩ | ⟨-, -, hold⟩ := hcurrent j c' hc'
    · exact hs.fresh i c' hcall
    · exact hs.fresh j c' hold
  · obtain ⟨rfl, rfl⟩ | ⟨hj, hne, hold⟩ := hcurrent j c' hc'
    · obtain ⟨rfl, -⟩ | ⟨-, hne, -⟩ := hcurrent j' c' hc''
      · rfl
      · exact absurd rfl hne
    · obtain ⟨-, rfl⟩ | ⟨-, -, hold'⟩ := hcurrent j' c' hc''
      · exact absurd rfl hne
      · exact hs.differ j j' c' hold hold'
  · rw [htaken, hcalls]
    exact hs.taken
  · rw [hcalls]
    obtain hk | ⟨rfl, -⟩ := (hmem c' k).mp hk
    · exact hs.counted c' k hk
    · exact hs.fresh i c' hcall
  · obtain ⟨rfl, rfl⟩ | ⟨hj, hne, hold⟩ := hcurrent j c' hc'
    · rw [hself] at hc' ⊢
      rw [hmine, (hpcall c' hc').2]
    · rw [hmem, hother j hj, hs.current j c' hold]
      simp [hne]
  · rw [hcounted, List.map_append]
    obtain rfl | hnone := hadd
    · simpa using hs.once
    · refine List.nodup_append.mpr ⟨hs.once, ?_, ?_⟩
      · cases add <;> simp
      · rintro a ha b hb rfl
        obtain ⟨⟨a, k⟩, hak, rfl⟩ := List.mem_map.mp ha
        obtain rfl : a = c := by
          cases add <;> simp at hb
          exact hb
        rw [hs.current i a hcall, hnone] at hak
        cases hak
  · rw [hcalls] at hc'
    obtain ⟨j, hj⟩ | ⟨k, hk⟩ := hs.all c' hc'
    · by_cases hji : j = i
      · subst hji
        obtain rfl := Option.some.inj (hcall.symm.trans hj)
        obtain ⟨hsome, -⟩ | ⟨-, hisSome⟩ := hpc
        · exact .inl ⟨j, by rw [hself]; exact hsome⟩
        · obtain ⟨k, hk⟩ := Option.isSome_iff_exists.mp hisSome
          exact .inr ⟨k, (hmine k).mpr hk⟩
      · exact .inl ⟨j, by rw [hother j hji]; exact hj⟩
    · exact .inr ⟨k, (hmem c' k).mpr (.inl hk)⟩
  · rw [hcompletions]
    obtain he | ⟨rfl, hcounter, hanswered⟩ := hreturned e he
    · exact ⟨(hmem _ _).mpr (.inl (hs.returned e he).1), (hs.returned e he).2⟩
    · exact ⟨(hmine _).mpr hcounter, hanswered⟩

/-- The totals depend on the log of the increments and on the counters. -/
theorem Totals.congr {s s' : State ρ σ n} (h : Totals s) (hcounted : s'.log.counted = s.log.counted)
    (hcompleted : s'.completed = s.completed) (htimeouts : s'.timeouts = s.timeouts)
    (hbusy : s'.busy = s.busy) : Totals s' := by
  have htotal : ∀ c, s'.total c = s.total c := fun c => by rw [State.total, hcounted, State.total]
  constructor
  · rw [hcompleted, htotal, h.completed]
  · rw [htimeouts, htotal, h.timeouts]
  · rw [hbusy, htotal, h.busy]

/-- The increment of a counter. -/
theorem State.total_count {s s' : State ρ σ n} {call : Nat} {c : Counter}
    (hcounted : s'.log.counted = s.log.counted ++ [(call, c)]) (d : Counter) :
    s'.total d = if c = d then (s.total d + 1) % 2 ^ 64 else s.total d := by
  rw [State.total, hcounted, List.countP_append, State.total]
  by_cases hcd : c = d
  · simp [hcd]
  · simp [hcd]

/-- A step of a call that neither increments a counter nor returns. -/
theorem Accounts.quiet {s s' : State ρ σ n} {i : Fin n} {c : Nat} {pc : CallPc ρ σ}
    (hs : Accounts s) (hcall : (s.threads i).call = some c)
    (hthreads : s'.threads = Function.update s.threads i pc) (hready : s'.ready = s.ready)
    (hcalls : s'.calls = s.calls) (hlog : s'.log = s.log)
    (hcompleted : s'.completed = s.completed) (htimeouts : s'.timeouts = s.timeouts)
    (hbusy : s'.busy = s.busy) (hpc : pc.call = some c)
    (hcounter : pc.counter = (s.threads i).counter) : Accounts s' := by
  refine hs.thread none hcall hthreads hready hcalls (by rw [hlog]) (by rw [hlog])
    (by simp [hlog]) (.inl rfl) (.inl ⟨hpc, by simp [hcounter]⟩) (fun e he => .inl ?_)
    (hs.totals.congr (by rw [hlog]) hcompleted htimeouts hbusy)
  rw [hlog] at he
  exact he

theorem Accounts.callStep [Inhabited σ] {s s' : State ρ σ n} {i : Fin n} (ha : Accounts s)
    (hs : Slots s) (hstep : callStep s i = some s') : Accounts s' := by
  have hknows := hs.calls i
  unfold Intercept.callStep at hstep
  cases hpc : s.threads i with
  | idle =>
      rw [hpc] at hstep
      cases hstep
  | claim c request k =>
      rw [hpc] at hstep
      cases hstep
      have hcall : (s.threads i).call = some c := by rw [hpc]; rfl
      split
      · exact ha.quiet hcall rfl rfl rfl rfl rfl rfl rfl rfl (by rw [hpc]; rfl)
      · split
        · exact ha.quiet hcall rfl rfl rfl rfl rfl rfl rfl rfl (by rw [hpc]; rfl)
        · exact ha.quiet hcall rfl rfl rfl rfl rfl rfl rfl rfl (by rw [hpc]; rfl)
  | addBusy c =>
      rw [hpc] at hstep
      cases hstep
      refine ha.thread (some .busy) (by rw [hpc]; rfl) rfl rfl rfl rfl rfl rfl
        (.inr (by rw [hpc]; rfl)) (.inr ⟨rfl, by rw [hpc]; rfl⟩) (fun e he => ?_) ⟨?_, ?_, ?_⟩
      · refine (List.mem_append.mp he).imp_right fun hmem => ?_
        cases List.mem_singleton.mp hmem
        exact ⟨rfl, by rw [hpc]; rfl, nofun⟩
      · rw [State.total_count (s := s) rfl]
        exact ha.totals.completed
      · rw [State.total_count (s := s) rfl]
        exact ha.totals.timeouts
      · rw [State.total_count (s := s) rfl, ← ha.totals.busy]
        rfl
  | nextGeneration | storeGeneration | writeRequest | clearResponse | clearSemaphore
  | storePending | wait | readResponse =>
      rw [hpc] at hstep
      cases hstep
      exact ha.quiet (by rw [hpc]; rfl) rfl rfl rfl rfl rfl rfl rfl rfl (by rw [hpc]; rfl)
  | loadSemaphore t =>
      rw [hpc] at hstep
      cases hstep
      rw [if_pos ha.ready]
      exact ha.quiet (by rw [hpc]; rfl) rfl rfl rfl rfl rfl rfl rfl rfl (by rw [hpc]; rfl)
  | abandon t =>
      rw [hpc] at hknows
      exact hknows.elim
  | loadState t =>
      rw [hpc] at hstep hknows
      have hw : Waiting s t := hknows
      have howned := hw.owned
      cases hstep
      have hcall : (s.threads i).call = some t.call := by rw [hpc]; rfl
      cases hst : (s.slots t.slot).state with
      | decided | pending | handling =>
          exact ha.quiet hcall rfl rfl rfl rfl rfl rfl rfl rfl (by rw [hpc]; rfl)
      | writing => exact absurd hst hw.written
      | idle | cancelled =>
          rw [hst] at howned
          cases howned
  | addCompleted t r =>
      rw [hpc] at hstep
      cases hstep
      refine ha.thread (some .completed) (by rw [hpc]; rfl) rfl rfl rfl rfl rfl rfl
        (.inr (by rw [hpc]; rfl)) (.inl ⟨rfl, by rw [hpc]; rfl⟩) (fun e he => .inl he)
        ⟨?_, ?_, ?_⟩
      · rw [State.total_count (s := s) rfl, ← ha.totals.completed]
        rfl
      · rw [State.total_count (s := s) rfl]
        exact ha.totals.timeouts
      · rw [State.total_count (s := s) rfl]
        exact ha.totals.busy
  | storeIdle t r =>
      rw [hpc] at hstep hknows
      cases hstep
      refine ha.thread none (by rw [hpc]; rfl) rfl rfl rfl rfl rfl
        (List.append_nil _).symm (.inl rfl) (.inr ⟨rfl, by rw [hpc]; rfl⟩) (fun e he => ?_)
        (ha.totals.congr rfl rfl rfl rfl)
      refine (List.mem_append.mp he).imp_right fun hmem => ?_
      cases List.mem_singleton.mp hmem
      refine ⟨rfl, by rw [hpc]; rfl, ?_⟩
      rintro r' ⟨⟩
      exact ⟨t, rfl, rfl, hknows.2⟩
  | cancelPending t | cancelHandling t =>
      rw [hpc] at hstep
      cases hstep
      split
      · exact ha.quiet (by rw [hpc]; rfl) rfl rfl rfl rfl rfl rfl rfl rfl (by rw [hpc]; rfl)
      · exact ha.quiet (by rw [hpc]; rfl) rfl rfl rfl rfl rfl rfl rfl rfl (by rw [hpc]; rfl)
  | addTimeout t =>
      rw [hpc] at hstep
      cases hstep
      refine ha.thread (some .timeouts) (by rw [hpc]; rfl) rfl rfl rfl rfl rfl rfl
        (.inr (by rw [hpc]; rfl)) (.inr ⟨rfl, by rw [hpc]; rfl⟩) (fun e he => ?_) ⟨?_, ?_, ?_⟩
      · refine (List.mem_append.mp he).imp_right fun hmem => ?_
        cases List.mem_singleton.mp hmem
        exact ⟨rfl, by rw [hpc]; rfl, nofun⟩
      · rw [State.total_count (s := s) rfl]
        exact ha.totals.completed
      · rw [State.total_count (s := s) rfl, ← ha.totals.timeouts]
        rfl
      · rw [State.total_count (s := s) rfl]
        exact ha.totals.busy

/-- A step of the scripting thread leaves the accounts alone. -/
theorem Accounts.script {s s' : State ρ σ n} (ha : Accounts s) (hthreads : s'.threads = s.threads)
    (hready : s'.ready = s.ready) (hcalls : s'.calls = s.calls)
    (hcounted : s'.log.counted = s.log.counted) (hreturned : s'.log.returned = s.log.returned)
    (hcompleted : s'.completed = s.completed) (htimeouts : s'.timeouts = s.timeouts)
    (hbusy : s'.busy = s.busy) (htaken : ∀ c ∈ s'.log.taken, c < s.calls)
    (hcompletions : ∀ e ∈ s.log.completions, e ∈ s'.log.completions) : Accounts s' := by
  refine ⟨hready.trans ha.ready, ?_, ?_, by rw [hcalls]; exact htaken, ?_, ?_, ?_, ?_, fun e he => ?_,
    ha.totals.congr hcounted hcompleted htimeouts hbusy⟩
  · rw [hthreads, hcalls]
    exact ha.fresh
  · rw [CallsDiffer, hthreads]
    exact ha.differ
  · rw [hcounted, hcalls]
    exact ha.counted
  · rw [hthreads, hcounted]
    exact ha.current
  · rw [hcounted]
    exact ha.once
  · rw [hthreads, hcounted, hcalls]
    exact ha.all
  · rw [hreturned] at he
    rw [hcounted]
    refine ⟨(ha.returned e he).1, fun r hr => ?_⟩
    obtain ⟨t, ht, hc, hmem⟩ := (ha.returned e he).2 r hr
    exact ⟨t, ht, hc, hcompletions _ hmem⟩

theorem Accounts.scriptStep {s s' : State ρ σ n} (ha : Accounts s) (hs : Slots s)
    (hstep : scriptStep s = some s') : Accounts s' := by
  unfold Intercept.scriptStep at hstep
  cases hpc : s.script with
  | idle =>
      rw [hpc] at hstep
      cases hstep
  | take k =>
      rw [hpc] at hstep
      cases hstep
      split
      case isTrue hst =>
        refine ha.script rfl rfl rfl rfl rfl rfl rfl rfl (fun c hc => ?_) fun _ => id
        obtain hc | hc := List.mem_append.mp hc
        · exact ha.taken c hc
        · obtain ⟨i, hi⟩ := (hs.slots k).owned (by rw [hst]; rfl)
          obtain ⟨c', hc'⟩ := CallPc.call_of_slot hi
          rw [((hs.calls i).owner hi).1, hc'] at hc
          cases List.mem_singleton.mp hc
          exact ha.fresh i c' hc'
      case isFalse => exact ha.script rfl rfl rfl rfl rfl rfl rfl rfl ha.taken fun _ => id
  | reap | readRequest | readGeneration | writeResponse | signal | storeIdle =>
      rw [hpc] at hstep
      cases hstep
      exact ha.script rfl rfl rfl rfl rfl rfl rfl rfl ha.taken fun _ => id
  | checkGeneration | decide | checkCancelled =>
      rw [hpc] at hstep
      cases hstep
      split
      · exact ha.script rfl rfl rfl rfl rfl rfl rfl rfl ha.taken fun _ => id
      · exact ha.script rfl rfl rfl rfl rfl rfl rfl rfl ha.taken fun _ => id

/-- A new call has a number of its own. -/
theorem Accounts.call {s : State ρ σ n} {i : Fin n} (ha : Accounts s) (request : ρ)
    (hidle : s.threads i = .idle) :
    Accounts { s.goto i (.claim s.calls request 0) with calls := s.calls + 1 } := by
  have hthread : ∀ j c, (Function.update s.threads i (.claim s.calls request 0) j).call = some c →
      j = i ∧ c = s.calls ∨ j ≠ i ∧ c < s.calls ∧ (s.threads j).call = some c := by
    intro j c hc
    by_cases hj : j = i
    · subst hj
      rw [Function.update_self] at hc
      exact .inl ⟨rfl, (Option.some.inj hc).symm⟩
    · rw [Function.update_of_ne hj] at hc
      exact .inr ⟨hj, ha.fresh j c hc, hc⟩
  refine ⟨ha.ready, fun j c hc => ?_, fun j j' c hc hc' => ?_, fun c hc => ?_, fun c k hk => ?_,
    fun j c hc k => ?_, ha.once, fun c hc => ?_, ha.returned, ha.totals.congr rfl rfl rfl rfl⟩
  · obtain ⟨-, rfl⟩ | ⟨-, hlt, -⟩ := hthread j c hc
    · exact Nat.lt_succ_self _
    · exact Nat.lt_succ_of_lt hlt
  · obtain ⟨rfl, rfl⟩ | ⟨-, hlt, hold⟩ := hthread j c hc
    · obtain ⟨rfl, -⟩ | ⟨-, hlt, -⟩ := hthread j' _ hc'
      · rfl
      · exact absurd hlt (lt_irrefl _)
    · obtain ⟨-, rfl⟩ | ⟨-, -, hold'⟩ := hthread j' c hc'
      · exact absurd hlt (lt_irrefl _)
      · exact ha.differ j j' c hold hold'
  · exact Nat.lt_succ_of_lt (ha.taken c hc)
  · exact Nat.lt_succ_of_lt (ha.counted c k hk)
  · simp only [State.goto] at hc ⊢
    obtain ⟨rfl, rfl⟩ | ⟨hj, -, hold⟩ := hthread j c hc
    · rw [Function.update_self]
      exact ⟨fun hk => absurd (ha.counted _ k hk) (lt_irrefl _), (by rintro ⟨⟩)⟩
    · rw [Function.update_of_ne hj]
      exact ha.current j c hold k
  · simp only [State.goto]
    obtain hlt | rfl := Nat.lt_succ_iff_lt_or_eq.mp hc
    · refine (ha.all c hlt).imp_left ?_
      rintro ⟨j, hj⟩
      refine ⟨j, ?_⟩
      rw [Function.update_of_ne, hj]
      rintro rfl
      rw [hidle] at hj
      cases hj
    · exact .inl ⟨i, by rw [Function.update_self]; rfl⟩

/-! ## Every run is safe -/

/-- Both invariants. -/
structure Inv (s : State ρ σ n) : Prop where
  slots : Slots s
  accounts : Accounts s

theorem Inv.init [Inhabited ρ] [Inhabited σ] (n : Nat) : Inv (State.init ρ σ n) where
  slots :=
    ⟨fun _ => trivial, fun _ => SlotOk.of_idle rfl, nofun, trivial, List.nodup_nil⟩
  accounts :=
    ⟨rfl, nofun, nofun, nofun, nofun, nofun, List.nodup_nil, nofun, nofun, ⟨rfl, rfl, rfl⟩⟩

theorem Inv.step [Inhabited σ] {s s' : State ρ σ n} {a : Action ρ σ n} (h : Inv s)
    (hstep : step s a = some s') : Inv s' := by
  obtain ⟨hs, ha⟩ := h
  cases a with
  | call i request =>
      simp only [Intercept.step] at hstep
      split at hstep
      case h_1 hidle =>
        cases hstep
        have hfresh : s.calls ∉ s.log.taken := fun hmem => absurd (ha.taken _ hmem) (lt_irrefl _)
        exact ⟨hs.stay rfl rfl rfl rfl rfl rfl (by rw [hidle]; rfl) (by rw [hidle]; rfl) hfresh,
          ha.call request hidle⟩
      case h_2 => cases hstep
  | thread i => exact ⟨hs.callStep ha.differ ha.ready hstep, ha.callStep hs hstep⟩
  | takePending =>
      simp only [Intercept.step] at hstep
      split at hstep
      · cases hstep
        exact ⟨hs.script_stay trivial,
          ha.script rfl rfl rfl rfl rfl rfl rfl rfl ha.taken fun _ => id⟩
      · cases hstep
  | complete j response =>
      simp only [Intercept.step] at hstep
      split at hstep
      case h_1 h _ hget =>
        cases hstep
        have hh := hs.handles h (List.mem_of_getElem? hget)
        refine ⟨hs.script_move (k := 0) (Function.update_eq_self 0 s.slots).symm rfl
          (ScriptMove.refl _) (fun _ => id) (fun _ _ _ => .inl) hs.taken
          (fun _ => List.mem_append_left _) (fun d hd => .inl (List.mem_of_mem_eraseIdx hd)) ?_
          (fun hd => List.mem_append_left _ ((hs.slots 0).decided hd)) fun _ => rfl,
          ha.script rfl rfl rfl rfl rfl rfl rfl rfl ha.taken fun _ => List.mem_append_left _⟩
        exact ⟨⟨⟨hh.taken.taken, hh.taken.settled⟩, hh.generation⟩,
          List.mem_append_right _ (List.mem_singleton_self _)⟩
      case h_2 => cases hstep
  | script => exact ⟨hs.scriptStep ha.differ hstep, ha.scriptStep hs hstep⟩

/-- What is promised to the application. -/
structure Safe (s : State ρ σ n) : Prop where
  /-- `rendezvous` returns a response only if it was passed to `complete` for the
  generation of that call. -/
  answered : ∀ e ∈ s.log.returned, e.Answered s.log.completions
  /-- No request is taken twice. -/
  once : s.log.taken.Nodup
  /-- No slot is owned by two calls. -/
  exclusive : ∀ i j k, (s.threads i).slot = some k → (s.threads j).slot = some k → i = j
  /-- A slot whose last call has returned and which the scripting thread has visited
  since is `IDLE`. -/
  idle : ∀ k, (∀ i c, (s.threads i).call = some c → (s.slots k).owner ≠ some c) →
    (s.slots k).unvisited = false → (s.slots k).state = .idle
  /-- Every call is in progress or has been counted, and none has been counted twice. -/
  started : ∀ c < s.calls, (∃ i, (s.threads i).call = some c) ∨ ∃ k, (c, k) ∈ s.log.counted
  counted : (s.log.counted.map Prod.fst).Nodup
  /-- A call that has returned has been counted under the counter of its result. -/
  returned : ∀ e ∈ s.log.returned, (e.call, e.counter) ∈ s.log.counted
  totals : Totals s

/-- A slot that is not `IDLE` is owned, is being left, or waits for a visit. -/
theorem Slots.idle {s : State ρ σ n} (hs : Slots s) {k : SlotIndex}
    (howner : ∀ i c, (s.threads i).call = some c → (s.slots k).owner ≠ some c)
    (hvisited : (s.slots k).unvisited = false) : (s.slots k).state = .idle := by
  have hunowned : (s.slots k).state.owned = false := by
    by_contra hne
    obtain ⟨i, hi⟩ := (hs.slots k).owned (eq_true_of_ne_false hne)
    obtain ⟨c, hc⟩ := CallPc.call_of_slot hi
    exact howner i c hc (((hs.calls i).owner hi).1.trans hc)
  have hleft : (s.slots k).state ≠ .cancelled := by
    intro hst
    obtain hu | ⟨i, c, hi, ho⟩ := (hs.slots k).cancelled hst
    · rw [hvisited] at hu
      cases hu
    · refine howner i c ?_ ho
      cases hpc : s.threads i <;> rw [hpc] at hi <;> cases hi
      rfl
  cases hst : (s.slots k).state <;> simp_all [SlotState.owned]

theorem Inv.safe {s : State ρ σ n} (h : Inv s) : Safe s where
  answered := fun e he => (h.accounts.returned e he).2
  once := h.slots.taken
  exclusive := fun _ _ _ hi hj => h.slots.exclusive h.accounts.differ hi hj
  idle := fun _ => h.slots.idle
  started := h.accounts.all
  counted := h.accounts.once
  returned := fun e he => (h.accounts.returned e he).1
  totals := h.accounts.totals

/-- Every state of every run of the rendezvous is safe. -/
theorem rendezvous_safe (ρ σ : Type*) [Inhabited ρ] [Inhabited σ] (n : Nat)
    (actions : List (Action ρ σ n)) : Always step Safe (State.init ρ σ n) actions := by
  intro pre t _ hrun
  exact (run_invariant Inv.step (Inv.init n) hrun).safe

/-- A request that is taken and answered in time. -/
def answeredInTime : List (Action Nat Nat 1) :=
  .call 0 7 :: List.replicate 8 (.thread 0) ++ .takePending :: List.replicate 3 .script ++
    .complete 0 42 :: List.replicate 4 .script ++ List.replicate 5 (.thread 0)

/-- The caller gets the response. -/
example : (run step (State.init Nat Nat 1) answeredInTime).map
    (fun s => (s.log.returned.map (·.result), s.completed)) = some ([some 42], 1) := by
  decide +kernel

end PinBridge.Intercept
