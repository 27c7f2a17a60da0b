import PinBridge.Hub.Scopes
import PinBridge.Hub.Targets
import PinBridge.Lib.OrderedMap
import PinBridge.Lib.Transition

/-!
# Selections that have to be confirmed

A query keeps what it has selected under a new id, and an application repeats the id, the count and
the digest.  `service.rs` has two tables of such selections: the targets of Hooks
(`hook_targets_query`, `hook_monitor_apply`) and the scopes of Trace recordings
(`trace_scope_query`, `trace_record_start`).

The calls of any number of threads interleave.  A query takes its number and inserts its selection
in two steps, and an application clones the selection before it calls the Agent.  A table forgets
the smallest id when it has more than 64, and all of them when the target changes.

`selections_exact` says that what is applied was inserted under the id of the application and that
its count and its digest have been repeated, that no other selection was ever shown under that id,
and which selections can still be applied.
-/

namespace PinBridge.Selections

open Hexadecimal (numeral)
open Transition (run)
open Utf8 (Text)

/-- What one table keeps. -/
structure Kind (S : Type*) where
  /-- The start of its ids. -/
  start : Text
  /-- The count that has to be repeated. -/
  count : S → Nat
  /-- The digest that has to be repeated. -/
  digest : S → Text

/-- `hook_target_selections`. -/
def hookTargetSelections : Kind Targets.HookTargetSelection where
  start := "hooksel-".toList
  count s := s.targets.length
  digest s := s.digest

/-- `trace_scope_selections`. -/
def traceScopeSelections : Kind Scopes.TraceScopeSelection where
  start := "tracesel-".toList
  count s := s.ranges.length
  digest s := s.digest

variable {S τ : Type*} (K : Kind S)

/-- `format!("{start}{:016x}", number)`. -/
def Kind.id (number : Nat) : Text := K.start ++ numeral 16 number

/-- What an application repeats. -/
structure Confirmation where
  selectionId : Text
  expectedCount : Nat
  selectionDigest : Text

/-- How far a call is. -/
inductive Phase (S : Type*) where
  | idle
  /-- The selection is made, and `fetch_add` is next. -/
  | selected (selection : S)
  /-- The insertion is next. -/
  | numbered (number : Nat) (selection : S)
  /-- The reply is next. -/
  | inserted (number : Nat) (selection : S)
  /-- The operation of the Agent is next. -/
  | confirmed (confirmation : Confirmation) (selection : S)

structure State (S τ : Type*) where
  /-- The table. -/
  selections : OrderedMap Text S
  /-- The next number. -/
  next : UInt64
  phases : τ → Phase S
  /-- What has been inserted for the current target, under which numbers. -/
  log : List (Nat × S)
  /-- What has been inserted for all targets. -/
  history : List (Nat × S)
  /-- The replies to queries. -/
  shown : List (Text × S)
  /-- The operations of the Agent. -/
  applied : List (Confirmation × S)

def State.init (S τ : Type*) : State S τ where
  selections := .empty
  next := 1
  phases _ := .idle
  log := []
  history := []
  shown := []
  applied := []

inductive Action (S τ : Type*) where
  /-- A query has made its selection. -/
  | select (t : τ) (selection : S)
  /-- `fetch_add`. -/
  | number (t : τ)
  /-- `insert` and `remove`, under the lock. -/
  | insert (t : τ)
  /-- The reply of the query.  `accepted` is false when it refuses the page it was asked for. -/
  | reply (t : τ) (accepted : Bool)
  /-- `get` and the comparison of what is repeated. -/
  | confirm (t : τ) (confirmation : Confirmation)
  /-- The operation of the Agent. -/
  | apply (t : τ)
  /-- `set_target`. -/
  | setTarget

/-- `get`, `cloned`, and the comparison with what is repeated. -/
def Kind.lookup (selections : OrderedMap Text S) (c : Confirmation) : Option S :=
  (selections.get c.selectionId).filter fun s =>
    c.expectedCount = K.count s ∧ c.selectionDigest = K.digest s

variable [DecidableEq τ]

def State.goto (s : State S τ) (t : τ) (phase : Phase S) : State S τ :=
  { s with phases := Function.update s.phases t phase }

def State.step (s : State S τ) : Action S τ → Option (State S τ)
  | .select t selection =>
      match s.phases t with
      | .idle => some (s.goto t (.selected selection))
      | _ => none
  | .number t =>
      match s.phases t with
      | .selected selection =>
          some { s.goto t (.numbered s.next.toNat selection) with next := s.next + 1 }
      | _ => none
  | .insert t =>
      match s.phases t with
      | .numbered number selection =>
          some { s.goto t (.inserted number selection) with
            selections := s.selections.insertWithin 64 (K.id number) selection
            log := s.log ++ [(number, selection)]
            history := s.history ++ [(number, selection)] }
      | _ => none
  | .reply t accepted =>
      match s.phases t with
      | .inserted number selection =>
          some { s.goto t .idle with
            shown := if accepted then s.shown ++ [(K.id number, selection)] else s.shown }
      | _ => none
  | .confirm t confirmation =>
      match s.phases t with
      | .idle =>
          match K.lookup s.selections confirmation with
          | none => some s
          | some selection => some (s.goto t (.confirmed confirmation selection))
      | _ => none
  | .apply t =>
      match s.phases t with
      | .confirmed confirmation selection =>
          some { s.goto t .idle with applied := s.applied ++ [(confirmation, selection)] }
      | _ => none
  | .setTarget => some { s with selections := .empty, log := [] }

/-! ## What holds -/

/-- An insertion, under its id. -/
def Kind.entry (e : Nat × S) : Text × S := (K.id e.1, e.2)

/-- A selection has been inserted under an id. -/
def State.Inserted (s : State S τ) (id : Text) (selection : S) : Prop :=
  ∃ n, (n, selection) ∈ s.history ∧ id = K.id n

/-- What is repeated is right for a selection. -/
structure Kind.Repeats (c : Confirmation) (selection : S) : Prop where
  count : c.expectedCount = K.count selection
  digest : c.selectionDigest = K.digest selection

/-- What a call that has come to a phase relies on. -/
def State.Admits (s : State S τ) : Phase S → Prop
  | .idle | .selected _ => True
  | .numbered n _ => n < s.next.toNat ∧ ∀ e ∈ s.history, e.1 ≠ n
  | .inserted n selection => (n, selection) ∈ s.history
  | .confirmed c selection => s.Inserted K c.selectionId selection ∧ K.Repeats c selection

structure State.Ok (s : State S τ) : Prop where
  /-- The table holds the greatest ids. -/
  table : s.selections.entries = (OrderedMap.collect (s.log.map K.entry)).rtake 64
  log : s.log.Sublist s.history
  /-- The numbers that are used are different. -/
  nodup : (s.history.map Prod.fst).Nodup
  used : ∀ e ∈ s.history, e.1 < s.next.toNat
  phases : ∀ t, s.Admits K (s.phases t)
  /-- Nobody else has a number that will be used. -/
  alone : ∀ t u n selection selection', s.phases t = .numbered n selection →
    s.phases u = .numbered n selection' → t = u
  shown : ∀ e ∈ s.shown, s.Inserted K e.1 e.2
  applied : ∀ e ∈ s.applied, s.Inserted K e.1.selectionId e.2 ∧ K.Repeats e.1 e.2

variable {K}

theorem Kind.id_injective {m n : Nat} (hm : m < 2 ^ 64) (hn : n < 2 ^ 64) (h : K.id m = K.id n) :
    m = n :=
  Hexadecimal.numeral_injective (w := 16) hm hn (List.append_cancel_left h)

theorem Kind.id_lt_id {m n : Nat} (hm : m < 2 ^ 64) (hn : n < 2 ^ 64) :
    K.id m < K.id n ↔ m < n := by
  rw [Kind.id, Kind.id, ← Hexadecimal.numeral_lt_numeral (w := 16) hm hn]
  induction K.start with
  | nil => rfl
  | cons c start ih => simpa using ih

variable {s s' : State S τ}

/-- Different numbers give different ids. -/
theorem Kind.nodup_ids {l : List (Nat × S)} (hlt : ∀ e ∈ l, e.1 < 2 ^ 64)
    (h : (l.map Prod.fst).Nodup) : (l.map fun e => K.id e.1).Nodup := by
  have hmap : (l.map fun e => K.id e.1) = (l.map Prod.fst).map K.id := by
    rw [List.map_map]
    rfl
  rw [hmap]
  refine List.Nodup.map_on ?_ h
  intro m hm n hn heq
  obtain ⟨e, he, rfl⟩ := List.mem_map.mp hm
  obtain ⟨f, hf, rfl⟩ := List.mem_map.mp hn
  exact Kind.id_injective (hlt e he) (hlt f hf) heq

theorem Kind.nodup_entries {l : List (Nat × S)} (hlt : ∀ e ∈ l, e.1 < 2 ^ 64)
    (h : (l.map Prod.fst).Nodup) : ((l.map K.entry).map Prod.fst).Nodup := by
  rw [List.map_map]
  exact Kind.nodup_ids hlt h

omit [DecidableEq τ] in
theorem State.Ok.lt (h : s.Ok K) : ∀ e ∈ s.history, e.1 < 2 ^ 64 :=
  fun e he => (h.used e he).trans s.next.toNat_lt

omit [DecidableEq τ] in
theorem State.Ok.nodup_ids (h : s.Ok K) : (s.history.map fun e => K.id e.1).Nodup :=
  Kind.nodup_ids h.lt h.nodup

omit [DecidableEq τ] in
/-- An id names one selection. -/
theorem State.Ok.eq_of_inserted (h : s.Ok K) {id : Text} {a b : S} (ha : s.Inserted K id a)
    (hb : s.Inserted K id b) : a = b := by
  obtain ⟨m, hm, rfl⟩ := ha
  obtain ⟨n, hn, heq⟩ := hb
  have hid := List.inj_on_of_nodup_map h.nodup_ids hm hn heq
  exact congrArg Prod.snd hid

omit [DecidableEq τ] in
/-- A look up finds what was inserted for the target and has not been forgotten. -/
theorem State.Ok.get_eq_some (h : s.Ok K) {id : Text} {selection : S} :
    s.selections.get id = some selection ↔
      ∃ n, (n, selection) ∈ s.log ∧ id = K.id n ∧ (OrderedMap.above n s.log).length < 64 := by
  have hlt : ∀ e ∈ s.log, e.1 < 2 ^ 64 := fun e he => h.lt e (h.log.mem he)
  have hentries := Kind.nodup_entries (K := K) hlt (h.nodup.sublist (h.log.map _))
  rw [OrderedMap.get_eq_some_iff h.table hentries]
  have hcount : ∀ n, n < 2 ^ 64 →
      (OrderedMap.above (K.id n) (s.log.map K.entry)).length =
        (OrderedMap.above n s.log).length := by
    intro n hn
    rw [OrderedMap.above, OrderedMap.above, List.filter_map, List.length_map]
    congr 1
    refine List.filter_congr fun e he => ?_
    rw [Function.comp_apply, decide_eq_decide]
    exact Kind.id_lt_id hn (hlt e he)
  constructor
  · rintro ⟨hmem, hfew⟩
    obtain ⟨e, he, heq⟩ := List.mem_map.mp hmem
    cases heq
    rw [hcount e.1 (hlt e he)] at hfew
    exact ⟨e.1, he, rfl, hfew⟩
  · rintro ⟨n, hmem, rfl, hfew⟩
    refine ⟨List.mem_map.mpr ⟨_, hmem, rfl⟩, ?_⟩
    rw [hcount n (hlt _ hmem)]
    exact hfew

omit [DecidableEq τ] in
theorem State.Ok.lookup_iff (h : s.Ok K) {c : Confirmation} {selection : S} :
    K.lookup s.selections c = some selection ↔
      K.Repeats c selection ∧ ∃ n, (n, selection) ∈ s.log ∧ c.selectionId = K.id n ∧
        (OrderedMap.above n s.log).length < 64 := by
  rw [Kind.lookup, Option.filter_eq_some_iff, h.get_eq_some, decide_eq_true_iff]
  constructor
  · rintro ⟨hfound, hcount, hdigest⟩
    exact ⟨⟨hcount, hdigest⟩, hfound⟩
  · rintro ⟨hrepeats, hfound⟩
    exact ⟨hfound, hrepeats.count, hrepeats.digest⟩

omit [DecidableEq τ] in
/-- What is found was inserted, and what is repeated is right for it. -/
theorem State.Ok.lookup (h : s.Ok K) {c : Confirmation} {selection : S}
    (hfound : K.lookup s.selections c = some selection) :
    s.Inserted K c.selectionId selection ∧ K.Repeats c selection := by
  obtain ⟨hrepeats, n, hmem, hid, -⟩ := h.lookup_iff.mp hfound
  exact ⟨⟨n, h.log.mem hmem, hid⟩, hrepeats⟩

/-! ## Steps -/

omit [DecidableEq τ] in
theorem State.Ok.init : (State.init S τ).Ok K where
  table := rfl
  log := .slnil
  nodup := .nil
  used e he := by cases he
  phases t := trivial
  alone t u n selection selection' h := by cases h
  shown e he := by cases he
  applied e he := by cases he

theorem State.Ok.goto (h : s.Ok K) (t : τ) {phase : Phase S} (hphase : s.Admits K phase)
    (halone : ∀ n selection, phase = .numbered n selection →
      ∀ u selection', s.phases u ≠ .numbered n selection') : (s.goto t phase).Ok K where
  table := h.table
  log := h.log
  nodup := h.nodup
  used := h.used
  phases u := by
    show s.Admits K (Function.update s.phases t phase u)
    rw [Function.update_apply]
    split
    · exact hphase
    · exact h.phases u
  alone u v n selection selection' hu hv := by
    change Function.update s.phases t phase u = _ at hu
    change Function.update s.phases t phase v = _ at hv
    rw [Function.update_apply] at hu hv
    split at hu
    next heq =>
      split at hv
      next heq' => exact heq.trans heq'.symm
      next => exact absurd hv (halone n selection hu v selection')
    next =>
      split at hv
      next => exact absurd hu (halone n selection' hv u selection)
      next => exact h.alone u v n selection selection' hu hv
  shown := h.shown
  applied := h.applied

omit [DecidableEq τ] in
/-- The next number is new. -/
theorem State.Ok.number (h : s.Ok K) (hroom : s.next.toNat + 1 < 2 ^ 64) :
    ({ s with next := s.next + 1 } : State S τ).Ok K ∧ (s.next + 1).toNat = s.next.toNat + 1 := by
  have hnext : (s.next + 1).toNat = s.next.toNat + 1 := by
    rw [UInt64.toNat_add]
    exact Nat.mod_eq_of_lt hroom
  refine ⟨⟨h.table, h.log, h.nodup, ?_, ?_, h.alone, h.shown, h.applied⟩, hnext⟩
  · intro e he
    show e.1 < (s.next + 1).toNat
    rw [hnext]
    exact Nat.lt_succ_of_lt (h.used e he)
  · intro t
    have hadmits := h.phases t
    show State.Admits K _ (s.phases t)
    cases hphase : s.phases t with
    | numbered n selection =>
        rw [hphase] at hadmits
        refine ⟨?_, hadmits.2⟩
        show n < (s.next + 1).toNat
        rw [hnext]
        exact Nat.lt_succ_of_lt hadmits.1
    | idle => trivial
    | selected selection => trivial
    | inserted n selection =>
        rw [hphase] at hadmits
        exact hadmits
    | confirmed c selection =>
        rw [hphase] at hadmits
        exact hadmits

omit [DecidableEq τ] in
/-- An insertion under a number that nobody else has. -/
theorem State.Ok.insert (h : s.Ok K) {n : Nat} (hn : n < s.next.toNat)
    (hnew : ∀ e ∈ s.history, e.1 ≠ n) (halone : ∀ t selection, s.phases t ≠ .numbered n selection)
    (selection : S) :
    ({ s with
      selections := s.selections.insertWithin 64 (K.id n) selection
      log := s.log ++ [(n, selection)]
      history := s.history ++ [(n, selection)] } : State S τ).Ok K := by
  have hgrow : ∀ {id a}, s.Inserted K id a → ∃ m, (m, a) ∈ s.history ++ [(n, selection)] ∧
      id = K.id m := by
    rintro id a ⟨m, hm, rfl⟩
    exact ⟨m, List.mem_append_left _ hm, rfl⟩
  have hlog : (s.log ++ [(n, selection)]).Sublist (s.history ++ [(n, selection)]) :=
    h.log.append (.refl _)
  have hnodup : ((s.history ++ [(n, selection)]).map Prod.fst).Nodup := by
    rw [List.map_append, List.nodup_append]
    refine ⟨h.nodup, List.nodup_singleton _, ?_⟩
    intro m hm k hk
    obtain ⟨e, he, rfl⟩ := List.mem_map.mp hm
    rw [List.map_singleton, List.mem_singleton] at hk
    rw [hk]
    exact hnew e he
  have hused : ∀ e ∈ s.history ++ [(n, selection)], e.1 < s.next.toNat := by
    intro e he
    rcases List.mem_append.mp he with he | he
    · exact h.used e he
    · rw [List.mem_singleton.mp he]
      exact hn
  have hentries := Kind.nodup_entries (K := K)
    (fun e he => (hused e (hlog.mem he)).trans s.next.toNat_lt) (hnodup.sublist (hlog.map _))
  constructor
  case table =>
    rw [List.map_append] at hentries ⊢
    exact OrderedMap.entries_insertWithin h.table hentries
  case log => exact hlog
  case nodup => exact hnodup
  case used => exact hused
  case phases =>
    intro t
    have hadmits := h.phases t
    show State.Admits K _ (s.phases t)
    cases hphase : s.phases t with
    | idle => trivial
    | selected selection => trivial
    | numbered m other =>
        rw [hphase] at hadmits
        refine ⟨hadmits.1, ?_⟩
        intro e he
        rcases List.mem_append.mp he with he | he
        · exact hadmits.2 e he
        · rw [List.mem_singleton.mp he]
          rintro rfl
          exact halone t other hphase
    | inserted m other =>
        rw [hphase] at hadmits
        exact List.mem_append_left _ hadmits
    | confirmed c other =>
        rw [hphase] at hadmits
        exact ⟨hgrow hadmits.1, hadmits.2⟩
  case alone => exact h.alone
  case shown =>
    intro e he
    exact hgrow (h.shown e he)
  case applied =>
    intro e he
    exact ⟨hgrow (h.applied e he).1, (h.applied e he).2⟩

/-- Every step keeps the tables right. -/
theorem State.Ok.step {a : Action S τ} (h : s.Ok K) (hroom : s.next.toNat + 1 < 2 ^ 64)
    (hs : s.step K a = some s') : s'.Ok K ∧ s'.next.toNat ≤ s.next.toNat + 1 := by
  cases a with
  | select t selection =>
      rw [State.step] at hs
      split at hs
      · cases hs
        refine ⟨h.goto t trivial ?_, Nat.le_succ _⟩
        intro n other hphase
        cases hphase
      · cases hs
  | number t =>
      rw [State.step] at hs
      split at hs
      next selection hphase =>
        cases hs
        obtain ⟨hok, hnext⟩ := h.number hroom
        refine ⟨hok.goto t ⟨?_, ?_⟩ ?_, hnext.le⟩
        · show s.next.toNat < (s.next + 1).toNat
          omega
        · intro e he
          exact (h.used e he).ne
        · intro n other heq u selection' hu
          cases heq
          have hadmits := h.phases u
          change s.phases u = _ at hu
          rw [hu] at hadmits
          exact absurd hadmits.1 (Nat.lt_irrefl _)
      next => cases hs
  | insert t =>
      rw [State.step] at hs
      split at hs
      next n selection hphase =>
        cases hs
        have hadmits := h.phases t
        rw [hphase] at hadmits
        -- the call gives its number up before the insertion
        have hidle : (s.goto t .idle).Ok K := h.goto t trivial (by rintro m other ⟨⟩)
        have halone : ∀ u other, (s.goto t .idle).phases u ≠ .numbered n other := by
          intro u other hu
          change Function.update s.phases t .idle u = _ at hu
          rw [Function.update_apply] at hu
          split at hu
          · cases hu
          next hne => exact hne (h.alone u t n other selection hu hphase)
        have hinserted := hidle.insert hadmits.1 hadmits.2 halone selection
        have hmem : (n, selection) ∈ s.history ++ [(n, selection)] := by simp
        have hgoto : (State.goto _ t (.inserted n selection)).Ok K :=
          hinserted.goto t hmem (by rintro m other ⟨⟩)
        refine ⟨?_, Nat.le_succ _⟩
        unfold State.goto at hgoto ⊢
        rw [Function.update_idem] at hgoto
        exact hgoto
      next => cases hs
  | reply t accepted =>
      rw [State.step] at hs
      split at hs
      next n selection hphase =>
        cases hs
        have hadmits := h.phases t
        rw [hphase] at hadmits
        have hidle : (s.goto t .idle).Ok K := h.goto t trivial (by rintro m other ⟨⟩)
        refine ⟨{ hidle with shown := ?_ }, Nat.le_succ _⟩
        intro e he
        cases accepted with
        | false => exact h.shown e he
        | true =>
            rcases List.mem_append.mp he with he | he
            · exact h.shown e he
            · rw [List.mem_singleton.mp he]
              exact ⟨n, hadmits, rfl⟩
      next => cases hs
  | confirm t c =>
      rw [State.step] at hs
      split at hs
      next hphase =>
        split at hs
        next hnone =>
          cases hs
          exact ⟨h, Nat.le_succ _⟩
        next selection hsome =>
          cases hs
          obtain ⟨hinserted, hrepeats⟩ := h.lookup hsome
          exact ⟨h.goto t ⟨hinserted, hrepeats⟩ (by rintro m other ⟨⟩), Nat.le_succ _⟩
      next => cases hs
  | apply t =>
      rw [State.step] at hs
      split at hs
      next c selection hphase =>
        cases hs
        have hadmits := h.phases t
        rw [hphase] at hadmits
        have hidle : (s.goto t .idle).Ok K := h.goto t trivial (by rintro m other ⟨⟩)
        refine ⟨{ hidle with applied := ?_ }, Nat.le_succ _⟩
        intro e he
        rcases List.mem_append.mp he with he | he
        · exact h.applied e he
        · rw [List.mem_singleton.mp he]
          exact hadmits
      next => cases hs
  | setTarget =>
      cases hs
      exact ⟨{ h with table := rfl, log := List.nil_sublist _ }, Nat.le_succ _⟩

/-! ## Runs -/

theorem State.Ok.run {as : List (Action S τ)} (h : s.Ok K)
    (hroom : s.next.toNat + as.length < 2 ^ 64) (hrun : run (State.step K) s as = some s') :
    s'.Ok K := by
  induction as generalizing s with
  | nil =>
      cases hrun
      exact h
  | cons a as ih =>
      obtain ⟨u, hu, hrun⟩ := Transition.run_cons_eq_some.mp hrun
      rw [List.length_cons] at hroom
      obtain ⟨hok, hnext⟩ := h.step (by omega) hu
      exact ih hok (by omega) hrun

variable (K) in
/-- What is applied was inserted under the id of the application, no other selection was ever shown
under that id, and its count and its digest were repeated.  Just those selections can be applied
that were inserted for the current target before at most 63 greater numbers were. -/
theorem selections_exact {as : List (Action S τ)} (hfew : as.length + 1 < 2 ^ 64)
    (hrun : run (State.step K) (.init S τ) as = some s) :
    (s.history.map fun e => K.id e.1).Nodup ∧
      (∀ c selection, (c, selection) ∈ s.applied →
        s.Inserted K c.selectionId selection ∧ K.Repeats c selection ∧
          ∀ other, (c.selectionId, other) ∈ s.shown → other = selection) ∧
      ∀ c selection, K.lookup s.selections c = some selection ↔
        K.Repeats c selection ∧ ∃ n, (n, selection) ∈ s.log ∧ c.selectionId = K.id n ∧
          (OrderedMap.above n s.log).length < 64 := by
  have hok : s.Ok K := State.Ok.init.run (by show 1 + as.length < _; omega) hrun
  refine ⟨hok.nodup_ids, ?_, fun c selection => hok.lookup_iff⟩
  intro c selection hmem
  obtain ⟨hinserted, hrepeats⟩ := hok.applied _ hmem
  refine ⟨hinserted, hrepeats, ?_⟩
  intro other hother
  exact hok.eq_of_inserted (hok.shown _ hother) hinserted

/-- A scope of one range. -/
def oneRange : Scopes.TraceScopeSelection where
  module := "app.exe"
  moduleBase := 0x400000
  moduleEnd := 0x410000
  ranges := [(0x400010, 0x400040)]
  rvaRanges := [(16, 64)]
  kinds := [9]
  threads := []
  digest := Scopes.traceScopeDigest "app.exe".toList [(0x400010, 0x400040)] [9] []

/-- A scope of two ranges. -/
def twoRanges : Scopes.TraceScopeSelection where
  module := "app.exe"
  moduleBase := 0x400000
  moduleEnd := 0x410000
  ranges := [(0x400010, 0x400040), (0x400080, 0x4000a0)]
  rvaRanges := [(16, 64), (128, 160)]
  kinds := [4, 9]
  threads := [7]
  digest := Scopes.traceScopeDigest "app.exe".toList [(0x400010, 0x400040), (0x400080, 0x4000a0)]
    [4, 9] [7]

/-- One query after another. -/
def queries (n : Nat) : List (Action Scopes.TraceScopeSelection Bool) :=
  (List.replicate n [.select true oneRange, .number true, .insert true, .reply true true]).flatten

/-- Two queries overlap, and the one with the greater number is inserted first.  It is confirmed,
and before the Agent is asked the target changes.  Then 65 more queries fill the table. -/
def recording : List (Action Scopes.TraceScopeSelection Bool) :=
  [.select true oneRange, .number true, .select false twoRanges, .number false, .insert false,
    .insert true, .reply true true, .reply false true,
    .confirm false ⟨traceScopeSelections.id 2, 2, twoRanges.digest⟩, .setTarget, .apply false] ++
  queries 65

set_option maxRecDepth 10000 in
/-- The first of the later queries is forgotten, and the second one is not. -/
theorem selections_exact_recording : ∃ s, run (State.step traceScopeSelections) (.init _ Bool)
    recording = some s ∧ (⟨traceScopeSelections.id 2, 2, twoRanges.digest⟩, twoRanges) ∈ s.applied ∧
      (∀ other, (traceScopeSelections.id 2, other) ∈ s.shown → other = twoRanges) ∧
      traceScopeSelections.lookup s.selections
        ⟨traceScopeSelections.id 3, 1, oneRange.digest⟩ ≠ some oneRange ∧
      traceScopeSelections.lookup s.selections
        ⟨traceScopeSelections.id 4, 1, oneRange.digest⟩ = some oneRange := by
  obtain ⟨s, hs, hmem, hlog⟩ : ∃ s, run (State.step traceScopeSelections) (.init _ Bool) recording =
      some s ∧ (⟨traceScopeSelections.id 2, 2, twoRanges.digest⟩, twoRanges) ∈ s.applied ∧
        s.log = (List.range' 3 65).map fun n => (n, oneRange) :=
    ⟨_, rfl, List.mem_singleton.mpr rfl, rfl⟩
  obtain ⟨-, happlied, hlookup⟩ := selections_exact traceScopeSelections (by decide) hs
  have habove : ∀ n, (OrderedMap.above n s.log).length =
      ((List.range' 3 65).filter fun m => n < m).length := by
    intro n
    rw [hlog, OrderedMap.above, List.filter_map, List.length_map]
    rfl
  refine ⟨s, hs, hmem, (happlied _ _ hmem).2.2, ?_, ?_⟩
  · rw [Ne, hlookup]
    rintro ⟨-, n, hn, hid, hfew⟩
    rw [hlog] at hn
    obtain ⟨m, hm, heq⟩ := List.mem_map.mp hn
    cases heq
    have hlt : n < 2 ^ 64 := by
      rw [List.mem_range'_1] at hm
      omega
    have hn3 : 3 = n := Kind.id_injective (K := traceScopeSelections) (by decide) hlt hid
    cases hn3
    rw [habove] at hfew
    exact absurd hfew (by decide)
  · rw [hlookup]
    refine ⟨⟨rfl, rfl⟩, 4, ?_, rfl, ?_⟩
    · rw [hlog]
      exact List.mem_map.mpr ⟨4, by decide, rfl⟩
    · rw [habove]
      decide

end PinBridge.Selections
