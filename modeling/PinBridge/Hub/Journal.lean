import PinBridge.Lib.Archive
import PinBridge.Lib.Hexadecimal
import PinBridge.Lib.Json
import PinBridge.Lib.Transition
import PinBridge.Lib.Utf8

/-!
# The journal of operations

Every call of a tool that the Hub records begins an operation and finishes it when it returns.
`activities.rs` keeps the last operations in a deque.  It gives each an id, and `finish` looks the
row up by the id of the handle, which may have been evicted long ago.

`record` is what a journal of unlimited size would say.  `Represents` says that the deque holds the
end of it.  So what `list` and `get` answer is exact, and a handle never changes the row of another
operation (`journal_exact`).
-/

namespace PinBridge.Activities

open Archive (trim updateFirst)
open Hexadecimal (numeral)
open Transition (run)
open Utf8 (Text)

/-! ## The journal -/

/-- `Activity`. -/
structure Activity where
  operationId : Text
  parentOperationId : Option Text
  actor : Text
  action : Text
  purpose : Option Text
  startedAtMs : Text
  completedAtMs : Option Text
  outcome : Text
  resourceRefs : Json

/-- `CAPACITY`. -/
def defaultCapacity : Nat := 256

/-- `Inner`.  The oldest row is the first. -/
structure Journal where
  next : UInt64
  rows : List Activity
  capacity : Nat

/-- `Journal::new`. -/
def Journal.new (capacity : Nat) : Journal := ⟨1, [], max capacity 1⟩

/-- `format!("op-{:016x}", next)`. -/
def operationId (next : Nat) : Text := "op-".toList ++ numeral 16 next

/-- The outcome of an operation that goes on. -/
def inProgress : Text := "in_progress".toList

/-- What `begin` is told, and the time. -/
structure Beginning where
  actor : Text
  action : Text
  purpose : Option Text
  parent : Option Text
  now : Text

/-- The row of an operation that begins. -/
def Beginning.activity (b : Beginning) (id : Text) : Activity where
  operationId := id
  parentOperationId := b.parent
  actor := b.actor
  action := b.action
  purpose := b.purpose
  startedAtMs := b.now
  completedAtMs := none
  outcome := inProgress
  resourceRefs := .object []

/-- `Journal::begin`, with the id of the handle. -/
def Journal.begin (j : Journal) (b : Beginning) : Text × Journal :=
  let id := operationId j.next.toNat
  (id, { j with
    next := max (j.next + 1) 1
    rows := trim j.capacity (j.rows ++ [b.activity id]) })

/-- What `finish` is told, and the time. -/
structure Ending where
  outcome : Text
  refs : Json
  now : Text

/-- The row of an operation that has finished. -/
def Ending.close (e : Ending) (row : Activity) : Activity :=
  { row with completedAtMs := some e.now, outcome := e.outcome, resourceRefs := e.refs }

/-- `ActivityHandle::finish`. -/
def Journal.finish (j : Journal) (id : Text) (e : Ending) : Journal :=
  { j with rows := updateFirst Activity.operationId id e.close j.rows }

/-- `Journal::list`. -/
def Journal.list (j : Journal) (limit : Nat) : List Activity :=
  j.rows.reverse.take (min limit j.capacity)

/-- `Journal::get`. -/
def Journal.get (j : Journal) (id : Text) : Option Activity :=
  j.rows.find? fun row => row.operationId = id

/-- `Journal::contains`. -/
def Journal.contains (j : Journal) (id : Text) : Bool := (j.get id).isSome

@[simp] theorem Ending.operationId_close (e : Ending) (row : Activity) :
    (e.close row).operationId = row.operationId := rfl

/-! ## The whole record -/

/-- The journal holds the end of a record of all operations. -/
structure Represents (j : Journal) (log : List Activity) : Prop where
  rows : j.rows = log.rtake j.capacity
  /-- There have been ids for all of them. -/
  short : log.length < 2 ^ 64
  next : log.length + 1 < 2 ^ 64 → j.next.toNat = log.length + 1
  ids : ∀ op a, log[op]? = some a → a.operationId = operationId (op + 1)

theorem operationId_injective {m n : ℕ} (hm : m < 2 ^ 64) (hn : n < 2 ^ 64)
    (h : operationId m = operationId n) : m = n :=
  Hexadecimal.numeral_injective (w := 16) hm hn (List.append_cancel_left h)

variable {j : Journal} {log : List Activity}

/-- No two operations have one id. -/
theorem Represents.nodup (h : Represents j log) : (log.map Activity.operationId).Nodup := by
  rw [List.nodup_iff_getElem?_ne_getElem?]
  intro m n hlt hn heq
  rw [List.length_map] at hn
  have hm : m < log.length := hlt.trans hn
  rw [List.getElem?_map, List.getElem?_map, List.getElem?_eq_getElem hm,
    List.getElem?_eq_getElem hn, Option.map_some, Option.map_some, Option.some.injEq,
    h.ids m _ (List.getElem?_eq_getElem hm), h.ids n _ (List.getElem?_eq_getElem hn)] at heq
  have := h.short
  have := operationId_injective (by omega) (by omega) heq
  omega

theorem Represents.new (capacity : Nat) : Represents (.new capacity) [] where
  rows := by simp [Journal.new]
  short := by decide
  next _ := rfl
  ids op a ha := by cases ha

/-- The next operation has a new id. -/
theorem Represents.begin (h : Represents j log) (hroom : log.length + 1 < 2 ^ 64)
    (b : Beginning) :
    (j.begin b).1 = operationId (log.length + 1) ∧
      Represents (j.begin b).2 (log ++ [b.activity (operationId (log.length + 1))]) := by
  have hid : operationId j.next.toNat = operationId (log.length + 1) := by rw [h.next hroom]
  refine ⟨hid, ?_, ?_, fun hmore => ?_, fun op a ha => ?_⟩
  · rw [Journal.begin]
    simp only [hid]
    rw [h.rows, Archive.trim_concat]
  · rwa [List.length_append, List.length_singleton]
  · rw [List.length_append, List.length_singleton] at hmore ⊢
    have hnext : (j.next + 1).toNat = log.length + 2 := by
      rw [UInt64.toNat_add, h.next hroom]
      exact Nat.mod_eq_of_lt hmore
    have hmax : max (j.next + 1) 1 = j.next + 1 := by
      refine if_neg fun hle => ?_
      rw [UInt64.le_iff_toNat_le, hnext] at hle
      exact absurd hle (by simp)
    rw [Journal.begin]
    simp only [hmax, hnext]
  · obtain hlt | hge := Nat.lt_or_ge op log.length
    · rw [List.getElem?_append_left hlt] at ha
      exact h.ids op a ha
    · rw [List.getElem?_append_right hge, List.getElem?_singleton] at ha
      split at ha
      next hop =>
        cases ha
        rw [show op = log.length by omega]
        rfl
      next => cases ha

/-- A handle closes its own operation, whether the row is still there or not. -/
theorem Represents.finish (h : Represents j log) {op : Nat} {a : Activity}
    (ha : log[op]? = some a) (e : Ending) :
    Represents (j.finish a.operationId e) (log.modify op e.close) where
  rows := by
    rw [Journal.finish]
    simp only
    rw [h.rows, Archive.updateFirst_rtake h.nodup ha]
  short := by
    rw [List.length_modify]
    exact h.short
  next := by
    rw [List.length_modify]
    exact h.next
  ids n b hb := by
    rw [List.getElem?_modify] at hb
    obtain ⟨c, hc, rfl⟩ := Option.map_eq_some_iff.mp hb
    rw [← h.ids n c hc]
    split <;> rfl

/-! ## Answers -/

theorem Represents.list_eq (h : Represents j log) (limit : Nat) :
    j.list limit = log.reverse.take (min limit j.capacity) := by
  rw [Journal.list, h.rows, List.rtake_eq_reverse_take_reverse, List.reverse_reverse,
    List.take_take, Nat.min_eq_left (Nat.min_le_right _ _)]

theorem Represents.get_eq (h : Represents j log) {op : Nat} {a : Activity}
    (ha : log[op]? = some a) :
    j.get a.operationId = if log.length ≤ op + j.capacity then some a else none := by
  rw [Journal.get, h.rows]
  exact Archive.find?_rtake h.nodup ha j.capacity

theorem Represents.get_none (h : Represents j log) {id : Text}
    (hid : ∀ a ∈ log, a.operationId ≠ id) : j.get id = none := by
  rw [Journal.get, List.find?_eq_none]
  intro a ha
  rw [h.rows] at ha
  simpa using hid a (List.mem_of_mem_drop ha)

/-- What is found has been begun under that id. -/
theorem Represents.exists_of_contains (h : Represents j log) {id : Text}
    (hid : j.contains id = true) :
    ∃ (op : Nat) (a : Activity), log[op]? = some a ∧ a.operationId = id := by
  obtain ⟨a, ha⟩ := Option.isSome_iff_exists.mp hid
  have hmem := List.mem_of_find?_eq_some ha
  have hkey := List.find?_some ha
  rw [h.rows] at hmem
  obtain ⟨op, hop⟩ := List.mem_iff_getElem?.mp (List.mem_of_mem_drop hmem)
  exact ⟨op, a, hop, by simpa using hkey⟩

/-! ## Runs -/

/-- A call of the journal.  The handle of an operation is named by its number. -/
inductive Action where
  | begin (b : Beginning)
  | finish (op : Nat) (e : Ending)

/-- The journal and the handles that `begin` has returned, in their order. -/
structure State where
  journal : Journal
  handles : List Text

def State.step (s : State) : Action → Option State
  | .begin b =>
      let (id, journal) := s.journal.begin b
      some ⟨journal, s.handles ++ [id]⟩
  | .finish op e => s.handles[op]?.map fun id => { s with journal := s.journal.finish id e }

/-- What a journal of unlimited size would record. -/
def record (log : List Activity) : Action → List Activity
  | .begin b => log ++ [b.activity (operationId (log.length + 1))]
  | .finish op e => log.modify op e.close

/-- The operations of a run, in the order they began. -/
def history (as : List Action) : List Activity := as.foldl record []

/-- The handles are the ids of the operations. -/
structure State.Ok (s : State) (log : List Activity) : Prop where
  journal : Represents s.journal log
  handles : s.handles = log.map Activity.operationId

theorem State.Ok.step {s t : State} {a : Action} (h : s.Ok log)
    (hroom : (record log a).length < 2 ^ 64) (ht : s.step a = some t) :
    t.Ok (record log a) ∧ t.journal.capacity = s.journal.capacity := by
  cases a with
  | begin b =>
      rw [record, List.length_append, List.length_singleton] at hroom
      obtain ⟨hid, hj⟩ := h.journal.begin hroom b
      cases ht
      refine ⟨⟨hj, ?_⟩, rfl⟩
      show s.handles ++ [(s.journal.begin b).1] = _
      rw [record, List.map_append, h.handles, hid]
      rfl
  | finish op e =>
      obtain ⟨id, hid, rfl⟩ := Option.map_eq_some_iff.mp ht
      rw [h.handles, List.getElem?_map] at hid
      obtain ⟨a, ha, rfl⟩ := Option.map_eq_some_iff.mp hid
      refine ⟨⟨h.journal.finish ha e, ?_⟩, rfl⟩
      rw [record, Archive.map_modify e.operationId_close]
      exact h.handles

/-- No operation leaves the record. -/
theorem length_le_foldl_record (log : List Activity) (as : List Action) :
    log.length ≤ (as.foldl record log).length := by
  induction as generalizing log with
  | nil => exact le_rfl
  | cons a as ih =>
      refine le_trans ?_ (ih (record log a))
      cases a with
      | begin b =>
          rw [record, List.length_append]
          exact Nat.le_add_right _ _
      | finish op e => rw [record, List.length_modify]

theorem State.Ok.run {as : List Action} {s t : State} (h : s.Ok log)
    (hroom : (as.foldl record log).length < 2 ^ 64) (ht : run State.step s as = some t) :
    t.Ok (as.foldl record log) ∧ t.journal.capacity = s.journal.capacity := by
  induction as generalizing s log with
  | nil =>
      cases ht
      exact ⟨h, rfl⟩
  | cons a as ih =>
      obtain ⟨u, hu, ht⟩ := Transition.run_cons_eq_some.mp ht
      rw [List.foldl_cons] at hroom
      obtain ⟨hok, hcap⟩ := h.step ((length_le_foldl_record _ as).trans_lt hroom) hu
      obtain ⟨hok', hcap'⟩ := ih hok hroom ht
      exact ⟨hok', hcap'.trans hcap⟩

/-- A journal answers like the record of all operations cut to its end. -/
theorem journal_exact (capacity : Nat) {as : List Action}
    (hfew : (history as).length < 2 ^ 64) {s : State}
    (hrun : run State.step ⟨.new capacity, []⟩ as = some s) :
    (∀ limit, s.journal.list limit =
        (history as).reverse.take (min limit (max capacity 1))) ∧
      (∀ op a, (history as)[op]? = some a → s.handles[op]? = some a.operationId ∧
        s.journal.get a.operationId =
          if (history as).length ≤ op + max capacity 1 then some a else none) ∧
      ∀ id, (∀ a ∈ history as, a.operationId ≠ id) → s.journal.get id = none := by
  have hnew : State.Ok ⟨.new capacity, []⟩ [] := ⟨.new capacity, rfl⟩
  obtain ⟨h, hcap⟩ := hnew.run hfew hrun
  have hcap : s.journal.capacity = max capacity 1 := hcap
  refine ⟨fun limit => ?_, fun op a ha => ⟨?_, ?_⟩, fun id hid => h.journal.get_none hid⟩
  · rw [h.journal.list_eq, hcap, history]
  · rw [h.handles, List.getElem?_map]
    exact congrArg (Option.map Activity.operationId) ha
  · rw [h.journal.get_eq ha, hcap, history]

/-- The third operation evicts the first one, whose handle then changes nothing. -/
def evicting : List Action :=
  [.begin ⟨"ai".toList, "memory_read".toList, none, none, ['1']⟩,
    .begin ⟨"ai".toList, "hook_set".toList, none, none, ['2']⟩,
    .begin ⟨"human".toList, "target_pause".toList, none, none, ['3']⟩,
    .finish 0 ⟨"ok".toList, .null, ['4']⟩]

theorem journal_exact_evicting : ∃ s, run State.step ⟨.new 2, []⟩ evicting = some s ∧
    s.journal.list 9 = (history evicting).reverse.take 2 := by
  obtain ⟨s, hs⟩ : ∃ s, run State.step ⟨.new 2, []⟩ evicting = some s := ⟨_, rfl⟩
  exact ⟨s, hs, (journal_exact 2 (by decide) hs).1 9⟩

end PinBridge.Activities
