import PinBridge.Lib.BoundedLog
import PinBridge.Lib.Transition
import PinBridge.Trace.Event

/-!
# Paging over the event lanes

The rings of `ring.rs` and `hook_events.rs` and a client that pages one of them.  A submit
that gets the lock pushes a record; it gets the next sequence number.  `page_into` copies the
records after a cursor, and the reply of `RING_PAGE` and the callers of `try_page` continue at
the sequence number of the last record, or at the old cursor when there is none.  A busy lock
gives an empty reply, or none.

`page_into` computes with 64-bit words.  Where nothing overflows it is `BoundedLog.pageOf`
(`pageInto_eq`), and the client sees every entry once or as missed.  `after + 1` overflows for
the cursor `2 ^ 64 - 1`, which any client may send: the page then starts at the oldest record.
`paging_exact_iff` says that the paging is exact on a run if and only if nothing overflows.
-/

namespace PinBridge.Lanes

open BoundedLog (Ring cell)
open Transition

/-! ## Records -/

/-- A record that a ring stamps with its sequence number. -/
class Sequenced (α : Type*) where
  empty : α
  sequence : α → Nat
  withSequence : Nat → α → α
  sequence_withSequence : ∀ {n : Nat} (a : α), n < 2 ^ 64 → sequence (withSequence n a) = n

instance : Sequenced Event where
  empty := Event.empty
  sequence e := e.sequence.toNat
  withSequence n e := { e with sequence := UInt64.ofNat n }
  sequence_withSequence _ h := UInt64.toNat_ofNat_of_lt' h

/-- `struct HookLogRecord`, the record of the hook and syscall lanes. -/
structure HookLogRecord where
  sequence : UInt64
  timestampUnixNs : UInt64
  kind : UInt32
  threadId : UInt32
  address : UInt64
  argumentCount : UInt32
  flags : UInt32
  arguments : Vector UInt64 16
deriving DecidableEq

/-- `HookLogRecord::EMPTY`. -/
def HookLogRecord.empty : HookLogRecord := ⟨0, 0, 0, 0, 0, 0, 0, .replicate 16 0⟩

instance : Sequenced HookLogRecord where
  empty := HookLogRecord.empty
  sequence e := e.sequence.toNat
  withSequence n e := { e with sequence := UInt64.ofNat n }
  sequence_withSequence _ h := UInt64.toNat_ofNat_of_lt' h

variable {α : Type*} [Sequenced α] {cap : ℕ+}

/-! ## The ring -/

/-- A sum of 64-bit words. -/
def wrap (n : Nat) : Nat := n % 2 ^ 64

/-- `Ring::new`. -/
def newRing (α : Type*) [Sequenced α] (cap : ℕ+) : Ring α cap := ⟨fun _ => Sequenced.empty, 0⟩

/-- `Ring::push`. -/
def push (r : Ring α cap) (event : α) : Ring α cap :=
  let total := wrap (r.total + 1)
  { cells := Function.update r.cells (cell cap (wrap (total + (2 ^ 64 - 1))))
      (Sequenced.withSequence total event)
    total := total }

/-- `first` of `page_into`. -/
def pageFirst (r : Ring α cap) (after : Nat) : Nat :=
  max (wrap (after + 1)) (r.total - min r.total cap + 1)

/-- `Ring::page_into`: the missed count and the records. -/
def pageInto (r : Ring α cap) (after limit : Nat) : Nat × List α :=
  let first := pageFirst r after
  let missed := first - wrap (after + 1)
  if first ≤ r.total then
    let last := min (wrap (wrap (first + limit) + (2 ^ 64 - 1))) r.total
    (missed, (List.range' first (last + 1 - first)).map fun sequence =>
      r.cells (cell cap (sequence - 1)))
  else (missed, [])

/-- A sum of `page_into` overflows. -/
def PageOverflows (r : Ring α cap) (after limit : Nat) : Prop :=
  2 ^ 64 ≤ after + 1 ∨ pageFirst r after ≤ r.total ∧ 2 ^ 64 ≤ pageFirst r after + limit

instance (r : Ring α cap) (after limit : Nat) : Decidable (PageOverflows r after limit) :=
  inferInstanceAs (Decidable (_ ∨ _))

/-! ## The client -/

/-- `RING_PAGE_MAX_LIMIT`. -/
def ringPageMaxLimit : Nat := 2048

/-- How a client asks for a page. -/
inductive Call where
  /-- The request `RING_PAGE`. -/
  | ringPage (limit : Nat)
  /-- `try_page` in the agent. -/
  | tryPage (limit : Nat)

/-- The limit that the client asks for. -/
def Call.requested : Call → Nat
  | ringPage limit => limit
  | tryPage limit => limit

/-- The limit that `page_into` gets. -/
def Call.limit : Call → Nat
  | ringPage limit => min limit ringPageMaxLimit
  | tryPage limit => limit

/-- What a poll has given. -/
structure Reply (α : Type*) where
  after : Nat
  total : Nat
  missed : Nat
  next : Nat
  events : List α

/-- `events.last().map(|e| e.sequence).unwrap_or(after)`. -/
def nextCursor (after : Nat) (events : List α) : Nat :=
  (events.getLast?.map Sequenced.sequence).getD after

/-- A lane and one client. -/
structure State (α : Type*) (cap : ℕ+) where
  ring : Ring α cap
  /-- The records that were pushed, before they were stamped. -/
  pushed : List α
  /-- The first cursor of the client. -/
  start : Nat
  replies : List (Reply α)
  /-- Some sum has overflowed; a build with checks panics there. -/
  overflowed : Bool

/-- A new lane and a client that starts at any cursor. -/
def State.init (α : Type*) [Sequenced α] (cap : ℕ+) (start : UInt64) : State α cap :=
  ⟨newRing α cap, [], start.toNat, [], false⟩

/-- The cursor of the next poll. -/
def State.cursor (s : State α cap) : Nat := (s.replies.getLast?.map Reply.next).getD s.start

/-- All records that the client has received. -/
def State.delivered (s : State α cap) : List α := s.replies.flatMap Reply.events

/-- The sum of the missed counts. -/
def State.missed (s : State α cap) : Nat := (s.replies.map Reply.missed).sum

inductive Action (α : Type*) where
  /-- A submit that gets the lock. -/
  | push (event : α)
  /-- A poll; `busy` when the lock stays taken. -/
  | poll (call : Call) (busy : Bool)

/-- One step of the lane or the client. -/
def step (s : State α cap) : Action α → Option (State α cap)
  | .push event => some { s with
      ring := push s.ring event
      pushed := s.pushed ++ [event]
      overflowed := s.overflowed || decide (2 ^ 64 ≤ s.ring.total + 1) }
  | .poll call busy =>
      if call.requested = 0 then none
      else match busy, call with
        | false, _ =>
            let (missed, events) := pageInto s.ring s.cursor call.limit
            some { s with
              replies := s.replies ++
                [⟨s.cursor, s.ring.total, missed, nextCursor s.cursor events, events⟩]
              overflowed := s.overflowed || decide (PageOverflows s.ring s.cursor call.limit) }
        | true, .ringPage _ =>
            some { s with replies := s.replies ++ [⟨s.cursor, s.ring.total, 0, s.cursor, []⟩] }
        | true, .tryPage _ => some s

/-- Exact paging: nothing has overflowed, every record comes once, in order and with its own
payload, all others up to the cursor are counted as missed, and a poll at or beyond the total
gives nothing. -/
structure State.Exact (s : State α cap) : Prop where
  noOverflow : s.overflowed = false
  increasing : s.delivered.Pairwise fun e f => Sequenced.sequence e < Sequenced.sequence f
  payload : ∀ e ∈ s.delivered, s.start < Sequenced.sequence e ∧
    ∃ event, s.pushed[Sequenced.sequence e - 1]? = some event ∧
      e = Sequenced.withSequence (Sequenced.sequence e) event
  accounts : s.start + s.delivered.length + s.missed = s.cursor
  still : ∀ r ∈ s.replies, r.total ≤ r.after → r.events = [] ∧ r.missed = 0 ∧ r.next = r.after

/-- No sum of the step overflows. -/
def NoOverflow (s : State α cap) : Action α → Prop
  | .push _ => s.ring.total + 1 < 2 ^ 64
  | .poll call busy => busy = false → s.cursor + 1 < 2 ^ 64 ∧
      (pageFirst s.ring s.cursor ≤ s.ring.total →
        pageFirst s.ring s.cursor + call.limit < 2 ^ 64)

instance (s : State α cap) : (a : Action α) → Decidable (NoOverflow s a)
  | .push _ => inferInstanceAs (Decidable (_ < _))
  | .poll _ _ => inferInstanceAs (Decidable (_ → _))

/-! ## The ring without overflow -/

theorem push_eq {r : Ring α cap} (h : r.total + 1 < 2 ^ 64) (event : α) :
    push r event = r.push (Sequenced.withSequence (r.total + 1) event) := by
  have hindex : wrap (wrap (r.total + 1) + (2 ^ 64 - 1)) = r.total := by
    unfold wrap
    omega
  unfold push Ring.push
  dsimp only
  rw [hindex, show wrap (r.total + 1) = r.total + 1 from Nat.mod_eq_of_lt h]

omit [Sequenced α] in
theorem pageFirst_eq {r : Ring α cap} {after : Nat} (h : after + 1 < 2 ^ 64) :
    pageFirst r after = BoundedLog.first cap r.total after := by
  rw [pageFirst, wrap, Nat.mod_eq_of_lt h, BoundedLog.first]

omit [Sequenced α] in
/-- Where nothing overflows, `page_into` gives a page of the log. -/
theorem pageInto_eq {r : Ring α cap} {after limit : Nat} (h : ¬ PageOverflows r after limit)
    (hlimit : 0 < limit) : pageInto r after limit = (BoundedLog.missed cap r.total after,
      (BoundedLog.pageOf cap r.total after limit).map fun n => r.cells (cell cap (n - 1))) := by
  obtain ⟨hafter, hlast⟩ := not_or.mp h
  have hfirst := pageFirst_eq (r := r) (Nat.not_le.mp hafter)
  unfold pageInto
  dsimp only
  rw [hfirst] at hlast ⊢
  have hmissed : wrap (after + 1) = after + 1 := Nat.mod_eq_of_lt (Nat.not_le.mp hafter)
  rw [hmissed]
  split
  case isTrue hle =>
    have hlast : BoundedLog.first cap r.total after + limit < 2 ^ 64 :=
      Nat.not_le.mp fun hge => hlast ⟨hle, hge⟩
    have hstop : wrap (wrap (BoundedLog.first cap r.total after + limit) + (2 ^ 64 - 1)) =
        BoundedLog.first cap r.total after + limit - 1 := by
      unfold wrap
      omega
    rw [hstop]
    rfl
  case isFalse hgt =>
    have hnil : BoundedLog.pageOf cap r.total after limit = [] := by
      simp only [BoundedLog.pageOf, List.range'_eq_nil_iff]
      omega
    rw [hnil]
    rfl

/-! ## The invariant -/

/-- The records as they are stamped. -/
def State.log (s : State α cap) : List α :=
  s.pushed.mapIdx fun i event => Sequenced.withSequence (i + 1) event

/-- The ring keeps the end of the log, and the client has seen nothing beyond its cursor. -/
structure Inv (s : State α cap) : Prop where
  holds : s.ring.Holds s.log
  small : s.ring.total < 2 ^ 64
  exact : s.Exact
  bounded : ∀ e ∈ s.delivered, Sequenced.sequence e ≤ s.cursor

theorem Inv.init (start : UInt64) : Inv (State.init α cap start) where
  holds := .nil rfl
  small := Nat.two_pow_pos 64
  exact := ⟨rfl, .nil, nofun, rfl, nofun⟩
  bounded := nofun

theorem State.log_concat (s : State α cap) (event : α) :
    { s with pushed := s.pushed ++ [event] }.log =
      s.log ++ [Sequenced.withSequence (s.pushed.length + 1) event] :=
  List.mapIdx_concat

theorem Inv.push {s : State α cap} (h : Inv s) (hsmall : s.ring.total + 1 < 2 ^ 64) (event : α)
    {overflowed : Bool} (hover : overflowed = false) :
    Inv { s with
      ring := Lanes.push s.ring event
      pushed := s.pushed ++ [event]
      overflowed := overflowed } := by
  have hlength : s.log.length = s.pushed.length := List.length_mapIdx
  constructor
  · have := h.holds.push (Sequenced.withSequence (s.ring.total + 1) event)
    rw [h.holds.total, hlength] at this
    change (Lanes.push s.ring event).Holds ({ s with pushed := s.pushed ++ [event] }.log)
    rw [s.log_concat, push_eq hsmall, h.holds.total, hlength]
    exact this
  · change (Lanes.push s.ring event).total < _
    rw [push_eq hsmall]
    exact hsmall
  · refine ⟨hover, h.exact.increasing, fun e he => ?_, h.exact.accounts, h.exact.still⟩
    obtain ⟨hlow, payload, hpayload, heq⟩ := h.exact.payload e he
    refine ⟨hlow, payload, ?_, heq⟩
    exact (List.getElem?_append_left (List.getElem?_eq_some_iff.mp hpayload).1).trans hpayload
  · exact h.bounded

/-- A reply that accounts for the entries up to its next cursor. -/
theorem Inv.reply {s : State α cap} (h : Inv s) {r : Reply α}
    (hincreasing : r.events.Pairwise fun e f => Sequenced.sequence e < Sequenced.sequence f)
    (hevents : ∀ e ∈ r.events, s.cursor < Sequenced.sequence e ∧ Sequenced.sequence e ≤ r.next ∧
      ∃ event, s.pushed[Sequenced.sequence e - 1]? = some event ∧
        e = Sequenced.withSequence (Sequenced.sequence e) event)
    (haccounts : s.cursor + r.missed + r.events.length = r.next)
    (hstill : r.total ≤ r.after → r.events = [] ∧ r.missed = 0 ∧ r.next = r.after)
    {overflowed : Bool} (hover : overflowed = false) :
    Inv { s with replies := s.replies ++ [r], overflowed := overflowed } := by
  have hcursor : State.cursor { s with replies := s.replies ++ [r], overflowed := overflowed } =
      r.next := by
    simp [State.cursor]
  have hdelivered : State.delivered { s with
      replies := s.replies ++ [r], overflowed := overflowed } = s.delivered ++ r.events := by
    simp [State.delivered]
  have hmissed : State.missed { s with replies := s.replies ++ [r], overflowed := overflowed } =
      s.missed + r.missed := by
    simp [State.missed]
  have hstart : s.start ≤ s.cursor := by
    have := h.exact.accounts
    omega
  refine ⟨h.holds, h.small, ⟨hover, ?_, ?_, ?_, ?_⟩, ?_⟩
  · rw [hdelivered]
    refine List.pairwise_append.mpr ⟨h.exact.increasing, hincreasing, fun e he f hf => ?_⟩
    exact Nat.lt_of_le_of_lt (h.bounded e he) (hevents f hf).1
  · intro e he
    rw [hdelivered] at he
    obtain he | he := List.mem_append.mp he
    · exact h.exact.payload e he
    · obtain ⟨hlow, -, hpayload⟩ := hevents e he
      exact ⟨Nat.lt_of_le_of_lt hstart hlow, hpayload⟩
  · rw [hdelivered, hmissed, hcursor, List.length_append]
    have := h.exact.accounts
    change s.start + (s.delivered.length + r.events.length) + (s.missed + r.missed) = r.next
    omega
  · intro r' hr'
    obtain hr' | hr' := List.mem_append.mp hr'
    · exact h.exact.still r' hr'
    · rw [List.mem_singleton.mp hr']
      exact hstill
  · intro e he
    rw [hdelivered] at he
    rw [hcursor]
    obtain he | he := List.mem_append.mp he
    · have := h.bounded e he
      omega
    · exact (hevents e he).2.1

/-- A busy reply has nothing and stays where it is. -/
theorem Inv.busy {s : State α cap} (h : Inv s) (total : Nat) :
    Inv { s with replies := s.replies ++ [⟨s.cursor, total, 0, s.cursor, []⟩] } :=
  h.reply .nil (by simp) rfl (fun _ => ⟨rfl, rfl, rfl⟩) h.exact.noOverflow

/-- The reply to a poll that gets the lock. -/
theorem Inv.page {s : State α cap} (h : Inv s) {limit : Nat} (hlimit : 0 < limit)
    (hno : ¬ PageOverflows s.ring s.cursor limit) {overflowed : Bool} (hover : overflowed = false) :
    Inv { s with
      replies := s.replies ++ [⟨s.cursor, s.ring.total, (pageInto s.ring s.cursor limit).1,
        nextCursor s.cursor (pageInto s.ring s.cursor limit).2,
        (pageInto s.ring s.cursor limit).2⟩]
      overflowed := overflowed } := by
  have hpage := pageInto_eq hno hlimit
  have hlength : s.log.length = s.pushed.length := List.length_mapIdx
  -- the cell of an entry of the page holds the entry of the log, with its number
  have hcell : ∀ n ∈ BoundedLog.pageOf cap s.ring.total s.cursor limit,
      ∃ event, s.pushed[n - 1]? = some event ∧
        s.ring.cells (cell cap (n - 1)) = Sequenced.withSequence n event ∧
        Sequenced.sequence (s.ring.cells (cell cap (n - 1))) = n := by
    intro n hn
    obtain ⟨hlow, hhigh, -⟩ := BoundedLog.mem_pageOf hn
    have hget := h.holds.get_pageOf hn
    rw [State.log, List.getElem?_mapIdx, Option.map_eq_some_iff] at hget
    obtain ⟨event, hevent, heq⟩ := hget
    rw [Nat.sub_add_cancel (by omega)] at heq
    refine ⟨event, hevent, heq.symm, ?_⟩
    rw [← heq]
    exact Sequenced.sequence_withSequence event (Nat.lt_of_le_of_lt hhigh h.small)
  rw [hpage]
  dsimp only
  have hnumbers : ((BoundedLog.pageOf cap s.ring.total s.cursor limit).map fun n =>
      s.ring.cells (cell cap (n - 1))).map Sequenced.sequence =
      BoundedLog.pageOf cap s.ring.total s.cursor limit := by
    rw [List.map_map]
    conv_rhs => rw [← List.map_id (BoundedLog.pageOf cap s.ring.total s.cursor limit)]
    exact List.map_congr_left fun n hn => (hcell n hn).choose_spec.2.2
  have hnext : nextCursor s.cursor ((BoundedLog.pageOf cap s.ring.total s.cursor limit).map fun n =>
      s.ring.cells (cell cap (n - 1))) = BoundedLog.next cap s.ring.total s.cursor limit := by
    rw [nextCursor, ← List.getLast?_map, hnumbers, BoundedLog.next]
  rw [hnext]
  refine h.reply ?_ (fun e he => ?_) ?_ (fun hle => ?_) hover
  · refine List.pairwise_map.mp ?_
    rw [hnumbers]
    exact BoundedLog.pageOf_sorted
  · obtain ⟨n, hn, rfl⟩ := List.mem_map.mp he
    obtain ⟨event, hevent, heq, hsequence⟩ := hcell n hn
    rw [hsequence]
    exact ⟨(BoundedLog.mem_pageOf hn).1, BoundedLog.mem_pageOf_le_next hlimit hn,
      event, hevent, heq⟩
  · rw [List.length_map]
    exact BoundedLog.length_pageOf hlimit
  · have hle : s.ring.total ≤ s.cursor := hle
    rw [BoundedLog.pageOf_eq_nil hle, BoundedLog.next_of_le hle, BoundedLog.missed_eq_zero hle]
    exact ⟨rfl, rfl, rfl⟩

/-! ## Runs -/

theorem Call.limit_pos {call : Call} (h : call.requested ≠ 0) : 0 < call.limit := by
  cases call with
  | ringPage limit => exact Nat.lt_min.mpr ⟨Nat.pos_of_ne_zero h, by decide⟩
  | tryPage limit => exact Nat.pos_of_ne_zero h

omit [Sequenced α] in
theorem not_pageOverflows_iff {r : Ring α cap} {after limit : Nat} :
    ¬ PageOverflows r after limit ↔ after + 1 < 2 ^ 64 ∧
      (pageFirst r after ≤ r.total → pageFirst r after + limit < 2 ^ 64) := by
  simp only [PageOverflows, not_or, not_and, Nat.not_le]

/-- A step that overflows is noted. -/
theorem overflowed_step {s s' : State α cap} {a : Action α} (h : s.overflowed = false)
    (hstep : step s a = some s') : s'.overflowed = false ↔ NoOverflow s a := by
  cases a with
  | push event =>
      cases hstep
      simp only [NoOverflow, h, Bool.false_or, decide_eq_false_iff_not, Nat.not_le]
  | poll call busy =>
      simp only [step] at hstep
      split at hstep
      · cases hstep
      · cases busy with
        | false =>
            cases hstep
            simp [NoOverflow, h, not_pageOverflows_iff]
        | true => cases call <;> cases hstep <;> simp [NoOverflow, h]

theorem Inv.step {s s' : State α cap} {a : Action α} (h : Inv s) (hno : NoOverflow s a)
    (hstep : step s a = some s') : Inv s' := by
  have hover := (overflowed_step h.exact.noOverflow hstep).mpr hno
  cases a with
  | push event =>
      cases hstep
      exact h.push hno event hover
  | poll call busy =>
      simp only [Lanes.step] at hstep
      split at hstep
      · cases hstep
      · rename_i hlimit
        cases busy with
        | false =>
            cases hstep
            exact h.page (Call.limit_pos hlimit) (not_pageOverflows_iff.mpr (hno rfl)) hover
        | true =>
            cases call with
            | ringPage limit =>
                cases hstep
                exact h.busy _
            | tryPage limit =>
                cases hstep
                exact h

/-- Paging is exact all along a run if and only if no sum of the run overflows, for every
capacity, every first cursor and every order of pushes and polls. -/
theorem paging_exact_iff (start : UInt64) (as : List (Action α)) (s : State α cap)
    (hrun : run step (State.init α cap start) as = some s) :
    Always step State.Exact (State.init α cap start) as ↔
      Guarded step NoOverflow (State.init α cap start) as := by
  constructor
  · intro h
    refine (Guarded.always_iff (I := fun _ => True) (P := fun s => s.overflowed = false)
      (fun _ _ => trivial) (fun _ h hstep => overflowed_step h hstep) trivial rfl hrun).mp ?_
    exact fun pre t hpre ht => (h pre t hpre ht).noOverflow
  · intro h pre t hpre ht
    exact (h.always Inv.step (Inv.init start) pre t hpre ht).exact

/-! ## The last cursor -/

/-- A poll with the cursor `2 ^ 64 - 1` gets the oldest record. -/
theorem last_cursor_restarts :
    ¬ ∀ (cap : ℕ+) (start : UInt64) (as : List (Action Event)) (s : State Event cap),
      run step (State.init Event cap start) as = some s → s.Exact := by
  intro h
  have hpage : (run step (State.init Event 4 (-1)) [.push Event.empty, .poll (.ringPage 1) false]).map
      (fun s => (s.overflowed, s.delivered.length)) = some (true, 1) := by
    decide +kernel
  obtain ⟨s, hrun, hs⟩ := Option.map_eq_some_iff.mp hpage
  have := (h 4 _ _ s hrun).noOverflow
  rw [(Prod.mk.inj hs).1] at this
  cases this

/-- Six pushes into a ring of four cells, with polls before, between and after them. -/
theorem paging_exact_iff_run :
    Always step State.Exact (State.init Event 4 0)
      [.poll (.ringPage 9) false, .push Event.empty, .push Event.empty, .poll (.ringPage 1) false,
        .push Event.empty, .push Event.empty, .push Event.empty, .push Event.empty,
        .poll (.ringPage 9) true, .poll (.ringPage 9) false, .poll (.tryPage 9) true,
        .poll (.tryPage 9) false] := by
  have hrun : (run step (State.init Event 4 0)
      [.poll (.ringPage 9) false, .push Event.empty, .push Event.empty, .poll (.ringPage 1) false,
        .push Event.empty, .push Event.empty, .push Event.empty, .push Event.empty,
        .poll (.ringPage 9) true, .poll (.ringPage 9) false, .poll (.tryPage 9) true,
        .poll (.tryPage 9) false]).isSome := by decide +kernel
  obtain ⟨s, hs⟩ := Option.isSome_iff_exists.mp hrun
  exact (paging_exact_iff 0 _ s hs).mpr (by decide +kernel)

end PinBridge.Lanes
