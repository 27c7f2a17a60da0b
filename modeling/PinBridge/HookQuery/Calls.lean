import PinBridge.Lib.Table
import PinBridge.Lib.Brackets
import PinBridge.HookQuery.Event
import Mathlib.Data.List.Sort

/-!
# Calls from hook events

The layout `calls` of a hook query joins the entry and the return of a function
(`pair_calls`).  The open entries of a thread at an address lie on a stack of their
own.  An entry is pushed, a return takes the last entry of its stack or stays alone,
a plain hit is a call by itself, and what is left on the stacks in the end are
entries without a return.  The calls are then sorted by their sequences.

The stacks follow the events as nested brackets (`Pairing.Follows`): for each key the
stack holds the entries that nothing has closed yet.
-/

namespace PinBridge.HookQuery

open Brackets

/-! ## Calls -/

/-- The `status` of a call. -/
inductive CallStatus where
  | hit
  | paired
  | unmatchedReturn
  | unmatchedEntry
deriving DecidableEq, Repr

/-- The text of a status. -/
def CallStatus.text : CallStatus → String
  | .hit => "hit"
  | .paired => "paired"
  | .unmatchedReturn => "unmatched_return"
  | .unmatchedEntry => "unmatched_entry"

/-- The object of a call. -/
structure Call where
  sequence : String
  status : CallStatus
  threadId : Option Value
  address : Option Value
  module : Option Value
  symbol : Option Value
  display : Option Value
  hookType : Option Value
  entrySequence : Option String
  returnSequence : Option String
  durationNs : Option String
  arguments : Option Value
  typedArguments : Option Value
  returnValue : Option Value
  typedReturn : Option Value
  entry : Option Value
  ret : Option Value

/-- `call_from_parts`. -/
def callFromParts (entry ret : Option Value) (status : CallStatus) : Call :=
  let primary := entry.or ret
  let entrySequence := entry.map eventSequence
  let returnSequence := ret.map eventSequence
  let entryTime := (entry.bind (Json.get "timestamp_unix_ns")).bind parseValueU64
  let returnTime := (ret.bind (Json.get "timestamp_unix_ns")).bind parseValueU64
  { sequence := toString ((entrySequence.or returnSequence).getD 0)
    status := status
    threadId := primary.bind (Json.get "thread_id")
    address := primary.bind (Json.get "address")
    module := primary.bind (Json.get "module")
    symbol := primary.bind (Json.get "symbol")
    display := primary.bind (Json.get "display")
    hookType := primary.bind (Json.get "hook_type")
    entrySequence := entrySequence.map toString
    returnSequence := returnSequence.map toString
    durationNs := entryTime.bind fun start => returnTime.map fun stop => toString (stop - start)
    arguments := entry.bind (Json.get "arguments")
    typedArguments := entry.bind (Json.get "typed_arguments")
    returnValue := ret.bind (Json.get "return_value")
    typedReturn := ret.bind (Json.get "typed_return")
    entry := entry
    ret := ret }

/-- `event_sequence` of a call. -/
def Call.eventSequence (c : Call) : Nat := (parseValueU64 (.string c.sequence)).getD 0

/-- The events a call was made of. -/
def Call.events (c : Call) : List Value := c.entry.toList ++ c.ret.toList

/-- The call is named after its first event. -/
def Call.Named (c : Call) : Prop :=
  ∃ event ∈ c.events.head?, c.eventSequence = PinBridge.HookQuery.eventSequence event

theorem callFromParts_named {entry ret : Option Value} {event : Value} (status : CallStatus)
    (h : entry.or ret = some event) : (callFromParts entry ret status).Named := by
  have hread : ∀ n < 2 ^ 64, (parseValueU64 (.string (toString n))).getD 0 = n := by
    intro n hn
    rw [parseValueU64_decimal hn, Option.getD_some]
  cases entry with
  | some e =>
      cases h
      exact ⟨event, rfl, hread _ (eventSequence_lt event)⟩
  | none =>
      cases h
      exact ⟨event, rfl, hread _ (eventSequence_lt event)⟩

/-! ## The kinds of an event and its stack -/

/-- The branches of `kind`: what is no hit and no entry is treated as a return. -/
inductive EventKind where
  | hit
  | entry
  | ret
deriving DecidableEq, Repr

/-- `kind`, by default `hit`. -/
def eventKind (event : Value) : EventKind :=
  let kind := ((event.get "kind").bind Json.asStr).getD "hit"
  if kind = "hit" then .hit else if kind = "entry" then .entry else .ret

/-- The thread and the address of an event. -/
abbrev CallKey : Type := String × String

variable (text : Value → String)

/-- The stack an event belongs to. -/
def callKey (event : Value) : CallKey :=
  (scalarString text (event.get "thread_id"), scalarString text (event.get "address"))

/-! ## Pairing -/

/-- The locals of the loop, `stacks` and `calls`. -/
structure Pairing where
  entryStacks : Table CallKey (List Value)
  calls : List Call

/-- The body of the loop. -/
def Pairing.step (s : Pairing) (event : Value) : Pairing :=
  match eventKind event with
  | .hit => { s with calls := s.calls ++ [callFromParts (some event) none .hit] }
  | .entry =>
      let key := callKey text event
      { s with
        entryStacks := s.entryStacks.insert key (((s.entryStacks.lookup key).getD []) ++ [event]) }
  | .ret =>
      let key := callKey text event
      match (s.entryStacks.lookup key).bind fun stack => stack.getLast?.map fun e => (stack, e) with
      | some (stack, entry) =>
          { entryStacks := s.entryStacks.insert key stack.dropLast
            calls := s.calls ++ [callFromParts (some entry) (some event) .paired] }
      | none => { s with calls := s.calls ++ [callFromParts none (some event) .unmatchedReturn] }

/-- The order of the keys in the map. -/
def CallKey.le (k k' : CallKey) : Bool := k.1 < k'.1 || (k.1 == k'.1 && (k.2 < k'.2 || k.2 == k'.2))

/-- `stacks.into_values()`. -/
def Pairing.intoValues (s : Pairing) : List (List Value) :=
  (s.entryStacks.entries.mergeSort fun x y => CallKey.le x.1 y.1).map fun x => x.2

/-- The calls before they are sorted. -/
def Pairing.flush (s : Pairing) : List Call :=
  s.calls ++ s.intoValues.flatten.map fun entry => callFromParts (some entry) none .unmatchedEntry

/-- `pair_calls`. -/
def pairCalls (events : List Value) : List Call :=
  ((events.foldl (Pairing.step text) ⟨∅, []⟩).flush).mergeSort fun a b =>
    decide (a.eventSequence ≤ b.eventSequence)

/-! ## Where the events of a call stand -/

/-- The brackets of a key: its entries open, its returns close. -/
def callSide (key : CallKey) (event : Value) : Side :=
  match eventKind event with
  | .hit => .other
  | .entry => if callKey text event = key then .opens else .other
  | .ret => if callKey text event = key then .closes else .other

/-- An entry and a later return of the same key, with balanced events of the key
between them. -/
def Call.Joined (events : List Value) (c : Call) : Prop :=
  ∃ key pre entry mid ret post, events = pre ++ entry :: (mid ++ ret :: post) ∧
    c.entry = some entry ∧ c.ret = some ret ∧
    callSide text key entry = .opens ∧ callSide text key ret = .closes ∧
    Balanced (callSide text key) mid

/-- A return before which every entry of its key is closed. -/
def Call.LoneReturn (events : List Value) (c : Call) : Prop :=
  ∃ key pre ret post, events = pre ++ ret :: post ∧ c.entry = none ∧ c.ret = some ret ∧
    callSide text key ret = .closes ∧ Settled (callSide text key) pre

/-- An entry that nothing after it closes. -/
def Call.LoneEntry (events : List Value) (c : Call) : Prop :=
  ∃ key pre entry post, events = pre ++ entry :: post ∧ c.entry = some entry ∧ c.ret = none ∧
    callSide text key entry = .opens ∧ ¬Closed (callSide text key) post

/-- A hit is a call by itself. -/
def Call.LoneHit (events : List Value) (c : Call) : Prop :=
  ∃ event ∈ events, c.entry = some event ∧ c.ret = none ∧ eventKind event = .hit

/-- What the status of a call says about its events. -/
def Call.Told (events : List Value) (c : Call) : Prop :=
  match c.status with
  | .hit => c.LoneHit events
  | .paired => c.Joined text events
  | .unmatchedReturn => c.LoneReturn text events
  | .unmatchedEntry => c.LoneEntry text events

/-- A call that is told stays told when more events come, unless it is an open entry. -/
theorem Call.Told.append {events : List Value} {c : Call} (h : c.Told text events)
    (hc : c.status ≠ .unmatchedEntry) (more : List Value) : c.Told text (events ++ more) := by
  unfold Call.Told at h ⊢
  cases hs : c.status with
  | hit =>
      simp only [hs] at h ⊢
      obtain ⟨event, hmem, h⟩ := h
      exact ⟨event, List.mem_append_left more hmem, h⟩
  | paired =>
      simp only [hs] at h ⊢
      obtain ⟨key, pre, entry, mid, ret, post, rfl, h⟩ := h
      exact ⟨key, pre, entry, mid, ret, post ++ more, by simp, h⟩
  | unmatchedReturn =>
      simp only [hs] at h ⊢
      obtain ⟨key, pre, ret, post, rfl, h⟩ := h
      exact ⟨key, pre, ret, post ++ more, by simp, h⟩
  | unmatchedEntry => exact absurd hs hc

/-! ## The stacks follow the events -/

/-- The stack of a key. -/
def Pairing.stack (s : Pairing) (key : CallKey) : List Value := (s.entryStacks.lookup key).getD []

/-- The open entries of all keys. -/
def Pairing.openEntries (s : Pairing) : List Value := s.entryStacks.gather fun _ stack => stack

/-- The stack of each key holds its open entries, the events lie on the stacks or in a
call, and each call has told what its status says. -/
structure Pairing.Follows (events : List Value) (s : Pairing) : Prop where
  nested : ∀ key, Nested (callSide text key) events (s.stack key)
  placed : (s.calls.flatMap Call.events ++ s.openEntries).Perm events
  told : ∀ c ∈ s.calls, c.Told text events
  closed : ∀ c ∈ s.calls, c.status ≠ .unmatchedEntry
  named : ∀ c ∈ s.calls, c.Named

open Classical in
/-- Replacing a stack exchanges its entries. -/
theorem Pairing.count_openEntries_insert (s : Pairing) (key : CallKey) (stack : List Value)
    (calls : List Call) (v : Value) :
    (Pairing.openEntries ⟨s.entryStacks.insert key stack, calls⟩).count v +
        (s.stack key).count v = s.openEntries.count v + stack.count v := by
  have h := Table.count_gather_insert (fun _ stack => stack) s.entryStacks key v stack
  have hshare : s.entryStacks.share (fun _ stack => stack) key = s.stack key := by
    rw [Table.share, Pairing.stack]
    cases s.entryStacks.lookup key <;> rfl
  rw [hshare] at h
  exact h

theorem Pairing.stack_insert (s : Pairing) (key key' : CallKey) (stack : List Value)
    (calls : List Call) :
    Pairing.stack ⟨s.entryStacks.insert key stack, calls⟩ key' =
      if key' = key then stack else s.stack key' := by
  unfold Pairing.stack
  split
  · next h => rw [h, AList.lookup_insert, Option.getD_some]
  · next h => rw [AList.lookup_insert_ne h]

theorem callSide_of_ne {key : CallKey} {event : Value} (h : key ≠ callKey text event) :
    callSide text key event = .other := by
  unfold callSide
  cases eventKind event with
  | hit => rfl
  | entry => exact if_neg (Ne.symm h)
  | ret => exact if_neg (Ne.symm h)

/-- What a step does: a hit is recorded, an entry is pushed, a return takes the last
entry of its stack or is recorded alone. -/
inductive Pairing.Stepped (s : Pairing) (event : Value) : Pairing → Prop where
  | hit (h : eventKind event = .hit) :
      Stepped s event ⟨s.entryStacks, s.calls ++ [callFromParts (some event) none .hit]⟩
  | entry (h : eventKind event = .entry) :
      Stepped s event
        ⟨s.entryStacks.insert (callKey text event) (s.stack (callKey text event) ++ [event]),
          s.calls⟩
  | paired {os : List Value} {entry : Value} (h : eventKind event = .ret)
      (hstack : s.stack (callKey text event) = os ++ [entry]) :
      Stepped s event ⟨s.entryStacks.insert (callKey text event) os,
        s.calls ++ [callFromParts (some entry) (some event) .paired]⟩
  | alone (h : eventKind event = .ret) (hstack : s.stack (callKey text event) = []) :
      Stepped s event
        ⟨s.entryStacks, s.calls ++ [callFromParts none (some event) .unmatchedReturn]⟩

theorem Pairing.stepped (s : Pairing) (event : Value) :
    Pairing.Stepped text s event (s.step text event) := by
  unfold Pairing.step
  cases hkind : eventKind event with
  | hit => exact .hit hkind
  | entry => exact .entry hkind
  | ret =>
      cases hlookup : s.entryStacks.lookup (callKey text event) with
      | none =>
          simp only [hlookup, Option.bind_none]
          refine .alone hkind ?_
          rw [Pairing.stack, hlookup, Option.getD_none]
      | some stack =>
          have hstack : s.stack (callKey text event) = stack := by
            rw [Pairing.stack, hlookup, Option.getD_some]
          cases hlast : stack.getLast? with
          | none =>
              simp only [hlookup, Option.bind_some, hlast, Option.map_none]
              refine .alone hkind ?_
              rw [hstack, List.getLast?_eq_none_iff.mp hlast]
          | some entry =>
              obtain ⟨os, rfl⟩ := List.getLast?_eq_some_iff.mp hlast
              simp only [hlookup, Option.bind_some, hlast, Option.map_some, List.dropLast_concat]
              exact .paired hkind hstack

/-- The calls of a pairing that has recorded one more. -/
theorem Pairing.Follows.told_append {events : List Value} {s : Pairing} {c : Call}
    {event : Value} (h : s.Follows text events) (hc : c.Told text (events ++ [event])) :
    ∀ c' ∈ s.calls ++ [c], c'.Told text (events ++ [event]) := by
  intro c' hmem
  obtain hmem | hmem := List.mem_append.mp hmem
  · exact (h.told c' hmem).append text (h.closed c' hmem) [event]
  · rwa [List.mem_singleton.mp hmem]

theorem Pairing.Follows.closed_append {events : List Value} {s : Pairing} {c : Call}
    (h : s.Follows text events) (hc : c.status ≠ .unmatchedEntry) :
    ∀ c' ∈ s.calls ++ [c], c'.status ≠ .unmatchedEntry := by
  intro c' hmem
  obtain hmem | hmem := List.mem_append.mp hmem
  · exact h.closed c' hmem
  · rwa [List.mem_singleton.mp hmem]

theorem Pairing.Follows.named_append {events : List Value} {s : Pairing} {c : Call}
    (h : s.Follows text events) (hc : c.Named) : ∀ c' ∈ s.calls ++ [c], c'.Named := by
  intro c' hmem
  obtain hmem | hmem := List.mem_append.mp hmem
  · exact h.named c' hmem
  · rwa [List.mem_singleton.mp hmem]

open Classical in
theorem Pairing.Follows.step {events : List Value} {s s' : Pairing} {event : Value}
    (h : s.Follows text events) (hs : Pairing.Stepped text s event s') :
    s'.Follows text (events ++ [event]) := by
  have hother : ∀ key, key ≠ callKey text event →
      Nested (callSide text key) (events ++ [event]) (s.stack key) := fun key hkey =>
    (h.nested key).append (.other (callSide_of_ne text hkey))
  have hplaced := fun v => List.perm_iff_count.mp h.placed v
  simp only [List.count_append] at hplaced
  cases hs with
  | hit hkind =>
      refine ⟨fun key => (h.nested key).append (.other ?_), ?_, h.told_append text ?_,
        h.closed_append text nofun,
        h.named_append text (callFromParts_named _ rfl)⟩
      · simp only [callSide, hkind]
      · rw [List.perm_iff_count]
        intro v
        simp only [List.flatMap_append, List.count_append, ← hplaced]
        show _ + [event].count v + s.openEntries.count v = _
        omega
      · exact ⟨event, by simp, rfl, rfl, hkind⟩
  | entry hkind =>
      refine ⟨fun key => ?_, ?_, ?_, h.closed, h.named⟩
      · rw [s.stack_insert]
        split
        · next hkey =>
            subst hkey
            exact (h.nested _).opening (by simp [callSide, hkind])
        · next hkey => exact hother key hkey
      · rw [List.perm_iff_count]
        intro v
        have hcount := s.count_openEntries_insert (callKey text event)
          (s.stack (callKey text event) ++ [event]) s.calls v
        simp only [List.count_append] at hcount ⊢
        have := hplaced v
        omega
      · exact fun c hc => (h.told c hc).append text (h.closed c hc) [event]
  | @paired os entry hkind hstack =>
      have hside : callSide text (callKey text event) event = .closes := by
        simp [callSide, hkind]
      have hnested := h.nested (callKey text event)
      rw [hstack] at hnested
      obtain ⟨pre, mid, rfl, hopens, hmid, hnested⟩ := hnested.pop hside
      refine ⟨fun key => ?_, ?_, h.told_append text ?_, h.closed_append text nofun,
        h.named_append text (callFromParts_named _ rfl)⟩
      · rw [s.stack_insert]
        split
        · next hkey => rwa [hkey]
        · next hkey => exact hother key hkey
      · rw [List.perm_iff_count]
        intro v
        have hcount := s.count_openEntries_insert (callKey text event) os
          (s.calls ++ [callFromParts (some entry) (some event) .paired]) v
        rw [hstack] at hcount
        have hplaced := hplaced v
        simp only [List.flatMap_append, List.count_append] at hcount hplaced ⊢
        have hcall : (List.flatMap Call.events
            [callFromParts (some entry) (some event) .paired]).count v =
            [entry].count v + [event].count v := by
          show [entry, event].count v = _
          rw [← List.count_append]
          rfl
        omega
      · exact ⟨callKey text event, pre, entry, mid, event, [], by simp, rfl, rfl, hopens, hside,
          hmid⟩
  | alone hkind hstack =>
      have hside : callSide text (callKey text event) event = .closes := by
        simp [callSide, hkind]
      have hnested := h.nested (callKey text event)
      rw [hstack] at hnested
      refine ⟨fun key => ?_, ?_, h.told_append text ?_, h.closed_append text nofun,
        h.named_append text (callFromParts_named _ rfl)⟩
      · show Nested _ _ (s.stack key)
        by_cases hkey : key = callKey text event
        · rw [hkey, hstack]
          exact hnested.lone_closing hside
        · exact hother key hkey
      · rw [List.perm_iff_count]
        intro v
        simp only [List.flatMap_append, List.count_append, ← hplaced]
        show _ + [event].count v + s.openEntries.count v = _
        omega
      · exact ⟨callKey text event, events, event, [], rfl, rfl, rfl, hside, hnested.nil_settled⟩

theorem Pairing.follows (events : List Value) :
    (events.foldl (Pairing.step text) ⟨∅, []⟩).Follows text events := by
  induction events using List.reverseRecOn with
  | nil => exact ⟨fun _ => .settled .nil, .refl _,
      fun _ h => absurd h List.not_mem_nil, fun _ h => absurd h List.not_mem_nil,
      fun _ h => absurd h List.not_mem_nil⟩
  | append_singleton events event ih =>
      rw [List.foldl_concat]
      exact ih.step text (Pairing.stepped text _ event)

/-! ## The result -/

theorem Pairing.intoValues_perm (s : Pairing) : s.intoValues.flatten.Perm s.openEntries := by
  rw [Pairing.intoValues, Pairing.openEntries, Table.gather, List.flatMap_def]
  exact ((List.mergeSort_perm _ _).map _).flatten

/-- The calls of the leftovers hold the leftovers. -/
theorem flatMap_leftover (entries : List Value) :
    (entries.map fun entry => callFromParts (some entry) none .unmatchedEntry).flatMap
      Call.events = entries := by
  induction entries with
  | nil => rfl
  | cons entry entries ih =>
      rw [List.map_cons, List.flatMap_cons, ih]
      rfl

theorem Pairing.Follows.flush_placed {events : List Value} {s : Pairing}
    (h : s.Follows text events) : (s.flush.flatMap Call.events).Perm events := by
  rw [Pairing.flush, List.flatMap_append, flatMap_leftover]
  exact (s.intoValues_perm.append_left _).trans h.placed

/-- A call of the result was recorded in the loop or is a leftover. -/
theorem Pairing.mem_flush {s : Pairing} {c : Call} (hc : c ∈ s.flush) :
    c ∈ s.calls ∨ ∃ key, ∃ entry ∈ s.stack key,
      c = callFromParts (some entry) none .unmatchedEntry := by
  obtain hc | hc := List.mem_append.mp hc
  · exact .inl hc
  · obtain ⟨entry, hentry, rfl⟩ := List.mem_map.mp hc
    obtain ⟨key, stack, hlookup, hmem⟩ :=
      Table.mem_gather.mp (s.intoValues_perm.mem_iff.mp hentry)
    refine .inr ⟨key, entry, ?_, rfl⟩
    rwa [Pairing.stack, hlookup, Option.getD_some]

theorem Pairing.Follows.flush_told {events : List Value} {s : Pairing}
    (h : s.Follows text events) : ∀ c ∈ s.flush, c.Told text events := by
  intro c hc
  obtain hc | ⟨key, entry, hentry, rfl⟩ := Pairing.mem_flush hc
  · exact h.told c hc
  · obtain ⟨pre, post, rfl, hopens, hnot⟩ := (h.nested key).not_closed hentry
    exact ⟨key, pre, entry, post, rfl, rfl, rfl, hopens, hnot⟩

theorem Pairing.Follows.flush_named {events : List Value} {s : Pairing}
    (h : s.Follows text events) : ∀ c ∈ s.flush, c.Named := by
  intro c hc
  obtain hc | ⟨_, _, _, rfl⟩ := Pairing.mem_flush hc
  · exact h.named c hc
  · exact callFromParts_named _ rfl

/-- Every event is placed in exactly one call.  A pair is an entry and a later return of
the same thread and address with balanced events of that key between them.  Before a
lone return every entry of its key is closed, and nothing after a lone entry closes it.
The calls are sorted by their sequences, the sequences of their first events. -/
theorem pairCalls_faithful (events : List Value) :
    ((pairCalls text events).flatMap Call.events).Perm events ∧
    (∀ c ∈ pairCalls text events, c.status = .paired → c.Joined text events) ∧
    (∀ c ∈ pairCalls text events, c.status = .unmatchedReturn → c.LoneReturn text events) ∧
    (∀ c ∈ pairCalls text events, c.status = .unmatchedEntry → c.LoneEntry text events) ∧
    (pairCalls text events).Pairwise (fun a b => a.eventSequence ≤ b.eventSequence) ∧
    ∀ c ∈ pairCalls text events, c.Named := by
  have hfollows := Pairing.follows text events
  have hperm : (pairCalls text events).Perm
      (events.foldl (Pairing.step text) ⟨∅, []⟩).flush := List.mergeSort_perm _ _
  have htold : ∀ c ∈ pairCalls text events, c.Told text events := fun c hc =>
    hfollows.flush_told text c (hperm.mem_iff.mp hc)
  refine ⟨?_, ?_, ?_, ?_, ?_, ?_⟩
  · exact (hperm.flatMap_right _).trans (hfollows.flush_placed text)
  · intro c hc hs
    have h := htold c hc
    unfold Call.Told at h
    rwa [hs] at h
  · intro c hc hs
    have h := htold c hc
    unfold Call.Told at h
    rwa [hs] at h
  · intro c hc hs
    have h := htold c hc
    unfold Call.Told at h
    rwa [hs] at h
  · have hsorted : (pairCalls text events).Pairwise fun a b =>
        decide (a.eventSequence ≤ b.eventSequence) = true :=
      List.pairwise_mergeSort
        (fun a b c hab hbc => by simp only [decide_eq_true_eq] at hab hbc ⊢; omega)
        (fun a b => by simp only [Bool.or_eq_true, decide_eq_true_eq]; omega) _
    exact hsorted.imp fun h => of_decide_eq_true h
  · exact fun c hc => hfollows.flush_named text c (hperm.mem_iff.mp hc)

end PinBridge.HookQuery
