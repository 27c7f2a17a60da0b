import PinBridge.EventIndex.Query
import PinBridge.Lib.Descending

/-!
# Following an indexed query

A client queries from zero, and then from the sequence number that the last answer gives, until it
gives none.  The lane grows between the windows and while one is read.

A query sees consecutive sequence numbers downwards, and it takes those that match
(`Query.loop_spec`).  The next one goes on where it has stopped, so all of them together take what
matches down to the lowest number that has been seen.  The last query ends there.  It is right to do
so unless the lane was busy: then older events may be retained (`query_walk`).
-/

namespace PinBridge.EventIndex

open BoundedLog (Ring)
open Descending (span)
open Lanes (HookLogRecord Sequenced newRing)

/-! ## Lanes -/

/-- The ring after some records. -/
def ringAt (records : Nat → HookLogRecord) : Nat → Ring HookLogRecord hookEventCapacity
  | 0 => newRing HookLogRecord hookEventCapacity
  | n + 1 => Lanes.push (ringAt records n) (records n)

/-- A lane at the moments at which a client's windows are read.  A number that is read without the
lock may be behind the ring, and the ring is ahead of it at the next moment at most. -/
structure Lane where
  records : Nat → HookLogRecord
  moments : Nat → Moment
  /-- The records in the ring or before it. -/
  count : Nat → Nat
  ring_eq : ∀ k, (moments k).ring = ringAt records (count k)
  total_le : ∀ k, (moments k).total ≤ count k
  count_le : ∀ k, count k ≤ (moments (k + 1)).total
  /-- The counter does not wrap. -/
  small : ∀ k, count k + 4096 < 2 ^ 64

/-- The record of a sequence number. -/
def Lane.record (lane : Lane) (n : Nat) : HookLogRecord :=
  Sequenced.withSequence n (lane.records (n - 1))

/-- A sequence number is in the ring. -/
def Retained (count n : Nat) : Prop := 1 ≤ n ∧ n ≤ count ∧ count < n + hookEventCapacity

variable (lane : Lane)

theorem ringAt_holds {n : Nat} (h : n < 2 ^ 64) :
    (ringAt lane.records n).Holds
      ((List.range n).map fun i => Sequenced.withSequence (i + 1) (lane.records i)) := by
  induction n with
  | zero => exact .nil rfl
  | succ n ih =>
      have hholds := ih (Nat.lt_of_succ_lt h)
      have htotal : (ringAt lane.records n).total = n := by
        rw [hholds.total, List.length_map, List.length_range]
      rw [ringAt, Lanes.push_eq (by rw [htotal]; exact h), htotal, List.range_succ, List.map_append]
      exact hholds.push _

theorem ringAt_total {n : Nat} (h : n < 2 ^ 64) : (ringAt lane.records n).total = n := by
  rw [(ringAt_holds lane h).total, List.length_map, List.length_range]

theorem record_sequence {n : Nat} (h : n < 2 ^ 64) : (lane.record n).sequence.toNat = n := by
  have hsequence := Sequenced.sequence_withSequence (lane.records (n - 1)) h
  exact hsequence

/-- A page has the records of its sequence numbers. -/
theorem pageInto_ringAt {count after : Nat} (h : count + 4096 < 2 ^ 64) (hafter : after ≤ count) :
    (Lanes.pageInto (ringAt lane.records count) after 4096).2 =
      (BoundedLog.pageOf hookEventCapacity count after 4096).map lane.record := by
  have hholds := ringAt_holds lane (n := count) (by omega)
  have htotal := ringAt_total lane (n := count) (by omega)
  have hcap : (hookEventCapacity : Nat) = 32768 := rfl
  have hno : ¬Lanes.PageOverflows (ringAt lane.records count) after 4096 := by
    rw [Lanes.not_pageOverflows_iff, htotal]
    exact ⟨by omega, fun _ => by omega⟩
  rw [Lanes.pageInto_eq hno (by decide), htotal]
  refine List.map_congr_left fun n hn => ?_
  have hpage : n ∈ BoundedLog.pageOf hookEventCapacity (ringAt lane.records count).total after
      4096 := by rwa [htotal]
  have hget := hholds.get_pageOf hpage
  obtain ⟨hlow, hhigh, -⟩ := BoundedLog.mem_pageOf hn
  have hpred : n - 1 + 1 = n := by omega
  rw [List.getElem?_map, List.getElem?_range (by omega)] at hget
  rw [Lane.record, ← Option.some.inj hget]
  show Sequenced.withSequence (n - 1 + 1) _ = _
  rw [hpred]

/-! ## Events -/

theorem trim_digits {ds : List Char} (h : ∀ c ∈ ds, c.isDigit) : Hooks.trim ds = ds := by
  have hspace : ∀ c : Char, c.isDigit → Hooks.isWhitespace c = false := by
    intro c hc
    obtain ⟨hlow, hhigh⟩ := Char.isDigit_iff_toNat.mp hc
    replace hlow : 48 ≤ c.toNat := hlow
    replace hhigh : c.toNat ≤ 57 := hhigh
    rw [Hooks.isWhitespace]
    simp
    omega
  have hfront : ∀ ds : List Char, (∀ c ∈ ds, c.isDigit) →
      ds.dropWhile Hooks.isWhitespace = ds := by
    intro ds h
    cases ds with
    | nil => rfl
    | cons c ds =>
        rw [List.dropWhile_cons_of_neg]
        rw [hspace c (h c List.mem_cons_self)]
        exact Bool.false_ne_true
  rw [Hooks.trim, hfront ds h, List.rdropWhile, hfront ds.reverse, List.reverse_reverse]
  exact fun c hc => h c (List.mem_reverse.mp hc)

/-- A number is read back. -/
theorem parseValueU64_dec {n : Nat} (h : n < 2 ^ 64) : parseValueU64 (dec n) = some n := by
  have hdecimal := HookQuery.parseValueU64_decimal h
  have hdigits : ∀ c ∈ (toString n).toList, c.isDigit := by
    rw [Nat.toString_eq_ofList_toDigits, String.toList_ofList]
    exact fun c hc => Nat.isDigit_of_mem_toDigits (by decide) (by decide) hc
  rw [parseValueU64, dec, Json.asStr, Option.bind_some, parseU64, trim_digits hdigits]
  exact hdecimal

/-- What the Hub adds is not the sequence number. -/
theorem decorate_sequence (signatures : Nat → Option Signature) (pointerWidth : Nat)
    (event : Json) :
    (decorate signatures pointerWidth event).get "sequence" = event.get "sequence" := by
  have hinsert : ∀ {name : String}, "sequence" ≠ name → ∀ json value : Json,
      (json.insert name value).get "sequence" = json.get "sequence" :=
    fun h json value => Json.get_insert h json value
  rw [decorate]
  split
  next => rfl
  next =>
  dsimp only
  split
  next signature _ =>
    have hdisplay : (if ((event.get "display").bind Json.asStr).isNone = true then
        event.insert "display" (.string signature.function) else event).get "sequence" =
        event.get "sequence" := by
      split
      next => exact hinsert (by decide) ..
      next => rfl
    split
    next =>
      split
      next =>
        rw [hinsert (by decide), hinsert (by decide), hinsert (by decide), hinsert (by decide),
          hinsert (by decide), hdisplay]
      next =>
        rw [hinsert (by decide), hinsert (by decide), hinsert (by decide), hinsert (by decide),
          hinsert (by decide), hdisplay]
    next =>
      rw [hinsert (by decide), hinsert (by decide), hinsert (by decide), hinsert (by decide),
        hdisplay]
  next => rw [hinsert (by decide), hinsert (by decide)]

theorem view_sequence (names : Names) (source : Source) (event : HookLogRecord) :
    eventIndexSequence (names.view source event) = some event.sequence.toNat := by
  have hparse := parseValueU64_dec event.sequence.toNat_lt
  have hhook : (hookEvent names.resolve event).get "sequence" = some (dec event.sequence.toNat) :=
    rfl
  have hsyscall : (syscallEvent event).get "sequence" = some (dec event.sequence.toNat) := rfl
  cases source with
  | hook => rw [Names.view, eventIndexSequence, decorate_sequence, hhook, Option.bind_some, hparse]
  | syscall => rw [Names.view, eventIndexSequence, hsyscall, Option.bind_some, hparse]

/-! ## Windows -/

/-- An event of the lane as a query sees it. -/
def Lane.event (names : Names) (source : Source) (n : Nat) : Json :=
  names.view source (lane.record n)

theorem filter_lt_range' (a n b : Nat) :
    (List.range' a n).filter (· < b) = List.range' a (min n (b - a)) := by
  induction n generalizing a with
  | zero => rw [Nat.zero_min]; rfl
  | succ n ih =>
      rw [List.range'_succ, List.filter_cons]
      split
      next h =>
        have hlt := of_decide_eq_true h
        have hmin : min (n + 1) (b - a) = min n (b - (a + 1)) + 1 := by omega
        rw [ih, hmin, List.range'_succ]
      next h =>
        have hge : b ≤ a := Nat.not_lt.mp fun hlt => h (decide_eq_true hlt)
        have hmin : min (n + 1) (b - a) = 0 := by omega
        rw [ih, hmin, Nat.min_eq_zero_iff.mpr (.inr (by omega))]
        rfl

/-- The records of a window, as `page_into` and the handler compute their numbers. -/
theorem handleEventsNewest_events (k before : Nat) (hbusy : (lane.moments k).busy = false)
    (hbefore : before ≤ (lane.moments k).total + 1) :
    (handleEventsNewest (lane.moments k) 4096 before).events =
      if before = 0 then
        (BoundedLog.pageOf hookEventCapacity (lane.count k) ((lane.moments k).total - 4096)
          4096).map lane.record
      else
        ((BoundedLog.pageOf hookEventCapacity (lane.count k) (before - 4097) 4096).filter
          (· < before)).map lane.record := by
  have htotal := lane.total_le k
  have hsmall := lane.small k
  have hpage : ∀ after, after ≤ lane.count k →
      (Lanes.pageInto (lane.moments k).ring after 4096).2 =
        (BoundedLog.pageOf hookEventCapacity (lane.count k) after 4096).map lane.record := by
    intro after hafter
    rw [lane.ring_eq]
    exact pageInto_ringAt lane hsmall hafter
  have hlimit : max 1 (min 4096 4096) = 4096 := rfl
  rw [handleEventsNewest]
  dsimp only
  rw [hbusy, if_neg Bool.false_ne_true, hlimit]
  dsimp only
  split
  next hzero => rw [if_pos rfl, if_neg (not_not_intro rfl), hpage _ (by omega)]
  next hne =>
    have hmin : min before ((lane.moments k).total + 1) = before := Nat.min_eq_left hbefore
    rw [hmin, if_neg hne, if_pos hne, hpage _ (by omega), List.filter_map]
    refine congrArg (List.map lane.record) (List.filter_congr fun n hn => ?_)
    obtain ⟨-, hhigh, -⟩ := BoundedLog.mem_pageOf hn
    rw [Function.comp_apply, record_sequence lane (by omega)]

/-- The events of a window are consecutive.  They end at the asked number, or with the newest one,
and only the retained numbers below are not there. -/
theorem window_events (k before : Nat) (hbusy : (lane.moments k).busy = false)
    (hbefore : before ≤ (lane.moments k).total + 1) : ∃ lo hi, 1 ≤ lo ∧ lo ≤ hi ∧
    hi ≤ lane.count k + 1 ∧ (before ≠ 0 → hi = before) ∧
    (before = 0 → (lane.moments k).total < hi) ∧
    (lo = hi → ∀ n, Retained (lane.count k) n → before ≠ 0 ∧ before ≤ n) ∧
    (handleEventsNewest (lane.moments k) 4096 before).events =
      (List.range' lo (hi - lo)).map lane.record := by
  have htotal := lane.total_le k
  have hcap : (hookEventCapacity : Nat) = 32768 := rfl
  rw [handleEventsNewest_events lane k before hbusy hbefore]
  generalize lane.count k = count at htotal
  split
  next hzero =>
    rw [BoundedLog.pageOf]
    generalize hfirst :
      BoundedLog.first hookEventCapacity count ((lane.moments k).total - 4096) = first
    rw [BoundedLog.first, hcap] at hfirst
    refine ⟨first, max first (min (first + 4096 - 1) count + 1), by omega, by omega, by omega,
      by omega, by omega, fun heq n hn => ?_, ?_⟩
    · obtain ⟨hpos, hle, -⟩ := hn
      omega
    · have hlength : min (first + 4096 - 1) count + 1 - first =
          max first (min (first + 4096 - 1) count + 1) - first := by omega
      rw [hlength]
  next hne =>
    rw [BoundedLog.pageOf, filter_lt_range']
    generalize hfirst : BoundedLog.first hookEventCapacity count (before - 4097) = first
    rw [BoundedLog.first, hcap] at hfirst
    rcases Nat.lt_or_ge first before with hlt | hge
    · have hlength : min (min (first + 4096 - 1) count + 1 - first) (before - first) =
          before - first := by omega
      refine ⟨first, before, by omega, by omega, by omega, fun _ => rfl, by omega, by omega, ?_⟩
      rw [hlength]
    · refine ⟨before, before, by omega, by omega, by omega, fun _ => rfl, by omega,
        fun _ n hn => ?_, ?_⟩
      · obtain ⟨hpos, hle, hkept⟩ := hn
        omega
      · have hlength : min (min (first + 4096 - 1) count + 1 - first) (before - first) = 0 := by
          omega
        rw [hlength, Nat.sub_self, List.range'_zero, List.range'_zero]

/-- The events of a page, the newest first. -/
theorem newestFirst_events (names : Names) (source : Source) {lo hi : Nat} (hhi : hi ≤ 2 ^ 64) :
    newestFirst (((List.range' lo (hi - lo)).map lane.record).map (names.view source)) =
      (span lo hi).map (lane.event names source) := by
  have hsequence : ∀ n ∈ List.range' lo (hi - lo),
      (eventIndexSequence (lane.event names source n)).getD 0 = n := by
    intro n hn
    have hlt : n < 2 ^ 64 := by
      have := List.mem_range'_1.mp hn
      omega
    rw [Lane.event, view_sequence, record_sequence lane hlt, Option.getD_some]
  have hsorted : ((List.range' lo (hi - lo)).map (lane.event names source)).Pairwise fun a b =>
      decide ((eventIndexSequence a).getD 0 ≤ (eventIndexSequence b).getD 0) = true := by
    rw [List.pairwise_map]
    refine List.Pairwise.imp_of_mem (fun {a b} ha hb hab => ?_) List.pairwise_lt_range'
    rw [hsequence a ha, hsequence b hb]
    exact decide_eq_true (Nat.le_of_lt hab)
  rw [newestFirst, List.map_map]
  show (List.mergeSort ((List.range' lo (hi - lo)).map (lane.event names source)) _).reverse = _
  rw [List.mergeSort_of_pairwise hsorted, ← List.map_reverse]
  rfl

/-! ## One query -/

variable (q : Query) (names : Names)

/-- The query takes an event of the lane. -/
def Query.takes (n : Nat) : Bool := q.accepts (lane.event names q.source n)

/-- An event of the lane as it is returned. -/
def Query.returned (n : Nat) : Json := q.present (lane.event names q.source n)

/-- A scan takes the first matching events until it has enough. -/
theorem Query.scan_eq {ns : List Nat} (hns : ∀ n ∈ ns, n < 2 ^ 64) {found : Found}
    (h : found.events.length < q.limit) :
    let taken := (ns.filter (q.takes lane names)).take (q.limit - found.events.length)
    q.scan (ns.map (lane.event names q.source)) found =
      ⟨found.events ++ taken.map (q.returned lane names), taken.getLast?.or found.last⟩ := by
  induction ns generalizing found with
  | nil => simp [Query.scan]
  | cons n ns ih =>
      obtain ⟨hn, hns⟩ := List.forall_mem_cons.mp hns
      have hsequence : eventIndexSequence (lane.event names q.source n) = some n := by
        rw [Lane.event, view_sequence, record_sequence lane hn]
      intro taken
      rw [List.map_cons, Query.scan]
      split
      next haccepts =>
        have htakes : q.takes lane names n = true := haccepts
        obtain ⟨room, hroom⟩ := Nat.exists_eq_add_of_lt h
        have htaken : taken = n :: (ns.filter (q.takes lane names)).take room := by
          show List.take _ (List.filter _ _) = _
          rw [List.filter_cons_of_pos htakes]
          have hsub : q.limit - found.events.length = room + 1 := by omega
          rw [hsub, List.take_succ_cons]
        have hlength : (found.events ++ [q.present (lane.event names q.source n)]).length =
            found.events.length + 1 := by simp
        dsimp only
        rw [hlength, htaken]
        split
        next hfull =>
          have hzero : room = 0 := by omega
          rw [hzero, List.take_zero, hsequence]
          rfl
        next hnotFull =>
          have hsub : q.limit - (found.events.length + 1) = room := by omega
          rw [ih hns (by rw [hlength]; omega)]
          dsimp only
          rw [hlength, hsub, hsequence, List.append_assoc, List.getLast?_cons]
          cases hlast : ((ns.filter (q.takes lane names)).take room).getLast? with
          | none => rfl
          | some m => rfl
      next hrejects =>
        have htakes : ¬q.takes lane names n = true := hrejects
        have htaken : taken = (ns.filter (q.takes lane names)).take
            (q.limit - found.events.length) := by
          show List.take _ (List.filter _ _) = _
          rw [List.filter_cons_of_neg htakes]
        rw [ih hns h, htaken]

/-- What a query has found when it has seen all numbers from `lo` below `top`. -/
structure Seen (top lo : Nat) (found : Found) : Prop where
  events : found.events = ((span lo top).filter (q.takes lane names)).map (q.returned lane names)
  last : found.last = ((span lo top).filter (q.takes lane names)).getLast?
  le : lo ≤ top

variable {lane q names}

variable (lane q names) in
theorem seen_start (top : Nat) : Seen lane q names top top ⟨[], none⟩ := by
  refine ⟨?_, ?_, Nat.le_refl top⟩
  · rw [Descending.span_eq_nil (Nat.le_refl top)]
    rfl
  · rw [Descending.span_eq_nil (Nat.le_refl top)]
    rfl

/-- A scan of the numbers below goes on to the last one, or to that at which it has enough. -/
theorem Seen.scan {top lo hi : Nat} {found : Found} (h : Seen lane q names top hi found)
    (hle : lo ≤ hi) (htop : top ≤ 2 ^ 64) (hroom : found.events.length < q.limit) :
    let found' := q.scan ((span lo hi).map (lane.event names q.source)) found
    (found'.events.length < q.limit ∧ Seen lane q names top lo found') ∨
    (found'.events.length = q.limit ∧ ∃ s, lo ≤ s ∧ s < hi ∧ found'.last = some s ∧
      Seen lane q names top s found') := by
  intro found'
  have hns : ∀ n ∈ span lo hi, n < 2 ^ 64 := fun n hn => by
    have := (Descending.mem_span.mp hn).2
    have := h.le
    omega
  have hscan : found' = _ := q.scan_eq lane names hns hroom
  rw [hscan]
  have hjoin : ∀ s, s ≤ hi →
      (span hi top).filter (q.takes lane names) ++ (span s hi).filter (q.takes lane names) =
        (span s top).filter (q.takes lane names) := fun s hs => by
    rw [← List.filter_append, Descending.span_append hs h.le]
  rcases Nat.lt_or_ge ((span lo hi).filter (q.takes lane names)).length
    (q.limit - found.events.length) with hlt | hge
  · refine .inl ⟨?_, ?_⟩
    · dsimp only
      rw [List.length_append, List.length_map, List.length_take]
      omega
    · rw [List.take_of_length_le (Nat.le_of_lt hlt)]
      refine ⟨?_, ?_, hle.trans h.le⟩
      · dsimp only
        rw [h.events, ← List.map_append, hjoin lo hle]
      · dsimp only
        rw [h.last, ← hjoin lo hle, List.getLast?_append]
  · obtain ⟨s, hlow, hhigh, htake, hlast⟩ := Descending.exists_take_filter (by omega) hge
    refine .inr ⟨?_, s, hlow, hhigh, ?_, ?_, ?_, ?_⟩
    · dsimp only
      rw [List.length_append, List.length_map, List.length_take]
      omega
    · dsimp only
      rw [hlast]
      rfl
    · dsimp only
      rw [htake, h.events, ← List.map_append, hjoin s (Nat.le_of_lt hhigh)]
    · dsimp only
      rw [htake, h.last, ← hjoin s (Nat.le_of_lt hhigh), List.getLast?_append]
    · exact (Nat.le_of_lt hhigh).trans h.le

/-- A query may stop for good at an answer: no event older than what it has seen is retained. -/
def NothingOlder (lane : Lane) (a : Answer) : Prop :=
  ∀ n, Retained (lane.count a.moment) n → a.floor ≠ 0 ∧ a.floor ≤ n

/-- An answer to a query that has seen all numbers from `lo` below `top`. -/
structure Outcome (lane : Lane) (q : Query) (names : Names) (top lo : Nat) (a : Answer) : Prop where
  events : a.events = ((span lo top).filter (q.takes lane names)).map (q.returned lane names)
  lo_pos : 1 ≤ lo
  le : lo ≤ top
  top_le : top ≤ lane.count a.moment + 1
  goesOn : a.exhausted = false → a.nextBefore = some lo ∧ lo < top
  stops : a.exhausted = true → a.nextBefore = none ∧ (a.floor ≠ 0 → a.floor = lo)
  right : a.exhausted = true → (lane.moments a.moment).busy = false → NothingOlder lane a
  busy : (lane.moments a.moment).busy = true → a.exhausted = true ∧ a.floor = a.asked

theorem Seen.stops {top lo : Nat} {found : Found} (h : Seen lane q names top lo found)
    (before scanned floor k : Nat) (json : Json) (hlo : 1 ≤ lo) (htop : top ≤ lane.count k + 1)
    (hfloor : floor ≠ 0 → floor = lo)
    (hright : (lane.moments k).busy = false → ∀ n, Retained (lane.count k) n →
      floor ≠ 0 ∧ floor ≤ n)
    (hbusy : (lane.moments k).busy = true → floor = before) :
    Outcome lane q names top lo (found.answer true before scanned floor k json) where
  events := h.events
  lo_pos := hlo
  le := h.le
  top_le := htop
  goesOn := fun h => nomatch h
  stops := fun _ => ⟨rfl, hfloor⟩
  right := fun _ => hright
  busy := fun h => ⟨rfl, hbusy h⟩

theorem Seen.goesOn {top lo : Nat} {found : Found} (h : Seen lane q names top lo found)
    (before scanned k : Nat) (json : Json) (hlo : 1 ≤ lo) (hlt : lo < top)
    (htop : top ≤ lane.count k + 1) (hlast : found.last = some lo)
    (hbusy : (lane.moments k).busy = false) :
    Outcome lane q names top lo
      (found.answer false before scanned (found.last.getD 0) k json) where
  events := h.events
  lo_pos := hlo
  le := h.le
  top_le := htop
  goesOn := fun _ => ⟨by rw [Found.answer, hlast]; rfl, hlt⟩
  stops := fun h => nomatch h
  right := fun h => nomatch h
  busy := fun hbusy' => by
    have htrue : (lane.moments k).busy = true := hbusy'
    rw [hbusy] at htrue
    exact nomatch htrue

theorem handleEventsNewest_busy {k : Nat} (h : (lane.moments k).busy = true) (before : Nat) :
    (handleEventsNewest (lane.moments k) 4096 before).events = [] := by
  rw [handleEventsNewest]
  dsimp only
  rw [h, if_pos rfl]
  split
  next => rfl
  next =>
    dsimp only
    split
    next => rfl
    next => rfl

/-- A query before it reads a page at a moment. -/
structure Reading (lane : Lane) (q : Query) (names : Names) (k before top scanned : Nat)
    (found : Found) : Prop where
  seen : Seen lane q names top before found
  scanned_eq : scanned = top - before
  before_pos : 1 ≤ before
  top_le : top ≤ (lane.moments k).total + 1
  room : found.events.length < q.limit

/-- One page. -/
theorem loop_page {k before hi top scanned : Nat} {found : Found} (json : Option Json)
    (hbusy : (lane.moments k).busy = false)
    {lo : Nat} (hlo : 1 ≤ lo) (hle : lo ≤ hi)
    (hevents : (handleEventsNewest (lane.moments k) 4096 before).events =
      (List.range' lo (hi - lo)).map lane.record)
    (hnone : lo = hi → (before ≠ 0 → before = hi) ∧
      ∀ n, Retained (lane.count k) n → before ≠ 0 ∧ before ≤ n)
    (hseen : Seen lane q names top hi found) (hscanned : scanned = top - hi)
    (htop : top ≤ lane.count k + 1) (hroom : found.events.length < q.limit) :
    (∃ lo', Outcome lane q names top lo' (q.loop names lane.moments k before scanned found json) ∧
      (q.loop names lane.moments k before scanned found json).moment = k) ∨
    ∃ lo' scanned' found' json', scanned < scanned' ∧ scanned' < 32768 ∧
      Reading lane q names (k + 1) lo' top scanned' found' ∧
      q.loop names lane.moments k before scanned found json =
        q.loop names lane.moments (k + 1) lo' scanned' found' (some json') := by
  have hsmall := lane.small k
  have hcount := lane.count_le k
  have hcap : (hookEventCapacity : Nat) = 32768 := rfl
  rw [Query.loop]
  dsimp only
  rw [hevents, newestFirst_events lane names q.source (by have := hseen.le; omega)]
  have hempty : (span lo hi).map (lane.event names q.source) = [] ↔ lo = hi := by
    rw [List.map_eq_nil_iff, ← List.length_eq_zero_iff, Descending.length_span]
    omega
  split
  next hnil =>
    have heq := hempty.mp hnil
    obtain ⟨hbefore, holder⟩ := hnone heq
    refine .inl ⟨hi, ?_, rfl⟩
    exact hseen.stops before scanned before k _ (heq ▸ hlo) htop hbefore (fun _ => holder)
      fun _ => rfl
  next hsome =>
    have hlt : lo < hi := Nat.lt_of_le_of_ne hle fun heq => hsome (hempty.mpr heq)
    have holdest : (((span lo hi).map (lane.event names q.source)).getLast?.bind
        eventIndexSequence).getD 0 = lo := by
      rw [List.getLast?_map, Descending.getLast?_span hlt, Option.map_some, Option.bind_some,
        Lane.event, view_sequence, record_sequence lane (by have := hseen.le; omega),
        Option.getD_some]
    rw [holdest, List.length_map, Descending.length_span]
    obtain ⟨hnotFull, hnext⟩ | ⟨hfull, s, hlow, hhigh, hlast, hnext⟩ :=
      hseen.scan hle (by omega) hroom
    · rw [if_neg (Nat.ne_of_lt hnotFull)]
      split
      next hstop =>
        refine .inl ⟨lo, ?_, rfl⟩
        refine hnext.stops before _ lo k _ hlo htop (fun _ => rfl) (fun _ n hn => ?_) fun h => ?_
        · obtain ⟨hpos, hle', hkept⟩ := hn
          have := hseen.le
          omega
        · rw [hbusy] at h
          exact nomatch h
      next hgo =>
        refine .inr ⟨lo, scanned + (hi - lo), _, _, by omega, by omega, ?_, rfl⟩
        have := hseen.le
        exact ⟨hnext, by omega, hlo, by omega, hnotFull⟩
    · rw [if_pos hfull]
      have := hseen.le
      exact .inl ⟨s, hnext.goesOn before _ k _ (hlo.trans hlow) (by omega) htop hlast hbusy, rfl⟩

/-- A busy lane ends a query. -/
theorem loop_busy {k before lo top : Nat} (scanned : Nat) {found : Found} (json : Option Json)
    (hbusy : (lane.moments k).busy = true) (hseen : Seen lane q names top lo found) (hlo : 1 ≤ lo)
    (htop : top ≤ lane.count k + 1) (hbefore : before ≠ 0 → before = lo) :
    Outcome lane q names top lo (q.loop names lane.moments k before scanned found json) ∧
      (q.loop names lane.moments k before scanned found json).moment = k ∧
      (q.loop names lane.moments k before scanned found json).asked = before := by
  have hempty : newestFirst ([].map (names.view q.source)) = [] := by
    rw [newestFirst, List.map_nil, List.mergeSort_nil]
    rfl
  rw [Query.loop]
  dsimp only
  rw [handleEventsNewest_busy hbusy, hempty, dif_pos rfl]
  refine ⟨hseen.stops before scanned before k _ hlo htop hbefore (fun h => ?_) fun _ => rfl, rfl,
    rfl⟩
  rw [hbusy] at h
  exact nomatch h

/-- The loop sees consecutive numbers down to some number. -/
theorem loop_spec {k before top scanned : Nat} {found : Found} (json : Option Json)
    (h : Reading lane q names k before top scanned found) :
    ∃ lo, Outcome lane q names top lo (q.loop names lane.moments k before scanned found json) ∧
      k ≤ (q.loop names lane.moments k before scanned found json).moment := by
  induction hfuel : 32768 - scanned using Nat.strong_induction_on
    generalizing k before scanned found json with
  | _ fuel ih =>
      obtain ⟨hseen, hscanned, hpos, htop, hroom⟩ := h
      have htotal := lane.total_le k
      have hle := hseen.le
      cases hbusy : (lane.moments k).busy with
      | true =>
          obtain ⟨houtcome, hmoment, -⟩ :=
            loop_busy scanned json hbusy hseen hpos (by omega) fun _ => rfl
          exact ⟨before, houtcome, Nat.le_of_eq hmoment.symm⟩
      | false =>
          obtain ⟨lo, hi, hlo, hlohi, hhi, hbefore, -, hnone, hevents⟩ :=
            window_events lane k before hbusy (by omega)
          obtain rfl := hbefore (by omega)
          obtain ⟨lo', houtcome, hmoment⟩ |
              ⟨lo', scanned', found', json', hmore, hless, hnext, heq⟩ :=
            loop_page json hbusy hlo hlohi hevents (fun h => ⟨fun _ => rfl, hnone h⟩)
              hseen hscanned (by omega) hroom
          · exact ⟨lo', houtcome, Nat.le_of_eq hmoment.symm⟩
          · obtain ⟨lo'', houtcome, hmoment⟩ :=
              ih (32768 - scanned') (by omega) (some json') hnext rfl
            rw [heq]
            exact ⟨lo'', houtcome, Nat.le_of_succ_le hmoment⟩

variable (q names) in
/-- A query from a sequence number. -/
theorem run_spec {k before : Nat} (hpos : 1 ≤ before)
    (hbefore : before ≤ (lane.moments k).total + 1) :
    ∃ lo, Outcome lane q names before lo (q.run names lane.moments k before) ∧
      k ≤ (q.run names lane.moments k before).moment :=
  loop_spec none ⟨seen_start lane q names before, (Nat.sub_self before).symm, hpos, hbefore,
    q.limit_pos⟩

variable (lane q names) in
/-- The first query. -/
theorem run_zero (k : Nat) :
    ∃ top lo, (lane.moments k).total < top ∧
      Outcome lane q names top lo (q.run names lane.moments k 0) ∧
      k ≤ (q.run names lane.moments k 0).moment := by
  have htotal := lane.total_le k
  cases hbusy : (lane.moments k).busy with
  | true =>
      obtain ⟨houtcome, hmoment, -⟩ := loop_busy 0 none hbusy
        (seen_start lane q names (lane.count k + 1)) (Nat.succ_pos _) (Nat.le_refl _)
        fun h => absurd rfl h
      exact ⟨_, _, Nat.lt_succ_of_le htotal, houtcome, Nat.le_of_eq hmoment.symm⟩
  | false =>
      obtain ⟨lo, hi, hlo, hlohi, hhi, -, hnewest, hnone, hevents⟩ :=
        window_events lane k 0 hbusy (Nat.zero_le _)
      obtain ⟨lo', houtcome, hmoment⟩ | ⟨lo', scanned', found', json', -, -, hnext, heq⟩ :=
        loop_page none hbusy hlo hlohi hevents
          (fun h => ⟨fun h => absurd rfl h, hnone h⟩)
          (seen_start lane q names hi) (Nat.sub_self hi).symm hhi q.limit_pos
      · exact ⟨hi, lo', hnewest rfl, houtcome, Nat.le_of_eq hmoment.symm⟩
      · obtain ⟨lo'', houtcome, hmoment⟩ := loop_spec (some json') hnext
        refine ⟨hi, lo'', hnewest rfl, ?_⟩
        rw [Query.run, heq]
        exact ⟨houtcome, Nat.le_of_succ_le hmoment⟩

/-! ## The walk -/

/-- The answers to a client from some query on.  A query is made after the last page of the one
before. -/
inductive Walk (lane : Lane) (q : Query) (names : Names) : Nat → Nat → List Answer → Prop where
  | last {k before : Nat} (h : (q.run names lane.moments k before).nextBefore = none) :
      Walk lane q names k before [q.run names lane.moments k before]
  | more {k before next : Nat} {answers : List Answer}
      (h : (q.run names lane.moments k before).nextBefore = some next)
      (rest : Walk lane q names ((q.run names lane.moments k before).moment + 1) next answers) :
      Walk lane q names k before (q.run names lane.moments k before :: answers)

/-- What is promised of a walk.  The numbers are those of the events that are returned. -/
structure ReturnsMatches (lane : Lane) (q : Query) (names : Names) (answers : List Answer) :
    Prop where
  returned : ∃ numbers : List Nat, numbers.Pairwise (· > ·) ∧
    (∀ n ∈ numbers, q.takes lane names n) ∧
    answers.flatMap (·.events) = numbers.map (q.returned lane names) ∧
    ∀ n, (∀ a, answers.getLast? = some a → Retained (lane.count a.moment) n) →
      n ≤ (lane.moments 0).total → q.takes lane names n → n ∈ numbers
  exhausted : ∀ a ∈ answers, a.exhausted → NothingOlder lane a

/-- The last page of an answer has not been read from a busy lane that retains an event before the
number it has been asked for. -/
def Undisturbed (lane : Lane) (a : Answer) : Prop :=
  (lane.moments a.moment).busy = true → ∀ n, Retained (lane.count a.moment) n →
    a.asked ≠ 0 ∧ a.asked ≤ n

/-- What the answers to queries have together seen. -/
structure Followed (lane : Lane) (q : Query) (names : Names) (top lo : Nat)
    (answers : List Answer) : Prop where
  events : answers.flatMap (·.events) =
    ((span lo top).filter (q.takes lane names)).map (q.returned lane names)
  le : lo ≤ top
  last : ∃ a, answers.getLast? = some a ∧ a.exhausted = true ∧ (a.floor ≠ 0 → a.floor = lo)
  right : ∀ a ∈ answers, a.exhausted = true → (lane.moments a.moment).busy = false →
    NothingOlder lane a
  busy : ∀ a ∈ answers, (lane.moments a.moment).busy = true →
    a.exhausted = true ∧ a.floor = a.asked

theorem Outcome.exhausted_eq {top lo : Nat} {a : Answer} (h : Outcome lane q names top lo a) :
    a.exhausted = a.nextBefore.isNone := by
  cases hexhausted : a.exhausted with
  | true => rw [(h.stops hexhausted).1]; rfl
  | false => rw [(h.goesOn hexhausted).1]; rfl

theorem Outcome.followed {top lo : Nat} {a : Answer} (h : Outcome lane q names top lo a)
    (hstops : a.exhausted = true) : Followed lane q names top lo [a] where
  events := by rw [List.flatMap_singleton, h.events]
  le := h.le
  last := ⟨a, rfl, hstops, (h.stops hstops).2⟩
  right := fun b hb => by
    obtain rfl := List.mem_singleton.mp hb
    exact h.right
  busy := fun b hb => by
    obtain rfl := List.mem_singleton.mp hb
    exact h.busy

/-- The next answers go on where an answer has stopped. -/
theorem Followed.cons {top mid lo : Nat} {a : Answer} {answers : List Answer}
    (h : Outcome lane q names top mid a) (hrest : Followed lane q names mid lo answers) :
    Followed lane q names top lo (a :: answers) where
  events := by
    rw [List.flatMap_cons, h.events, hrest.events, ← List.map_append, ← List.filter_append,
      Descending.span_append hrest.le h.le]
  le := hrest.le.trans h.le
  last := by
    obtain ⟨b, hlast, hb⟩ := hrest.last
    exact ⟨b, by rw [List.getLast?_cons, hlast]; rfl, hb⟩
  right := List.forall_mem_cons.mpr ⟨h.right, hrest.right⟩
  busy := List.forall_mem_cons.mpr ⟨h.busy, hrest.busy⟩

/-- The next query is made below what the lane had when the last one ended. -/
theorem Outcome.next_le {top lo : Nat} {a : Answer} (h : Outcome lane q names top lo a) :
    lo ≤ (lane.moments (a.moment + 1)).total + 1 := by
  have hle := h.le
  have htop := h.top_le
  have hcount := lane.count_le a.moment
  omega

theorem walk_from {k before : Nat} {answers : List Answer} (h : Walk lane q names k before answers)
    (hpos : 1 ≤ before) (hbefore : before ≤ (lane.moments k).total + 1) :
    ∃ lo, Followed lane q names before lo answers := by
  induction h with
  | @last k before hnone =>
      obtain ⟨lo, houtcome, -⟩ := run_spec q names hpos hbefore
      refine ⟨lo, houtcome.followed ?_⟩
      rw [houtcome.exhausted_eq, hnone]
      rfl
  | @more k before next answers hsome rest ih =>
      obtain ⟨mid, houtcome, -⟩ := run_spec q names hpos hbefore
      have hgoes : (q.run names lane.moments k before).exhausted = false := by
        rw [houtcome.exhausted_eq, hsome]
        rfl
      obtain rfl : next = mid := Option.some.inj (hsome.symm.trans (houtcome.goesOn hgoes).1)
      obtain ⟨lo, hfollowed⟩ := ih houtcome.lo_pos houtcome.next_le
      exact ⟨lo, hfollowed.cons houtcome⟩

/-- A walk from zero sees all numbers from some number on, above what the lane had. -/
theorem walk_zero {k : Nat} {answers : List Answer} (h : Walk lane q names k 0 answers) :
    ∃ top lo, (lane.moments k).total < top ∧ Followed lane q names top lo answers := by
  obtain ⟨top, mid, htop, houtcome, -⟩ := run_zero lane q names k
  cases h with
  | last hnone =>
      refine ⟨top, mid, htop, houtcome.followed ?_⟩
      rw [houtcome.exhausted_eq, hnone]
      rfl
  | @more _ _ next answers hsome rest =>
      have hgoes : (q.run names lane.moments k 0).exhausted = false := by
        rw [houtcome.exhausted_eq, hsome]
        rfl
      obtain rfl : next = mid := Option.some.inj (hsome.symm.trans (houtcome.goesOn hgoes).1)
      obtain ⟨lo, hfollowed⟩ := walk_from rest houtcome.lo_pos houtcome.next_le
      exact ⟨top, lo, htop, hfollowed.cons houtcome⟩

variable (q names) in
/-- A walk ends. -/
theorem exists_walk_from (k before : Nat) (hpos : 1 ≤ before)
    (hbefore : before ≤ (lane.moments k).total + 1) :
    ∃ answers, Walk lane q names k before answers := by
  induction before using Nat.strong_induction_on generalizing k with
  | _ before ih =>
      obtain ⟨lo, houtcome, -⟩ := run_spec q names hpos hbefore
      cases hexhausted : (q.run names lane.moments k before).exhausted with
      | true => exact ⟨_, .last (houtcome.stops hexhausted).1⟩
      | false =>
          obtain ⟨hnext, hlt⟩ := houtcome.goesOn hexhausted
          obtain ⟨answers, hwalk⟩ := ih lo hlt _ houtcome.lo_pos houtcome.next_le
          exact ⟨_, .more hnext hwalk⟩

variable (lane q names) in
theorem exists_walk (k : Nat) : ∃ answers, Walk lane q names k 0 answers := by
  obtain ⟨top, lo, -, houtcome, -⟩ := run_zero lane q names k
  cases hexhausted : (q.run names lane.moments k 0).exhausted with
  | true => exact ⟨_, .last (houtcome.stops hexhausted).1⟩
  | false =>
      have hnext := (houtcome.goesOn hexhausted).1
      obtain ⟨answers, hwalk⟩ :=
        exists_walk_from q names _ lo houtcome.lo_pos houtcome.next_le
      exact ⟨_, .more hnext hwalk⟩

/-- What has been followed is right if the last answer may stop. -/
theorem Followed.right_iff {top lo : Nat} {answers : List Answer}
    (h : Followed lane q names top lo answers) (htop : (lane.moments 0).total < top) :
    ReturnsMatches lane q names answers ↔ ∀ a ∈ answers, Undisturbed lane a := by
  constructor
  · intro hright a ha hbusy
    obtain ⟨hexhausted, hfloor⟩ := h.busy a ha hbusy
    have hnothing := hright.exhausted a ha hexhausted
    rw [NothingOlder, hfloor] at hnothing
    exact hnothing
  · intro hundisturbed
    have hnothing : ∀ a ∈ answers, a.exhausted → NothingOlder lane a := by
      intro a ha hexhausted
      cases hbusy : (lane.moments a.moment).busy with
      | false => exact h.right a ha hexhausted hbusy
      | true =>
          rw [NothingOlder, (h.busy a ha hbusy).2]
          exact hundisturbed a ha hbusy
    refine ⟨⟨(span lo top).filter (q.takes lane names), Descending.pairwise_span.filter _,
      fun n hn => (List.mem_filter.mp hn).2, h.events, fun n hretained hle htakes => ?_⟩, hnothing⟩
    obtain ⟨a, hlast, hexhausted, hfloor⟩ := h.last
    obtain ⟨hne, hlow⟩ := hnothing a (List.mem_of_getLast? hlast) hexhausted n (hretained a hlast)
    rw [hfloor hne] at hlow
    exact List.mem_filter.mpr ⟨Descending.mem_span.mpr ⟨hlow, by omega⟩, htakes⟩

/-- A hit of an instruction hook on the thread 7. -/
def threadHit : HookLogRecord := { HookLogRecord.empty with threadId := 7 }

/-- A lane with one record, which is busy or free all the time. -/
def threadLane (busy : Bool) : Lane where
  records := fun _ => threadHit
  moments := fun _ => ⟨1, 0, ringAt (fun _ => threadHit) 1, busy⟩
  count := fun _ => 1
  ring_eq := fun _ => rfl
  total_le := fun _ => Nat.le_refl 1
  count_le := fun _ => Nat.le_refl 1
  small := fun _ => by omega

/-- Nothing has a name. -/
def noNames : Names := ⟨fun _ => none, fun _ => none, 8⟩

/-- The arguments of a query for the events of the thread 7, one at a time. -/
def threadArgs : Args
  | "index" => some (.string "thread")
  | "key" => some (.string "7")
  | "limit" => some (.string "1")
  | _ => none

/-- Their query. -/
def threadQuery : Query :=
  ⟨.thread, "7", some 7, none, .hook, [], false, [], 1, by decide, by decide⟩

/-- The walk of a client ends.  It returns all matching events that stay retained, once and in
order, and stops rightly, unless a page is asked from a busy lane that retains older events. -/
theorem query_walk (lane : Lane) (q : Query) (names : Names) :
    (∃ answers, Walk lane q names 0 0 answers) ∧
    ∀ answers, Walk lane q names 0 0 answers →
      (ReturnsMatches lane q names answers ↔ ∀ a ∈ answers, Undisturbed lane a) := by
  refine ⟨exists_walk lane q names 0, fun answers hwalk => ?_⟩
  obtain ⟨top, lo, htop, hfollowed⟩ := walk_zero hwalk
  exact hfollowed.right_iff htop

/-- A free lane. -/
theorem query_walk_thread : ∃ answers, Walk (threadLane false) threadQuery noNames 0 0 answers ∧
    ReturnsMatches (threadLane false) threadQuery noNames answers := by
  obtain ⟨⟨answers, hwalk⟩, hright⟩ := query_walk (threadLane false) threadQuery noNames
  exact ⟨answers, hwalk, (hright answers hwalk).mpr fun a _ hbusy => nomatch hbusy⟩

/-- The walk of a client that finds the lane busy ends at once, and it has not got the event that
matches. -/
theorem busy_walk : parseQuery threadArgs = .ok (threadQuery, 0) ∧
    Retained ((threadLane true).count 0) 1 ∧ threadQuery.takes (threadLane true) noNames 1 = true ∧
    ∃ a, Walk (threadLane true) threadQuery noNames 0 0 [a] ∧ a.events = [] ∧ a.exhausted = true ∧
      ¬ReturnsMatches (threadLane true) threadQuery noNames [a] := by
  obtain ⟨houtcome, -, hasked⟩ :=
    loop_busy (k := 0) 0 none rfl (seen_start (threadLane true) threadQuery noNames 1)
      (Nat.le_refl 1) (Nat.le_succ 1) fun h => absurd rfl h
  have hretained : Retained ((threadLane true).count 0) 1 :=
    ⟨Nat.le_refl 1, Nat.le_refl 1, by decide⟩
  obtain ⟨hexhausted, hfloor⟩ := houtcome.busy rfl
  refine ⟨by decide +kernel, hretained, by decide +kernel, _,
    .last (houtcome.stops hexhausted).1, houtcome.events, hexhausted, fun hright => ?_⟩
  have hnothing := hright.exhausted _ (List.mem_singleton.mpr rfl) hexhausted 1 hretained
  exact hnothing.1 (hfloor.trans hasked)

end PinBridge.EventIndex
