import Mathlib.Algebra.BigOperators.Group.List.Basic
import Mathlib.Algebra.Ring.Nat
import PinBridge.Lib.Intervals
import PinBridge.Lib.PartialMemory
import PinBridge.Policies.Plugins

/-!
# Code fetch

Plugins give bytes for ranges of the code.  The segments of all running plugins are one
snapshot, sorted by their start.  `on_fetch` copies the bytes that Pin asks for, those of the
segment at the cursor or, up to the next segment, those that Pin itself reads
(`pb_pin_fetch_original_code`).

`overlay` says what is at an address: the byte of the segment that covers it, else the original
byte.  `publish` accepts only segments that do not overlap, so no two cover an address, and the
search of `on_fetch` finds the one that does (`containingOrNext_locates`).

Addresses in the loop of `on_fetch` are natural numbers, with the check of `checked_add`.  The
host has 64-bit sizes.  The reader count and the freeing of old snapshots are left out.
-/

namespace PinBridge.CodeFetch

open Policies Intervals
open PartialMemory (read)

/-! ## Segments -/

/-- `MAX_SEGMENTS`. -/
def maxSegments : Nat := 64

/-- `MAX_TOTAL_BYTES`. -/
def maxTotalBytes : Nat := 1024 * 1024

/-- `Segment`. -/
structure Segment where
  start : UInt64
  bytes : List UInt8
  deriving DecidableEq, Repr

/-- `Spec`. -/
structure Spec where
  segments : List Segment

/-- `NativeSegment`.  It has bytes and does not wrap. -/
structure NativeSegment extends Segment where
  stop : UInt64
  stop_eq : stop.toNat = start.toNat + bytes.length
  bytes_ne : bytes ≠ []

/-! ## Fetching -/

/-- What Pin's functions return. -/
structure Native where
  /-- The status of `pb_pin_fetch_original_code`, the count and the bytes that it copies. -/
  fetchOriginalCode : Nat → Nat → PbStatus × UInt64 × List UInt8
  /-- `pb_pin_lock_client`. -/
  lockClient : PbStatus
  /-- `pb_pin_add_fetch_function`. -/
  addFetchFunction : PbStatus
  /-- `pb_pin_unlock_client`. -/
  unlockClient : PbStatus
  /-- `pb_pin_remove_instrumentation_in_range`. -/
  removeInRange : UInt64 → UInt64 → PbStatus

/-- The comparison of `containing_or_next`. -/
def placeOf (address : Nat) (segment : NativeSegment) : Ordering :=
  if segment.stop.toNat ≤ address then .lt
  else if address < segment.start.toNat then .gt
  else .eq

/-- `containing_or_next`. -/
def containingOrNext (segments : List NativeSegment) (address : Nat) : Except Nat Nat :=
  searchBy (placeOf address) segments

/-- `fetch_original`, the bytes that it copies. -/
def fetchOriginal (native : Native) (address size : Nat) : List UInt8 :=
  let (status, copied, bytes) := native.fetchOriginalCode address size
  if status = pbOk then bytes.take (min copied.toNat size) else []

/-- The loop of `on_fetch`, with the bytes copied so far.  `none` when the fuel runs out, or for
an index out of bounds. -/
def fetchLoop (native : Native) (segments : List NativeSegment) (address requested : Nat) :
    Nat → List UInt8 → Option (List UInt8)
  | 0, _ => none
  | fuel + 1, copied =>
      if requested ≤ copied.length then some copied
      else
        let cursor := address + copied.length
        if 2 ^ 64 ≤ cursor then some copied
        else
          match containingOrNext segments cursor with
          | .ok index =>
              segments[index]?.bind fun segment =>
                let offset := cursor - segment.start.toNat
                let available := segment.bytes.length - offset
                let amount := min available (requested - copied.length)
                fetchLoop native segments address requested fuel
                  (copied ++ (segment.bytes.drop offset).take amount)
          | .error next =>
              let remaining := requested - copied.length
              let gap :=
                match segments[next]? with
                | some segment => min (segment.start.toNat - cursor) remaining
                | none => remaining
              let bytes := fetchOriginal native cursor gap
              if bytes.length < gap then some (copied ++ bytes)
              else fetchLoop native segments address requested fuel (copied ++ bytes)

/-- `on_fetch` with a buffer, the bytes that it copies.  There is no snapshot at the start. -/
def onFetch (native : Native) (snapshot : Option (List NativeSegment)) (address size : UInt64)
    (fuel : Nat) : Option (List UInt8) :=
  if size = 0 then some []
  else
    match snapshot with
    | none => some (fetchOriginal native address.toNat size.toNat)
    | some segments => fetchLoop native segments address.toNat size.toNat fuel []

/-! ## Publishing -/

/-- The snapshot, whether `on_fetch` is registered, and the generation. -/
structure State where
  snapshot : Option (List NativeSegment)
  registered : Bool
  generation : UInt64

/-- The end of a segment, when it has bytes and does not wrap. -/
def Segment.native? (segment : Segment) : Except PbStatus NativeSegment :=
  if hend : segment.start.toNat + segment.bytes.length < 2 ^ 64 then
    if hbytes : segment.bytes = [] then .error pbErrInvalidArgument
    else
      .ok {
        segment with
        stop := .ofNat (segment.start.toNat + segment.bytes.length)
        stop_eq := UInt64.toNat_ofNat_of_lt hend
        bytes_ne := hbytes }
  else .error pbErrInvalidArgument

/-- The native segments of some segments, one after the other. -/
def nativeSegments : List Segment → Except PbStatus (List NativeSegment)
  | [] => .ok []
  | segment :: segments =>
      segment.native?.bind fun segment =>
        (nativeSegments segments).map (segment :: ·)

/-- The check of `windows(2)`. -/
def overlapping (segments : List NativeSegment) : Bool :=
  (segments.zip segments.tail).any fun pair => pair.2.start < pair.1.stop

/-- The segments of the running plugins, when they are accepted.  Segments of one start overlap,
so the order that the unstable sort leaves them in does not matter. -/
def collectSegments (plugins : List (Plugin Spec)) : Except PbStatus (List NativeSegment) :=
  let specs := runningSpecs plugins
  let segmentCount := (specs.map (·.segments.length)).sum
  let totalBytes := ((specs.flatMap (·.segments)).map (·.bytes.length)).sum
  if maxSegments < segmentCount ∨ maxTotalBytes < totalBytes then .error pbErrInvalidArgument
  else
    (nativeSegments (specs.flatMap (·.segments))).bind fun segments =>
      let segments := segments.mergeSort fun a b => a.start ≤ b.start
      if overlapping segments then .error pbErrInvalidArgument else .ok segments

/-- `ensure_registered`. -/
def ensureRegistered (native : Native) (s : State) : PbStatus × State :=
  if s.registered then (pbOk, s)
  else if native.lockClient ≠ pbOk then (native.lockClient, s)
  else
    let status := native.addFetchFunction
    let s := if status = pbOk then { s with registered := true } else s
    if status = pbOk ∧ native.unlockClient ≠ pbOk then (native.unlockClient, s) else (status, s)

/-- `ranges`. -/
def ranges (segments : List NativeSegment) : List (UInt64 × UInt64) :=
  segments.map fun segment => (segment.start, segment.stop)

/-- `replace_native` and the removal of the instrumentation. -/
def replace (native : Native) (s : State) (segments : List NativeSegment) :
    Except PbStatus UInt64 × State :=
  let flushRanges := sortRanges ((s.snapshot.elim [] ranges) ++ ranges segments)
  let s := { s with snapshot := some segments, generation := s.generation + 1 }
  let status := removeRanges native.removeInRange flushRanges
  if status ≠ pbOk then (.error status, s) else (.ok s.generation, s)

/-- `publish`. -/
def publish (native : Native) (s : State) (plugins : List (Plugin Spec)) :
    Except PbStatus UInt64 × State :=
  match collectSegments plugins with
  | .error status => (.error status, s)
  | .ok segments =>
      if segments = [] then replace native s segments
      else
        let (status, s) := ensureRegistered native s
        if status ≠ pbOk then (.error status, s) else replace native s segments

/-! ## The overlay -/

/-- The segment has a byte for the address. -/
def Segment.Covers (segment : Segment) (address : Nat) : Prop :=
  segment.start.toNat ≤ address ∧ address < segment.start.toNat + segment.bytes.length

instance (segment : Segment) (address : Nat) : Decidable (segment.Covers address) :=
  inferInstanceAs (Decidable (_ ∧ _))

/-- The byte at an address: that of the segment that covers it, else the original one. -/
def overlay (segments : List Segment) (memory : Nat → Option UInt8) (address : Nat) :
    Option UInt8 :=
  match segments.find? (·.Covers address) with
  | some segment => segment.bytes[address - segment.start.toNat]?
  | none => memory address

/-- The original memory, which ends with the addresses. -/
def original (memory : UInt64 → Option UInt8) (address : Nat) : Option UInt8 :=
  if address < 2 ^ 64 then memory (.ofNat address) else none

/-- Pin copies the longest prefix that can be read. -/
def Native.Reads (native : Native) (memory : UInt64 → Option UInt8) : Prop :=
  ∀ address size, size < 2 ^ 64 → ∃ copied,
    native.fetchOriginalCode address size = (pbOk, copied, read (original memory) address size) ∧
    copied.toNat = (read (original memory) address size).length

/-- Two segments have a byte for one address. -/
abbrev Segment.Overlap : Segment → Segment → Prop :=
  Intervals.Overlap (fun segment => segment.start.toNat) fun segment =>
    segment.start.toNat + segment.bytes.length

/-- A segment has bytes, and its end is an address. -/
structure Segment.Fits (segment : Segment) : Prop where
  bytes_ne : segment.bytes ≠ []
  stop_lt : segment.start.toNat + segment.bytes.length < 2 ^ 64

/-- What is accepted. -/
structure Acceptable (segments : List Segment) : Prop where
  count : segments.length ≤ maxSegments
  total : (segments.map (·.bytes.length)).sum ≤ maxTotalBytes
  fits : ∀ segment ∈ segments, segment.Fits
  apart : segments.Pairwise fun a b => ¬a.Overlap b

/-- What the running plugins have set. -/
def liveSegments (plugins : List (Plugin Spec)) : List Segment :=
  (liveSpecs plugins).flatMap (·.segments)

variable {segments : List Segment} {a b : Segment} {address : Nat}
  {memory : Nat → Option UInt8}

theorem Segment.Covers.overlap (ha : a.Covers address) (hb : b.Covers address) : a.Overlap b :=
  .of_common (Nat.lt_succ_self address) ha.1 ha.2 hb.1 hb.2

theorem overlay_of_covers (hapart : segments.Pairwise fun a b => ¬a.Overlap b)
    (ha : a ∈ segments) (hcovers : a.Covers address) :
    overlay segments memory address = a.bytes[address - a.start.toNat]? := by
  rw [overlay]
  split
  next b hfind =>
    have hb := List.mem_of_find?_eq_some hfind
    have hcovers' : b.Covers address := by simpa using List.find?_some hfind
    have heq : a = b := by
      by_contra hne
      have hsymm : Std.Symm fun a b : Segment => ¬a.Overlap b := ⟨fun _ _ hab hba => hab hba.symm⟩
      exact hapart.forall ha hb hne (hcovers.overlap hcovers')
    rw [heq]
  next hfind => exact absurd hcovers (by simpa using List.find?_eq_none.mp hfind a ha)

theorem overlay_of_not_covers (h : ∀ a ∈ segments, ¬a.Covers address) :
    overlay segments memory address = memory address := by
  rw [overlay, List.find?_eq_none.mpr (by simpa using h)]

/-- The order of the segments does not matter. -/
theorem overlay_perm {segments' : List Segment} (hperm : segments.Perm segments')
    (hapart : segments.Pairwise fun a b => ¬a.Overlap b) :
    overlay segments memory = overlay segments' memory := by
  funext address
  by_cases h : ∃ a ∈ segments, a.Covers address
  · obtain ⟨a, ha, hcovers⟩ := h
    have hapart' := hapart.perm hperm fun hab hba => hab hba.symm
    rw [overlay_of_covers hapart ha hcovers,
      overlay_of_covers hapart' (hperm.mem_iff.mp ha) hcovers]
  · have hnot : ∀ a ∈ segments, ¬a.Covers address := fun a ha hcovers => h ⟨a, ha, hcovers⟩
    rw [overlay_of_not_covers hnot,
      overlay_of_not_covers fun a ha => hnot a (hperm.mem_iff.mpr ha)]

/-! ## One piece of a fetch -/

/-- The segments of a snapshot are sorted and apart. -/
abbrev Sorted (segments : List NativeSegment) : Prop :=
  segments.Pairwise (Separated (fun segment => segment.start.toNat) fun segment =>
    segment.stop.toNat)

/-- What a snapshot puts over the memory. -/
abbrev served (segments : List NativeSegment) (memory : Nat → Option UInt8) : Nat → Option UInt8 :=
  overlay (segments.map (·.toSegment)) memory

theorem NativeSegment.start_lt_stop (segment : NativeSegment) :
    segment.start.toNat < segment.stop.toNat := by
  rw [segment.stop_eq]
  exact Nat.lt_add_of_pos_right (List.length_pos_of_ne_nil segment.bytes_ne)

theorem NativeSegment.covers_iff (segment : NativeSegment) :
    segment.toSegment.Covers address ↔
      segment.start.toNat ≤ address ∧ address < segment.stop.toNat := by
  rw [Segment.Covers, segment.stop_eq]

theorem NativeSegment.overlap_iff (a b : NativeSegment) :
    a.toSegment.Overlap b.toSegment ↔ Intervals.Overlap
      (fun segment : NativeSegment => segment.start.toNat) (fun segment => segment.stop.toNat)
      a b := by
  simp only [Intervals.Overlap, a.stop_eq, b.stop_eq]

variable {snapshot : List NativeSegment} {segment : NativeSegment} {cursor next index : Nat}

theorem Sorted.apart (h : Sorted snapshot) :
    (snapshot.map (·.toSegment)).Pairwise fun a b => ¬a.Overlap b := by
  rw [List.pairwise_map]
  exact h.imp fun {a b} hab => fun hoverlap : a.Overlap b.toSegment =>
    Nat.not_lt.mpr hab ((a.overlap_iff b).mp hoverlap).2

theorem NativeSegment.placeOf_lt_iff (segment : NativeSegment) :
    placeOf cursor segment = .lt ↔ segment.stop.toNat ≤ cursor := by
  rw [placeOf]
  split
  next h => exact iff_of_true rfl h
  next h =>
    refine iff_of_false (fun heq => ?_) h
    split at heq
    next => exact nomatch heq
    next => exact nomatch heq

theorem NativeSegment.placeOf_gt_iff (segment : NativeSegment) :
    placeOf cursor segment = .gt ↔ cursor < segment.start.toNat := by
  have hlt := segment.start_lt_stop
  rw [placeOf]
  split
  next h => exact iff_of_false (fun heq => nomatch heq) (by omega)
  next =>
    split
    next h => exact iff_of_true rfl h
    next h => exact iff_of_false (fun heq => nomatch heq) h

theorem NativeSegment.covers_of_placeOf (segment : NativeSegment)
    (h : placeOf cursor segment = .eq) : segment.toSegment.Covers cursor := by
  have hlow : ¬cursor < segment.start.toNat := fun hlt => by
    rw [segment.placeOf_gt_iff.mpr hlt] at h
    exact nomatch h
  have hhigh : ¬segment.stop.toNat ≤ cursor := fun hle => by
    rw [segment.placeOf_lt_iff.mpr hle] at h
    exact nomatch h
  exact segment.covers_iff.mpr ⟨Nat.not_lt.mp hlow, Nat.not_le.mp hhigh⟩

/-- The search finds the segment that covers the cursor, or the place of the cursor. -/
theorem containingOrNext_locates (h : Sorted snapshot) (cursor : Nat) :
    match containingOrNext snapshot cursor with
    | .ok index => ∃ segment, snapshot[index]? = some segment ∧ segment.toSegment.Covers cursor
    | .error next => (∀ segment ∈ snapshot.take next, segment.stop.toNat ≤ cursor) ∧
        ∀ segment ∈ snapshot.drop next, cursor < segment.start.toNat := by
  have hordered : Ordered (placeOf cursor) snapshot := by
    refine h.imp fun {a b} hab => ?_
    have hab : a.stop.toNat ≤ b.start.toNat := hab
    have ha := a.start_lt_stop
    have hb := b.start_lt_stop
    rw [a.placeOf_lt_iff, b.placeOf_lt_iff, a.placeOf_gt_iff, b.placeOf_gt_iff]
    omega
  have hsearch := searchBy_locates hordered
  rw [containingOrNext]
  cases hresult : searchBy (placeOf cursor) snapshot with
  | ok index =>
      rw [hresult] at hsearch
      obtain ⟨segment, hsegment, hplace⟩ := hsearch
      exact ⟨segment, hsegment, segment.covers_of_placeOf hplace⟩
  | error next =>
      rw [hresult] at hsearch
      exact ⟨fun segment hsegment => segment.placeOf_lt_iff.mp (hsearch.1 segment hsegment),
        fun segment hsegment => segment.placeOf_gt_iff.mp (hsearch.2 segment hsegment)⟩

/-- The bytes of the segment at the cursor. -/
theorem read_segment (h : Sorted snapshot) (hmem : segment ∈ snapshot)
    (hcovers : segment.toSegment.Covers cursor) {amount : Nat}
    (hamount : amount ≤ segment.bytes.length - (cursor - segment.start.toNat)) :
    read (served snapshot memory) cursor amount =
      (segment.bytes.drop (cursor - segment.start.toNat)).take amount := by
  have hlength : ((segment.bytes.drop (cursor - segment.start.toNat)).take amount).length =
      amount := by
    rw [List.length_take, List.length_drop]
    omega
  have hbytes : ∀ i < ((segment.bytes.drop (cursor - segment.start.toNat)).take amount).length,
      served snapshot memory (cursor + i) =
        ((segment.bytes.drop (cursor - segment.start.toNat)).take amount)[i]? := by
    intro i hi
    rw [hlength] at hi
    have hlow := hcovers.1
    have hcovers' : segment.toSegment.Covers (cursor + i) := ⟨by omega, by omega⟩
    have hoffset : cursor + i - segment.start.toNat = cursor - segment.start.toNat + i := by omega
    rw [List.getElem?_take_of_lt hi, List.getElem?_drop, ← hoffset]
    exact overlay_of_covers h.apart (List.mem_map_of_mem hmem) hcovers'
  have hread := PartialMemory.read_of_getElem? hbytes
  rwa [hlength] at hread

/-- Up to the next segment, there are the original bytes. -/
theorem read_gap
    (hbefore : ∀ segment ∈ snapshot.take next, segment.stop.toNat ≤ cursor)
    {gap : Nat} (hafter : ∀ segment ∈ snapshot.drop next, cursor + gap ≤ segment.start.toNat) :
    read (served snapshot memory) cursor gap = read memory cursor gap := by
  refine PartialMemory.read_congr fun i hi => overlay_of_not_covers fun a ha hcovers => ?_
  obtain ⟨segment, hsegment, rfl⟩ := List.mem_map.mp ha
  rw [segment.covers_iff] at hcovers
  rw [← List.take_append_drop next snapshot, List.mem_append] at hsegment
  obtain hsegment | hsegment := hsegment
  · have := hbefore segment hsegment
    omega
  · have := hafter segment hsegment
    omega

/-- Nothing is served behind the last address. -/
theorem served_of_ge {memory : UInt64 → Option UInt8} (h : 2 ^ 64 ≤ cursor) :
    served snapshot (original memory) cursor = none := by
  rw [served, overlay_of_not_covers, original, if_neg (Nat.not_lt.mpr h)]
  intro a ha hcovers
  obtain ⟨segment, -, rfl⟩ := List.mem_map.mp ha
  have hstop := segment.stop.toNat_lt
  rw [segment.covers_iff] at hcovers
  omega

theorem Native.Reads.fetchOriginal {native : Native} {memory : UInt64 → Option UInt8}
    (h : native.Reads memory) {address size : Nat} (hsize : size < 2 ^ 64) :
    fetchOriginal native address size = read (original memory) address size := by
  obtain ⟨copied, hcall, hcopied⟩ := h address size hsize
  have hle := PartialMemory.length_read_le (original memory) address size
  rw [CodeFetch.fetchOriginal, hcall]
  dsimp only
  rw [if_pos rfl, hcopied, Nat.min_eq_left hle, List.take_length]

/-! ## The loop -/

variable {native : Native} {memory : UInt64 → Option UInt8} {requested fuel : Nat}

/-- The gap before the next segment is not empty, and no segment starts in it. -/
theorem gap_spec (h : Sorted snapshot)
    (hafter : ∀ segment ∈ snapshot.drop next, cursor < segment.start.toNat) {remaining : Nat}
    (hremaining : 0 < remaining) :
    let gap := match snapshot[next]? with
      | some segment => min (segment.start.toNat - cursor) remaining
      | none => remaining
    0 < gap ∧ gap ≤ remaining ∧
      ∀ segment ∈ snapshot.drop next, cursor + gap ≤ segment.start.toNat := by
  intro gap
  cases hnext : snapshot[next]? with
  | none =>
      have hgap : gap = remaining := by simp only [gap, hnext]
      have hdrop : snapshot.drop next = [] :=
        List.drop_eq_nil_of_le (List.getElem?_eq_none_iff.mp hnext)
      rw [hgap, hdrop]
      exact ⟨hremaining, Nat.le_refl _, fun _ hmem => absurd hmem List.not_mem_nil⟩
  | some first =>
      have hgap : gap = min (first.start.toNat - cursor) remaining := by simp only [gap, hnext]
      have hdrop : snapshot.drop next = first :: snapshot.drop (next + 1) := by
        obtain ⟨hlt, rfl⟩ := List.getElem?_eq_some_iff.mp hnext
        exact List.drop_eq_getElem_cons hlt
      have hfirst := hafter first (hdrop ▸ List.mem_cons_self)
      rw [hgap]
      refine ⟨by omega, Nat.min_le_right _ _, fun segment hsegment => ?_⟩
      rw [hdrop] at hsegment
      obtain rfl | hsegment := List.mem_cons.mp hsegment
      · omega
      · have hsorted := h.sublist (List.drop_sublist next snapshot)
        rw [hdrop] at hsorted
        have hlater : first.stop.toNat ≤ segment.start.toNat :=
          (List.pairwise_cons.mp hsorted).1 segment hsegment
        have hlt := first.start_lt_stop
        omega

/-- From a full prefix, the loop ends with the longest prefix that is served. -/
theorem fetchLoop_eq (hreads : native.Reads memory) (h : Sorted snapshot)
    (hrequested : requested < 2 ^ 64) {copied : List UInt8}
    (hcopied : read (served snapshot (original memory)) address copied.length = copied)
    (hle : copied.length ≤ requested) (hfuel : requested - copied.length < fuel) :
    fetchLoop native snapshot address requested fuel copied =
      some (read (served snapshot (original memory)) address requested) := by
  induction fuel generalizing copied with
  | zero => exact absurd hfuel (Nat.not_lt_zero _)
  | succ fuel ih =>
      have hrest : ∀ count, read (served snapshot (original memory)) address
          (copied.length + count) = copied ++
            read (served snapshot (original memory)) (address + copied.length) count := by
        intro count
        rw [PartialMemory.read_add (by rw [hcopied]), hcopied]
      -- A full piece of at least one byte leaves the loop with a longer full prefix.
      have hstep : ∀ {bytes : List UInt8} {amount : Nat}, 0 < amount →
          copied.length + amount ≤ requested → bytes.length = amount →
          read (served snapshot (original memory)) (address + copied.length) amount = bytes →
          fetchLoop native snapshot address requested fuel (copied ++ bytes) =
            some (read (served snapshot (original memory)) address requested) := by
        rintro bytes amount hpos hfits rfl hbytes
        have hlength : (copied ++ bytes).length = copied.length + bytes.length :=
          List.length_append
        refine ih ?_ (by omega) (by omega)
        rw [hlength, hrest, hbytes]
      rw [fetchLoop]
      split
      next hdone =>
        rw [← Nat.le_antisymm hle hdone, hcopied]
      next hmore =>
      obtain ⟨remaining, rfl⟩ := Nat.exists_eq_add_of_le hle
      have hremaining : copied.length + remaining - copied.length = remaining :=
        Nat.add_sub_cancel_left _ _
      dsimp only
      rw [hremaining] at hfuel ⊢
      split
      next hwrap =>
        rw [hrest, PartialMemory.read_of_none (served_of_ge hwrap), List.append_nil]
      next hplace =>
      have hlocates := containingOrNext_locates h (address + copied.length)
      split
      next index hindex =>
        rw [hindex] at hlocates
        obtain ⟨segment, hsegment, hcovers⟩ := hlocates
        have hlow := hcovers.1
        have hhigh := hcovers.2
        rw [hsegment, Option.bind_some]
        refine hstep (by omega) (by omega) ?_
          (read_segment h (List.mem_of_getElem? hsegment) hcovers (Nat.min_le_left _ _))
        rw [List.length_take, List.length_drop]
        omega
      next next hnext =>
        rw [hnext] at hlocates
        obtain ⟨hbefore, hafter⟩ := hlocates
        obtain ⟨hpos, hgap, hclear⟩ := gap_spec h hafter (show 0 < remaining by omega)
        generalize (match snapshot[next]? with
          | some segment => min (segment.start.toNat - (address + copied.length)) remaining
          | none => remaining) = gap at hpos hgap hclear ⊢
        rw [hreads.fetchOriginal (by omega), ← read_gap hbefore hclear]
        split
        next hshort =>
          obtain ⟨more, rfl⟩ := Nat.exists_eq_add_of_le hgap
          rw [hrest, PartialMemory.read_add_of_short hshort]
        next hfull =>
          have hlength := PartialMemory.length_read_le (served snapshot (original memory))
            (address + copied.length) gap
          exact hstep hpos (by omega) (by omega) rfl

/-! ## The snapshot -/

theorem Segment.native?_eq (segment : Segment) :
    (segment.Fits ∧ ∃ native, segment.native? = .ok native ∧ native.toSegment = segment) ∨
    (¬segment.Fits ∧ segment.native? = .error pbErrInvalidArgument) := by
  rw [Segment.native?]
  split
  next hend =>
    split
    next hbytes => exact .inr ⟨fun h => h.bytes_ne hbytes, rfl⟩
    next hbytes => exact .inl ⟨⟨hbytes, hend⟩, _, rfl, rfl⟩
  next hend => exact .inr ⟨fun h => hend h.stop_lt, rfl⟩

theorem nativeSegments_eq (segments : List Segment) :
    ((∀ segment ∈ segments, segment.Fits) ∧
      ∃ natives, nativeSegments segments = .ok natives ∧
        natives.map (·.toSegment) = segments) ∨
    ((¬∀ segment ∈ segments, segment.Fits) ∧
      nativeSegments segments = .error pbErrInvalidArgument) := by
  induction segments with
  | nil => exact .inl ⟨fun _ h => absurd h List.not_mem_nil, [], rfl, rfl⟩
  | cons segment segments ih =>
      rw [nativeSegments, List.forall_mem_cons]
      obtain ⟨hfits, native, hnative, rfl⟩ | ⟨hfits, herror⟩ := segment.native?_eq
      · rw [hnative]
        obtain ⟨hall, natives, hnatives, rfl⟩ | ⟨hall, herror⟩ := ih
        · rw [hnatives]
          exact .inl ⟨⟨hfits, hall⟩, native :: natives, rfl, rfl⟩
        · rw [herror]
          exact .inr ⟨fun h => hall h.2, rfl⟩
      · rw [herror]
        exact .inr ⟨fun h => hfits h.1, rfl⟩

/-- The check of neighbours. -/
theorem overlapping_eq_false (segments : List NativeSegment) :
    overlapping segments = false ↔ segments.IsChain
      (Separated (fun segment => segment.start.toNat) fun segment => segment.stop.toNat) := by
  induction segments with
  | nil => exact iff_of_true rfl .nil
  | cons a segments ih =>
      cases segments with
      | nil => exact iff_of_true rfl (.singleton a)
      | cons b segments =>
          have hsplit : overlapping (a :: b :: segments) =
              (decide (b.start < a.stop) || overlapping (b :: segments)) := rfl
          rw [hsplit, Bool.or_eq_false_iff, ih, List.isChain_cons_cons, decide_eq_false_iff_not,
            UInt64.not_lt, UInt64.le_iff_toNat_le]

theorem sorted_of_not_overlapping {segments : List NativeSegment}
    (h : overlapping segments = false) : Sorted segments :=
  pairwise_of_isChain (fun segment _ => segment.start_lt_stop)
    ((overlapping_eq_false segments).mp h)

/-- Sorted by their start, neighbours do not overlap if and only if no two segments do. -/
theorem neighbours_iff (natives : List NativeSegment) :
    overlapping (natives.mergeSort fun a b => a.start ≤ b.start) = false ↔
      (natives.map (·.toSegment)).Pairwise fun a b => ¬a.Overlap b := by
  have hsort := natives.mergeSort_perm fun a b => a.start ≤ b.start
  constructor
  · intro h
    exact (sorted_of_not_overlapping h).apart.perm (hsort.map _) fun hab hba => hab hba.symm
  · intro h
    have hstart : (natives.mergeSort fun a b => a.start ≤ b.start).Pairwise fun a b =>
        a.start.toNat ≤ b.start.toNat := by
      have hpairwise : (natives.mergeSort fun a b => a.start ≤ b.start).Pairwise fun a b =>
          decide (a.start ≤ b.start) = true := by
        refine List.pairwise_mergeSort (fun a b c hab hbc => ?_) (fun a b => ?_) natives
        · rw [decide_eq_true_iff] at hab hbc ⊢
          exact UInt64.le_trans hab hbc
        · rw [Bool.or_eq_true, decide_eq_true_iff, decide_eq_true_iff]
          exact UInt64.le_total _ _
      exact hpairwise.imp fun hab => UInt64.le_iff_toNat_le.mp (of_decide_eq_true hab)
    have hne : ∀ segment ∈ natives.mergeSort fun a b => a.start ≤ b.start,
        segment.start.toNat < segment.stop.toNat := fun segment _ => segment.start_lt_stop
    rw [overlapping_eq_false, isChain_separated_iff hne hstart]
    have hapart := h.perm (hsort.symm.map _) fun hab hba => hab hba.symm
    rw [List.pairwise_map] at hapart
    exact hapart.imp fun {a b} hab => hab ∘ (a.overlap_iff b).mpr

theorem Acceptable.perm {segments segments' : List Segment} (hperm : segments.Perm segments')
    (h : Acceptable segments) : Acceptable segments' where
  count := hperm.length_eq ▸ h.count
  total := (hperm.map (·.bytes.length)).sum_eq ▸ h.total
  fits := fun segment hsegment => h.fits segment (hperm.mem_iff.mpr hsegment)
  apart := h.apart.perm hperm fun hab hba => hab hba.symm

/-- The segments of the snapshot are those of the running plugins, or none are accepted. -/
theorem collectSegments_eq (plugins : List (Plugin Spec)) :
    (Acceptable (liveSegments plugins) ∧ ∃ snapshot, collectSegments plugins = .ok snapshot ∧
      Sorted snapshot ∧ (snapshot.map (·.toSegment)).Perm (liveSegments plugins)) ∨
    (¬Acceptable (liveSegments plugins) ∧
      collectSegments plugins = .error pbErrInvalidArgument) := by
  have hperm : ((runningSpecs plugins).flatMap (·.segments)).Perm (liveSegments plugins) :=
    (runningSpecs_perm plugins).flatMap_right _
  have hiff : Acceptable (liveSegments plugins) ↔
      Acceptable ((runningSpecs plugins).flatMap (·.segments)) :=
    ⟨.perm hperm.symm, .perm hperm⟩
  have hlength : ((runningSpecs plugins).map (·.segments.length)).sum =
      ((runningSpecs plugins).flatMap (·.segments)).length := List.length_flatMap.symm
  rw [hiff, collectSegments]
  dsimp only
  rw [hlength]
  split
  next hmany =>
    refine .inr ⟨fun h => ?_, rfl⟩
    exact hmany.elim (Nat.not_lt.mpr h.count) (Nat.not_lt.mpr h.total)
  next hfew =>
  obtain ⟨hcount, htotal⟩ := not_or.mp hfew
  obtain ⟨hfits, natives, hnatives, hmap⟩ | ⟨hfits, herror⟩ :=
    nativeSegments_eq ((runningSpecs plugins).flatMap (·.segments))
  · rw [hnatives]
    rw [← hmap] at hcount htotal hperm hfits ⊢
    have hsort := natives.mergeSort_perm fun a b => a.start ≤ b.start
    have hsortMap := hsort.map (·.toSegment)
    have happart := neighbours_iff natives
    rw [Except.bind]
    split
    next hoverlap =>
      refine .inr ⟨fun h => ?_, rfl⟩
      rw [happart.mpr h.apart] at hoverlap
      exact Bool.false_ne_true hoverlap
    next hclear =>
      have hclear := Bool.eq_false_iff.mpr hclear
      have hsorted := sorted_of_not_overlapping hclear
      exact .inl ⟨⟨Nat.not_lt.mp hcount, Nat.not_lt.mp htotal, hfits, happart.mp hclear⟩, _, rfl,
        hsorted, hsortMap.trans hperm⟩
  · rw [herror]
    exact .inr ⟨fun h => hfits h.fits, rfl⟩

/-! ## Publication -/

/-- The first failure of a removal is its status. -/
theorem removeRanges_eq (remove : UInt64 → UInt64 → PbStatus) (list : List (UInt64 × UInt64)) :
    removeRanges remove list = pbOk ∨
      ∃ range ∈ list, removeRanges remove list = remove range.1 range.2 := by
  induction list with
  | nil => exact .inl rfl
  | cons range list ih =>
      rw [removeRanges]
      split
      next => exact .inr ⟨range, List.mem_cons_self, rfl⟩
      next =>
        exact ih.imp_right fun ⟨other, hother, heq⟩ => ⟨other, List.mem_cons_of_mem range hother, heq⟩

/-- The registration succeeds, or fails with a status of one of Pin's functions. -/
theorem ensureRegistered_eq (native : Native) (s : State) :
    (ensureRegistered native s).2.snapshot = s.snapshot ∧
      ((ensureRegistered native s).1 = pbOk ∨ (ensureRegistered native s).1 ∈
        [native.lockClient, native.addFetchFunction, native.unlockClient]) := by
  rw [ensureRegistered]
  split
  next => exact ⟨rfl, .inl rfl⟩
  next =>
  split
  next => exact ⟨rfl, .inr (by simp)⟩
  next =>
  have hsnapshot : (if native.addFetchFunction = pbOk then { s with registered := true }
      else s).snapshot = s.snapshot := by
    split
    next => rfl
    next => rfl
  dsimp only
  split
  next => exact ⟨hsnapshot, .inr (by simp)⟩
  next => exact ⟨hsnapshot, .inr (by simp)⟩

/-- Every fetch gets the longest prefix of its range that the segments and the memory have. -/
def State.Serves (s : State) (native : Native) (segments : List Segment)
    (memory : UInt64 → Option UInt8) : Prop :=
  ∀ (address size : UInt64) (fuel : Nat), size.toNat < fuel →
    onFetch native s.snapshot address size fuel =
      some (read (overlay segments (original memory)) address.toNat size.toNat)

theorem serves_of_sorted {s : State} (hreads : native.Reads memory) (hs : s.snapshot = some snapshot)
    (h : Sorted snapshot) (hperm : (snapshot.map (·.toSegment)).Perm segments) :
    s.Serves native segments memory := by
  intro address size fuel hfuel
  rw [← overlay_perm hperm h.apart, hs, onFetch.eq_def]
  split
  next hzero =>
    rw [hzero]
    rfl
  next => exact fetchLoop_eq hreads h size.toNat_lt rfl (Nat.zero_le _) (by simpa using hfuel)

theorem replace_eq (native : Native) (s : State) (snapshot : List NativeSegment) :
    (replace native s snapshot).2.snapshot = some snapshot ∧
      ((∃ generation, (replace native s snapshot).1 = .ok generation) ∨
        ∃ start stop, native.removeInRange start stop ≠ pbOk ∧
          (replace native s snapshot).1 = .error (native.removeInRange start stop)) := by
  rw [replace]
  dsimp only
  split
  next hfailed =>
    refine ⟨rfl, .inr ?_⟩
    obtain hok | ⟨range, -, heq⟩ := removeRanges_eq native.removeInRange
      (sortRanges (s.snapshot.elim [] ranges ++ ranges snapshot))
    · exact absurd hok hfailed
    · rw [heq] at hfailed ⊢
      exact ⟨range.1, range.2, hfailed, rfl⟩
  next => exact ⟨rfl, .inl ⟨_, rfl⟩⟩

/-- The segments of the running plugins are refused and nothing changes, or Pin fails to register
the callback and the snapshot is the old one, or every fetch is served from them. -/
theorem publish_overlay {native : Native} {memory : UInt64 → Option UInt8}
    (hreads : native.Reads memory) (s : State) (plugins : List (Plugin Spec)) :
    (¬Acceptable (liveSegments plugins) →
      publish native s plugins = (.error pbErrInvalidArgument, s)) ∧
    (Acceptable (liveSegments plugins) →
      ((publish native s plugins).2.Serves native (liveSegments plugins) memory ∧
        ((∃ generation, (publish native s plugins).1 = .ok generation) ∨
          ∃ start stop, native.removeInRange start stop ≠ pbOk ∧
            (publish native s plugins).1 = .error (native.removeInRange start stop))) ∨
      ((publish native s plugins).2.snapshot = s.snapshot ∧
        ∃ status ∈ [native.lockClient, native.addFetchFunction, native.unlockClient],
          status ≠ pbOk ∧ (publish native s plugins).1 = .error status)) := by
  obtain ⟨haccept, snapshot, hcollect, hsorted, hperm⟩ | ⟨hnot, herror⟩ := collectSegments_eq plugins
  · refine ⟨fun hnot => absurd haccept hnot, fun _ => ?_⟩
    rw [publish, hcollect]
    dsimp only
    split
    next =>
      obtain ⟨hsnapshot, hresult⟩ := replace_eq native s snapshot
      exact .inl ⟨serves_of_sorted hreads hsnapshot hsorted hperm, hresult⟩
    next =>
      obtain ⟨hkept, hstatus⟩ := ensureRegistered_eq native s
      split
      next hfailed =>
        exact .inr ⟨hkept, _, hstatus.resolve_left hfailed, hfailed, rfl⟩
      next =>
        obtain ⟨hsnapshot, hresult⟩ := replace_eq native (ensureRegistered native s).2 snapshot
        exact .inl ⟨serves_of_sorted hreads hsnapshot hsorted hperm, hresult⟩
  · refine ⟨fun _ => ?_, fun haccept => absurd haccept hnot⟩
    rw [publish, herror]

/-- Pin's functions when none fails. -/
def plainNative (memory : UInt64 → Option UInt8) : Native where
  fetchOriginalCode := fun address size =>
    (pbOk, .ofNat (read (original memory) address size).length,
      read (original memory) address size)
  lockClient := pbOk
  addFetchFunction := pbOk
  unlockClient := pbOk
  removeInRange _ _ := pbOk

theorem plainNative_reads (memory : UInt64 → Option UInt8) : (plainNative memory).Reads memory :=
  fun _ _ hsize => ⟨_, rfl, UInt64.toNat_ofNat_of_lt
    (Nat.lt_of_le_of_lt (PartialMemory.length_read_le _ _ _) hsize)⟩

/-- A plugin with one segment. -/
def patch (start : UInt64) : Plugin Spec := ⟨"patch", stateRunning, some ⟨[⟨start, [0x90, 0xC3]⟩]⟩⟩

theorem acceptable_patch : Acceptable (liveSegments [patch 0x1000]) where
  count := by decide
  total := by decide
  fits := by
    intro segment hsegment
    obtain rfl := List.mem_singleton.mp hsegment
    exact ⟨by decide, by decide⟩
  apart := List.pairwise_singleton _ _

theorem publish_overlay_patch :
    (publish (plainNative fun _ => none) ⟨none, false, 0⟩ [patch 0x1000]).2.Serves
      (plainNative fun _ => none) (liveSegments [patch 0x1000]) fun _ => none := by
  obtain ⟨hserves, -⟩ | ⟨-, status, hstatus, hne, -⟩ :=
    (publish_overlay (plainNative_reads fun _ => none) ⟨none, false, 0⟩ [patch 0x1000]).2
      acceptable_patch
  · exact hserves
  · simp [plainNative] at hstatus
    exact absurd hstatus hne

/-- Pin's functions when the removal of instrumentation fails. -/
def stuckNative : Native := { plainNative fun _ => none with removeInRange := fun _ _ => 4 }

theorem replace_stuck (s : State) (hs : s.snapshot = none) (segment : NativeSegment) :
    (replace stuckNative s [segment]).1 = .error 4 ∧
      (replace stuckNative s [segment]).2.snapshot = some [segment] := by
  have hranges : sortRanges (s.snapshot.elim [] ranges ++ ranges [segment]) =
      [(segment.start, segment.stop)] := by
    simp [hs, sortRanges, ranges]
  rw [replace, hranges]
  exact ⟨rfl, rfl⟩

/-- A failed removal of instrumentation leaves the new segments in force, and a segment that ends
with the last address is refused. -/
theorem publish_fails_otherwise :
    (∃ (native : Native) (s : State), Acceptable (liveSegments [patch 0x1000]) ∧
      (publish native s [patch 0x1000]).1 = .error 4 ∧
      (publish native s [patch 0x1000]).2.snapshot ≠ s.snapshot) ∧
    ((0xFFFFFFFFFFFFFFFE : UInt64).toNat + [0x90, 0xC3].length = 2 ^ 64 ∧
      ∀ (native : Native) (s : State),
        publish native s [patch 0xFFFFFFFFFFFFFFFE] = (.error pbErrInvalidArgument, s)) := by
  have hrunning : ∀ start, runningSpecs [patch start] = [⟨[⟨start, [0x90, 0xC3]⟩]⟩] := by
    intro start
    simp [runningSpecs, namedSpecs, patch]
  constructor
  · have hcollect : ∃ segment, collectSegments [patch 0x1000] = .ok [segment] := by
      rw [collectSegments, hrunning]
      simp [nativeSegments, Segment.native?, Except.bind, Except.map, overlapping, maxSegments,
        maxTotalBytes]
    obtain ⟨segment, hcollect⟩ := hcollect
    have hpublish : publish stuckNative ⟨none, true, 0⟩ [patch 0x1000] =
        replace stuckNative ⟨none, true, 0⟩ [segment] := by
      rw [publish, hcollect]
      rfl
    obtain ⟨herror, hsnapshot⟩ := replace_stuck ⟨none, true, 0⟩ rfl segment
    refine ⟨stuckNative, ⟨none, true, 0⟩, acceptable_patch, ?_, ?_⟩
    · rw [hpublish, herror]
    · rw [hpublish, hsnapshot]
      exact Option.some_ne_none _
  · refine ⟨by decide, fun native s => ?_⟩
    rw [publish, collectSegments, hrunning]
    rfl

end PinBridge.CodeFetch
