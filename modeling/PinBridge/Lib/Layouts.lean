import PinBridge.Lib.LittleEndian

/-!
# Layouts of byte strings with counted rows

A `Layout` says how a byte string is divided into fields, byte strings behind their lengths, and
rows behind their counts.  `Layout.walk` goes through a byte string as the layout says.  It collects
the counts it meets and the room that a reader reserves at each of them, and it ends with the bytes
behind the layout, with a refusal, or where a length does not fit the machine word of the reader,
which has `w` bits.

A byte string that is gone through to the end has had the room for all of its rows
(`Layout.fits_of_rest`), as a row takes at least `Layout.least` bytes.
-/

namespace Layouts

open LittleEndian (decode)

/-- Room that is reserved for rows. -/
structure Request where
  /-- How many rows there is to be room for. -/
  capacity : ℕ
  /-- The least number of bytes of a row. -/
  least : ℕ
  /-- The bytes that are left. -/
  left : ℕ
  deriving DecidableEq

/-- The bytes that are left can hold the rows. -/
def Request.Fits (request : Request) : Prop := request.capacity * request.least ≤ request.left

instance (request : Request) : Decidable request.Fits := Nat.decLe ..

/-- Where a walk ends. -/
inductive End where
  /-- Behind the layout. -/
  | rest (bytes : List UInt8)
  /-- Where a field is missing, or a count or a tag is not allowed. -/
  | refused
  /-- Where a length does not fit the machine word. -/
  | overflow
  deriving DecidableEq

/-- What is met on a walk. -/
structure Walk where
  counts : List ℕ
  requests : List Request
  last : End
  deriving DecidableEq

namespace Walk

/-- A walk that meets nothing. -/
def ending (last : End) : Walk := ⟨[], [], last⟩

/-- A walk after which another one begins. -/
def andThen (walk : Walk) (next : List UInt8 → Walk) : Walk :=
  match walk.last with
  | .rest bytes =>
      let walk' := next bytes
      ⟨walk.counts ++ walk'.counts, walk.requests ++ walk'.requests, walk'.last⟩
  | last => ⟨walk.counts, walk.requests, last⟩

section

variable {walk : Walk} {next : List UInt8 → Walk} {bytes : List UInt8}

theorem andThen_rest (h : walk.last = .rest bytes) :
    walk.andThen next = ⟨walk.counts ++ (next bytes).counts,
      walk.requests ++ (next bytes).requests, (next bytes).last⟩ := by
  rw [andThen, h]

theorem andThen_refused (h : walk.last = .refused) :
    walk.andThen next = ⟨walk.counts, walk.requests, .refused⟩ := by
  rw [andThen, h]

theorem andThen_overflow (h : walk.last = .overflow) :
    walk.andThen next = ⟨walk.counts, walk.requests, .overflow⟩ := by
  rw [andThen, h]

/-- A walk after which nothing is met. -/
theorem andThen_ending (walk : Walk) :
    (walk.andThen fun bytes => ending (.rest bytes)) = walk := by
  obtain ⟨counts, requests, last⟩ := walk
  cases last with
  | rest bytes =>
      show (⟨counts ++ [], requests ++ [], .rest bytes⟩ : Walk) = _
      rw [List.append_nil, List.append_nil]
  | refused => rfl
  | overflow => rfl

theorem andThen_assoc (walk : Walk) (f g : List UInt8 → Walk) :
    (walk.andThen f).andThen g = walk.andThen fun bytes => (f bytes).andThen g := by
  obtain ⟨counts, requests, last⟩ := walk
  cases last with
  | rest bytes =>
      cases hlast : (f bytes).last with
      | rest bytes' => simp only [andThen, hlast, List.append_assoc]
      | refused => simp only [andThen, hlast]
      | overflow => simp only [andThen, hlast]
  | refused => rfl
  | overflow => rfl

end

/-- A walk after a count has been met. -/
def counting (count : ℕ) (requests : List Request) (walk : Walk) : Walk :=
  ⟨count :: walk.counts, requests ++ walk.requests, walk.last⟩

/-- The same walk over and over. -/
def times (next : List UInt8 → Walk) : ℕ → List UInt8 → Walk
  | 0, bytes => ending (.rest bytes)
  | n + 1, bytes => (next bytes).andThen (times next n)

end Walk

/-- How a byte string is divided. -/
inductive Layout where
  /-- So many bytes. -/
  | fixed (n : ℕ)
  /-- A byte string behind its length, which has so many bytes. -/
  | block (width : ℕ)
  /-- The same, with a length that counts as the number of the rows. -/
  | data (width : ℕ)
  /-- The length of a first byte string, so many bytes, the length of a second one, and both byte
  strings.  The reader adds the lengths. -/
  | blocks (gap : ℕ)
  /-- The number of the rows, which is at most the limit, so many bytes, and the rows.  The reader
  reserves room for them. -/
  | rows (width : ℕ) (limit : Option ℕ) (gap : ℕ) (row : Layout)
  /-- Rows behind their number, for which no room is reserved. -/
  | each (width : ℕ) (row : Layout)
  /-- So many rows of the same length, which are passed at once by a reader at the position `head`
  that computes the position behind them. -/
  | span (head length : ℕ)
  | seq (first second : Layout)
  /-- Nothing at all, which counts as no rows, or a layout. -/
  | tail (layout : Layout)
  /-- A zero, or a one and a layout. -/
  | tagged (layout : Layout)
  /-- Anything that does not begin with a byte that is not zero, or such a byte and a layout. -/
  | flagged (layout : Layout)

namespace Layout

/-- The number that the next bytes stand for, and the bytes behind it. -/
def next (width : ℕ) (bytes : List UInt8) (f : ℕ → List UInt8 → Walk) : Walk :=
  if bytes.length < width then .ending .refused
  else f (decode (bytes.take width)) (bytes.drop width)

/-- So many bytes are passed. -/
def pass (n : ℕ) (bytes : List UInt8) : End :=
  if bytes.length < n then .refused else .rest (bytes.drop n)

/-- The least number of bytes. -/
def least : Layout → ℕ
  | .fixed n => n
  | .block width => width
  | .data width => width
  | .blocks gap => 4 + gap + 4
  | .rows width _ gap _ => width + gap
  | .each width _ => width
  | .span _ _ => 4
  | .seq first second => first.least + second.least
  | .tail _ => 0
  | .tagged _ => 1
  | .flagged _ => 0

/-- The counts of a layout that is missing. -/
def missing : Layout → List ℕ
  | .rows .. => [0]
  | _ => []

/-- Go through a byte string, with a machine word of `w` bits. -/
def walk (w : ℕ) : Layout → List UInt8 → Walk
  | .fixed n, bytes => .ending (pass n bytes)
  | .block width, bytes => next width bytes fun length rest => .ending (pass length rest)
  | .data width, bytes => next width bytes fun length rest =>
      if rest.length < length % 2 ^ w then .ending .refused
      else ⟨[length], [], if 2 ^ w ≤ length then .overflow else .rest (rest.drop length)⟩
  | .blocks gap, bytes => next 4 bytes fun first rest =>
      (Walk.ending (pass gap rest)).andThen fun rest => next 4 rest fun second rest =>
        if 2 ^ w ≤ second + first then .ending .overflow else .ending (pass (second + first) rest)
  | .rows width limit gap row, bytes => next width bytes fun count rest =>
      if limit.any (· < count) then .ending .refused
      else (Walk.ending (pass gap rest)).andThen fun rest =>
        (Walk.times (row.walk w) count rest).counting count
          [⟨count % 2 ^ w, row.least, rest.length⟩]
  | .each width row, bytes => next width bytes fun count rest =>
      Walk.times (row.walk w) count rest
  | .span head length, bytes => next 4 bytes fun count rest =>
      if 2 ^ w ≤ count * length then .ending .refused
      else if 2 ^ w ≤ head + count * length then .ending .overflow
      else .ending (pass (count * length) rest)
  | .seq first second, bytes => (first.walk w bytes).andThen (second.walk w)
  | .tail layout, bytes =>
      if bytes.isEmpty then ⟨layout.missing, [], .rest []⟩ else layout.walk w bytes
  | .tagged layout, bytes => next 1 bytes fun tag rest =>
      if tag = 0 then .ending (.rest rest)
      else if tag = 1 then layout.walk w rest
      else .ending .refused
  | .flagged layout, bytes =>
      if bytes.headD 0 = 0 then .ending (.rest bytes)
      else next 1 bytes fun _ rest => layout.walk w rest

/-- One layout after the other. -/
def all (layouts : List Layout) : Layout := layouts.foldr .seq (.fixed 0)

/-- The byte string has room for the rows it announces, and no length exceeds the machine word. -/
def Sound (w : ℕ) (layout : Layout) (bytes : List UInt8) : Prop :=
  (∀ request ∈ (layout.walk w bytes).requests, request.Fits) ∧
    (layout.walk w bytes).last ≠ .overflow

instance (w : ℕ) (layout : Layout) (bytes : List UInt8) : Decidable (layout.Sound w bytes) :=
  instDecidableAnd

end Layout

/-! ## Walks to the end -/

section

variable {w : ℕ} {bytes rest : List UInt8}

/-- A walk to the end: it has passed so many bytes at least, and there was room. -/
structure Walk.Ends (walk : Walk) (least : ℕ) (bytes rest : List UInt8) : Prop where
  last : walk.last = .rest rest
  least_le : rest.length + least ≤ bytes.length
  fits : ∀ request ∈ walk.requests, request.Fits

/-- A walk whose first part ends has a first part and a second one. -/
theorem Walk.rest_of_andThen {walk : Walk} {next : List UInt8 → Walk}
    (h : (walk.andThen next).last = .rest rest) :
    ∃ middle, walk.last = .rest middle ∧ (next middle).last = .rest rest ∧
      (walk.andThen next).requests = walk.requests ++ (next middle).requests := by
  cases hlast : walk.last with
  | rest middle =>
      rw [Walk.andThen_rest hlast] at h ⊢
      exact ⟨middle, rfl, h, rfl⟩
  | refused =>
      rw [Walk.andThen_refused hlast] at h
      exact nomatch h
  | overflow =>
      rw [Walk.andThen_overflow hlast] at h
      exact nomatch h

/-- Two walks to the end, one after the other. -/
theorem Walk.Ends.andThen {walk : Walk} {next : List UInt8 → Walk} {m n : ℕ}
    (hfirst : ∀ middle, walk.last = .rest middle → walk.Ends m bytes middle)
    (hsecond : ∀ middle, (next middle).last = .rest rest → (next middle).Ends n middle rest)
    (h : (walk.andThen next).last = .rest rest) : (walk.andThen next).Ends (m + n) bytes rest := by
  obtain ⟨middle, hlast, hnext, hrequests⟩ := Walk.rest_of_andThen h
  have hfirst := hfirst middle hlast
  have hsecond := hsecond middle hnext
  refine ⟨h, ?_, fun request hrequest => ?_⟩
  · have := hfirst.least_le
    have := hsecond.least_le
    omega
  · rw [hrequests] at hrequest
    rcases List.mem_append.mp hrequest with hold | hnew
    · exact hfirst.fits request hold
    · exact hsecond.fits request hnew

/-- Rows that are gone through one after the other. -/
theorem Walk.Ends.times {next : List UInt8 → Walk} {least : ℕ}
    (h : ∀ {bytes rest}, (next bytes).last = .rest rest → (next bytes).Ends least bytes rest) :
    ∀ (n : ℕ) {bytes rest : List UInt8}, (Walk.times next n bytes).last = .rest rest →
      (Walk.times next n bytes).Ends (n * least) bytes rest := by
  intro n
  induction n with
  | zero =>
      intro bytes rest hlast
      obtain rfl := End.rest.inj hlast
      refine ⟨rfl, ?_, List.forall_mem_nil _⟩
      rw [Nat.zero_mul]
      exact Nat.le_refl _
  | succ n ih =>
      intro bytes rest hlast
      have hends := Walk.Ends.andThen (fun _ => h) (fun _ => ih) hlast
      rwa [Nat.add_comm, ← Nat.succ_mul] at hends

/-- A walk that begins with a number. -/
theorem Layout.rest_of_next {width : ℕ} {f : ℕ → List UInt8 → Walk}
    (h : (Layout.next width bytes f).last = .rest rest) :
    width ≤ bytes.length ∧
      Layout.next width bytes f = f (decode (bytes.take width)) (bytes.drop width) := by
  rw [Layout.next] at h ⊢
  split at h
  next => exact nomatch h
  next hlength => exact ⟨Nat.not_lt.mp hlength, if_neg hlength⟩

theorem Layout.rest_of_pass {n : ℕ} (h : Layout.pass n bytes = .rest rest) :
    rest.length + n = bytes.length := by
  rw [Layout.pass] at h
  split at h
  next => exact nomatch h
  next hlength =>
    obtain rfl := End.rest.inj h
    rw [List.length_drop]
    omega

/-- What is gone through to the end has had room for its rows. -/
theorem Layout.ends_of_rest (w : ℕ) (layout : Layout) :
    ∀ {bytes rest : List UInt8}, (layout.walk w bytes).last = .rest rest →
      (layout.walk w bytes).Ends layout.least bytes rest := by
  induction layout with
  | fixed n =>
      intro bytes rest h
      exact ⟨h, (Layout.rest_of_pass h).le, List.forall_mem_nil _⟩
  | block width =>
      intro bytes rest h
      obtain ⟨hwidth, heq⟩ := Layout.rest_of_next h
      rw [walk, heq] at h ⊢
      have hpass := Layout.rest_of_pass h
      rw [List.length_drop] at hpass
      refine ⟨h, ?_, List.forall_mem_nil _⟩
      rw [least]
      omega
  | data width =>
      intro bytes rest h
      obtain ⟨hwidth, heq⟩ := Layout.rest_of_next h
      rw [walk, heq] at h ⊢
      split at h
      next => exact nomatch h
      next hlength =>
        rw [if_neg hlength]
        dsimp only at h ⊢
        split at h
        next => exact nomatch h
        next hword =>
          obtain rfl := End.rest.inj h
          rw [if_neg hword]
          refine ⟨rfl, ?_, List.forall_mem_nil _⟩
          rw [least, List.length_drop, List.length_drop]
          omega
  | blocks gap =>
      intro bytes rest h
      obtain ⟨hfirst, heq⟩ := Layout.rest_of_next h
      rw [walk, heq] at h ⊢
      obtain ⟨middle, hgap, hsecond, hrequests⟩ := Walk.rest_of_andThen h
      have hpass := Layout.rest_of_pass hgap
      rw [List.length_drop] at hpass
      obtain ⟨hwidth, heq'⟩ := Layout.rest_of_next hsecond
      rw [heq'] at hsecond hrequests
      split at hsecond
      next => exact nomatch hsecond
      next hword =>
        have hpass' := Layout.rest_of_pass hsecond
        rw [List.length_drop] at hpass'
        rw [if_neg hword] at hrequests
        refine ⟨h, ?_, ?_⟩
        · rw [least]
          omega
        · rw [hrequests]
          exact List.forall_mem_nil _
  | rows width limit gap row ih =>
      intro bytes rest h
      obtain ⟨hwidth, heq⟩ := Layout.rest_of_next h
      rw [walk, heq] at h ⊢
      split at h
      next => exact nomatch h
      next hlimit =>
        rw [if_neg hlimit]
        obtain ⟨middle, hgap, hlast, hrequests⟩ := Walk.rest_of_andThen h
        have hpass := Layout.rest_of_pass hgap
        have hrows := Walk.Ends.times ih _ hlast
        have hle := hrows.least_le
        rw [List.length_drop] at hpass
        refine ⟨h, ?_, ?_⟩
        · rw [least]
          omega
        · rw [hrequests]
          refine List.forall_mem_cons.mpr ⟨?_, hrows.fits⟩
          rw [Request.Fits]
          dsimp only
          have hmod := Nat.mul_le_mul_right row.least
            (Nat.mod_le (decode (bytes.take width)) (2 ^ w))
          omega
  | each width row ih =>
      intro bytes rest h
      obtain ⟨hwidth, heq⟩ := Layout.rest_of_next h
      rw [walk, heq] at h ⊢
      have hrows := Walk.Ends.times ih _ h
      have hle := hrows.least_le
      refine ⟨h, ?_, hrows.fits⟩
      rw [List.length_drop] at hle
      rw [least]
      omega
  | span head length =>
      intro bytes rest h
      obtain ⟨hwidth, heq⟩ := Layout.rest_of_next h
      rw [walk, heq] at h ⊢
      split at h
      next => exact nomatch h
      next hlength =>
        split at h
        next => exact nomatch h
        next hword =>
          rw [if_neg hlength, if_neg hword]
          have hpass := Layout.rest_of_pass h
          rw [List.length_drop] at hpass
          refine ⟨h, ?_, List.forall_mem_nil _⟩
          rw [least]
          omega
  | seq first second ihfirst ihsecond =>
      intro bytes rest h
      exact Walk.Ends.andThen (fun _ => ihfirst) (fun _ => ihsecond) h
  | tail layout ih =>
      intro bytes rest h
      rw [walk] at h ⊢
      split at h
      next hempty =>
        rw [if_pos hempty]
        obtain rfl := End.rest.inj h
        exact ⟨rfl, Nat.zero_le _, List.forall_mem_nil _⟩
      next hmore =>
        rw [if_neg hmore]
        have hends := ih h
        exact ⟨h, Nat.le_trans (Nat.le_add_right _ _) hends.least_le, hends.fits⟩
  | tagged layout ih =>
      intro bytes rest h
      obtain ⟨hwidth, heq⟩ := Layout.rest_of_next h
      rw [walk, heq] at h ⊢
      split at h
      next htag =>
        rw [if_pos htag]
        obtain rfl := End.rest.inj h
        refine ⟨rfl, ?_, List.forall_mem_nil _⟩
        rw [least, List.length_drop]
        omega
      next htag =>
        rw [if_neg htag]
        split at h
        next hone =>
          rw [if_pos hone]
          have hends := ih h
          have hle := hends.least_le
          rw [List.length_drop] at hle
          refine ⟨h, ?_, hends.fits⟩
          rw [least]
          omega
        next => exact nomatch h
  | flagged layout ih =>
      intro bytes rest h
      rw [walk] at h ⊢
      split at h
      next hzero =>
        rw [if_pos hzero]
        obtain rfl := End.rest.inj h
        exact ⟨rfl, Nat.le_refl _, List.forall_mem_nil _⟩
      next hflag =>
        rw [if_neg hflag]
        obtain ⟨hwidth, heq⟩ := Layout.rest_of_next h
        rw [heq] at h ⊢
        have hends := ih h
        have hle := hends.least_le
        rw [List.length_drop] at hle
        refine ⟨h, ?_, hends.fits⟩
        rw [least]
        omega

/-- A byte string that is gone through to the end is sound. -/
theorem Layout.sound_of_rest {layout : Layout} (h : (layout.walk w bytes).last = .rest rest) :
    layout.Sound w bytes :=
  ⟨(layout.ends_of_rest w h).fits, by rw [h]; exact nofun⟩

end

end Layouts
