import Mathlib.Data.List.TakeWhile

/-!
# Decoding a memory in chunks

A memory gives a symbol at some addresses (`window` reads as many as there are).
A decoder reads one item from the symbols at an address.  It looks at no symbol
behind the item, and no item is longer than `maxSize` (`Decoder`).

`sweep` decodes item after item up to a given end, and says whether it got
there.  `chunk` decodes a bounded number of items from symbols that were read
before.  If enough were read for that number of items of the largest size, the
items are those at the same place in the memory (`chunk_window`), and so the
sweep can be cut anywhere between two items (`sweep_eq`).
-/

namespace Sweep

/-- A decoder of items of at most `maxSize` symbols. -/
structure Decoder (β ι : Type*) where
  /-- The item at the front of the symbols at an address. -/
  decode : Nat → List β → Option ι
  /-- The length of an item. -/
  size : ι → Nat
  maxSize : Nat
  size_pos : ∀ {a bs i}, decode a bs = some i → 0 < size i
  size_le : ∀ {a bs i}, decode a bs = some i → size i ≤ maxSize
  /-- An item lies within the symbols it is decoded from. -/
  fits : ∀ {a bs i}, decode a bs = some i → size i ≤ bs.length
  /-- An item depends on its own symbols alone. -/
  congr : ∀ {a bs cs i}, decode a bs = some i → cs.take (size i) = bs.take (size i) →
    decode a cs = some i

variable {β ι : Type*}

/-! ## Windows -/

/-- The symbols from an address on, up to a number and up to the first that cannot be
read. -/
def window (read : Nat → Option β) : Nat → Nat → List β
  | _, 0 => []
  | a, n + 1 =>
      match read a with
      | none => []
      | some b => b :: window read (a + 1) n

section

variable {read : Nat → Option β} {a n k : Nat}

theorem length_window_le (read : Nat → Option β) (a n : Nat) :
    (window read a n).length ≤ n := by
  induction n generalizing a with
  | zero => exact le_rfl
  | succ n ih =>
      rw [window]
      split
      next => exact Nat.zero_le _
      next => exact Nat.succ_le_succ (ih (a + 1))

theorem take_window (read : Nat → Option β) (a n k : Nat) :
    (window read a n).take k = window read a (min k n) := by
  induction n generalizing a k with
  | zero => rw [Nat.min_zero, window, List.take_nil]
  | succ n ih =>
      cases k with
      | zero => rw [Nat.zero_min, window, List.take_zero]
      | succ k =>
          rw [Nat.succ_min_succ, window, window]
          split
          next => exact List.take_nil
          next b hb => rw [List.take_succ_cons, ih]

theorem drop_window (h : k ≤ (window read a n).length) :
    (window read a n).drop k = window read (a + k) (n - k) := by
  induction k generalizing a n with
  | zero => rfl
  | succ k ih =>
      cases n with
      | zero =>
          rw [window] at h
          exact absurd h (Nat.not_succ_le_zero k)
      | succ n =>
          rw [window] at h ⊢
          split at h
          next => exact absurd h (Nat.not_succ_le_zero k)
          next b hb =>
            show (window read (a + 1) n).drop k = _
            rw [ih (Nat.le_of_succ_le_succ h), Nat.succ_sub_succ, Nat.add_right_comm]
            rfl

end

namespace Decoder

variable (D : Decoder β ι) (read : Nat → Option β)

/-! ## Items -/

/-- The item at an address of the memory. -/
def decodeAt (a : Nat) : Option ι := D.decode a (window read a D.maxSize)

variable {D read} {a n c stop : Nat} {i : ι}

/-- A window does not invent items. -/
theorem decodeAt_of_window (h : D.decode a (window read a n) = some i) :
    D.decodeAt read a = some i := by
  have hle := (D.fits h).trans (length_window_le read a n)
  refine D.congr h ?_
  rw [take_window, take_window, Nat.min_eq_left (D.size_le h), Nat.min_eq_left hle]

/-- A window that is long enough does not lose any. -/
theorem decode_window (hn : D.maxSize ≤ n) :
    D.decode a (window read a n) = D.decodeAt read a := by
  cases h : D.decodeAt read a with
  | some i =>
      have hle := D.size_le h
      refine D.congr h ?_
      rw [take_window, take_window, Nat.min_eq_left hle, Nat.min_eq_left (hle.trans hn)]
  | none =>
      cases hw : D.decode a (window read a n) with
      | none => rfl
      | some i => rw [decodeAt_of_window hw] at h; cases h

/-- The next items from an address on, at most a given number, with their addresses. -/
def follow (D : Decoder β ι) (read : Nat → Option β) : Nat → Nat → List (Nat × ι)
  | 0, _ => []
  | n + 1, a =>
      match D.decodeAt read a with
      | none => []
      | some i => (a, i) :: follow D read n (a + D.size i)

/-- The items in some symbols that were read at an address, at most a given number. -/
def chunk (D : Decoder β ι) : Nat → Nat → List β → List (Nat × ι)
  | 0, _, _ => []
  | n + 1, a, bs =>
      match D.decode a bs with
      | none => []
      | some i => (a, i) :: chunk D n (a + D.size i) (bs.drop (D.size i))

/-- Items that are decoded from a window which is long enough are those of the memory. -/
theorem chunk_window (hn : c * D.maxSize ≤ n) :
    D.chunk c a (window read a n) = D.follow read c a := by
  induction c generalizing a n with
  | zero => rfl
  | succ c ih =>
      rw [Nat.succ_mul] at hn
      have hdecode : D.decode a (window read a n) = D.decodeAt read a :=
        decode_window (by omega)
      rw [chunk, follow, hdecode]
      cases h : D.decodeAt read a with
      | none => rfl
      | some i =>
          have hle := D.size_le h
          rw [h] at hdecode
          show (a, i) :: _ = (a, i) :: _
          rw [drop_window (D.fits hdecode), ih (by omega)]

/-! ## The sweep -/

/-- All items from an address on that begin before an end, and whether the end was
reached. -/
def sweep (D : Decoder β ι) (read : Nat → Option β) (stop a : Nat) : List (Nat × ι) × Bool :=
  if a < stop then
    match h : D.decodeAt read a with
    | none => ([], false)
    | some i =>
        have := D.size_pos h
        let rest := sweep D read stop (a + D.size i)
        ((a, i) :: rest.1, rest.2)
  else ([], true)
  termination_by stop - a

theorem sweep_of_le (h : stop ≤ a) : D.sweep read stop a = ([], true) := by
  rw [sweep, if_neg (not_lt.mpr h)]

theorem sweep_of_none (h : a < stop) (hi : D.decodeAt read a = none) :
    D.sweep read stop a = ([], false) := by
  rw [sweep, if_pos h]
  split
  next => rfl
  next i hs => rw [hi] at hs; cases hs

theorem sweep_of_some (h : a < stop) (hi : D.decodeAt read a = some i) :
    D.sweep read stop a =
      ((a, i) :: (D.sweep read stop (a + D.size i)).1,
        (D.sweep read stop (a + D.size i)).2) := by
  rw [sweep, if_pos h]
  split
  next hs => rw [hi] at hs; cases hs
  next j hs =>
    rw [hi] at hs
    cases hs
    rfl

/-- What a sweep finds lies before the end, and is decoded where it lies. -/
theorem mem_sweep {p : Nat × ι} (hp : p ∈ (D.sweep read stop a).1) :
    a ≤ p.1 ∧ p.1 < stop ∧ D.decodeAt read p.1 = some p.2 := by
  fun_induction sweep D read stop a with
  | case1 a h hi => cases hp
  | case2 a h i hi hpos rest ih =>
      obtain rfl | hp := List.mem_cons.mp hp
      · exact ⟨le_rfl, h, hi⟩
      · obtain ⟨hle, hrest⟩ := ih hp
        exact ⟨(Nat.le_add_right _ _).trans hle, hrest⟩
  | case3 a h => cases hp

/-- The items of a sweep are in the order of their addresses. -/
theorem pairwise_sweep : (D.sweep read stop a).1.Pairwise fun p q => p.1 < q.1 := by
  fun_induction sweep D read stop a with
  | case1 a h hi => exact List.Pairwise.nil
  | case2 a h i hi hpos rest ih =>
      refine ih.cons fun p hp => ?_
      have := (mem_sweep hp).1
      show a < p.1
      omega
  | case3 a h => exact List.Pairwise.nil

/-- Where the items that begin before the end stop. -/
def after (D : Decoder β ι) (stop : Nat) : Nat → List (Nat × ι) → Nat
  | a, [] => a
  | a, p :: ps => if p.1 < stop then after D stop (p.1 + D.size p.2) ps else a

/-- A sweep is cut after some items and goes on behind them. -/
theorem sweep_eq (c : Nat) :
    D.sweep read stop a =
      ((D.follow read c a).takeWhile (fun p => p.1 < stop) ++
          (D.sweep read stop (D.after stop a (D.follow read c a))).1,
        (D.sweep read stop (D.after stop a (D.follow read c a))).2) := by
  induction c generalizing a with
  | zero => rfl
  | succ c ih =>
      rw [follow]
      cases hi : D.decodeAt read a with
      | none => rfl
      | some i =>
          rcases lt_or_ge a stop with hlt | hge
          · rw [sweep_of_some hlt hi, ih]
            simp only [after, List.takeWhile_cons, hlt, decide_true, if_true, List.cons_append]
          · have hnot := not_lt.mpr hge
            simp only [after, List.takeWhile_cons, hnot, decide_false, if_false]
            rfl

end Decoder

end Sweep
