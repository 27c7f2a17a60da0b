import Mathlib.Data.Fin.Basic
import Mathlib.Data.Nat.ModEq
import Mathlib.Logic.Function.Basic
import Mathlib.Tactic.Common

/-!
# Linear probing

A table of cells in a circle.  A cell is free or holds a key for good.  A search for a key goes from
the home of the key through the slots (`slotAt`) to the key or to the first free cell.

`NoGaps` says that no free cell is between a key and its home.  So a search that has passed some
slots finds no free cell if the key is there (`Passed.ne_free`), and a search that has passed all of
them shows that the table is full (`Passed.full`).  A key may be put into the first free cell
(`NoGaps.fill`).  Other keys may be added at any time meanwhile: what has been passed stays passed
(`Grows`).
-/

namespace Probing

variable {n : ℕ} [NeZero n] {α : Type*}

/-- A slot at a distance from the home. -/
def slotAt (home : Fin n) (k : ℕ) : Fin n := home + Fin.ofNat n k

theorem val_slotAt (home : Fin n) (k : ℕ) : (slotAt home k).val = (home.val + k) % n := by
  rw [slotAt, Fin.val_add, Fin.val_ofNat, Nat.add_mod_mod]

theorem slotAt_zero (home : Fin n) : slotAt home 0 = home :=
  Fin.ext (by rw [val_slotAt, Nat.add_zero, Nat.mod_eq_of_lt home.isLt])

theorem slotAt_succ (home : Fin n) (k : ℕ) : slotAt home (k + 1) = slotAt home k + 1 := by
  refine Fin.ext ?_
  rw [Fin.val_add, val_slotAt, val_slotAt, Fin.val_one', Nat.add_mod_mod, Nat.mod_add_mod,
    Nat.add_assoc]

/-- Every slot is at some distance. -/
theorem exists_slotAt (home i : Fin n) : ∃ k, k < n ∧ slotAt home k = i := by
  have hhome := home.isLt
  have hi := i.isLt
  rcases Nat.lt_or_ge i.val home.val with hlt | hle
  · refine ⟨n - home.val + i.val, by omega, Fin.ext ?_⟩
    have hsum : home.val + (n - home.val + i.val) = i.val + n := by omega
    rw [val_slotAt, hsum, Nat.add_mod_right, Nat.mod_eq_of_lt hi]
  · refine ⟨i.val - home.val, by omega, Fin.ext ?_⟩
    rw [val_slotAt, Nat.add_sub_cancel' hle, Nat.mod_eq_of_lt hi]

/-- Different distances below the number of slots are different slots. -/
theorem slotAt_inj (home : Fin n) {j k : ℕ} (hj : j < n) (hk : k < n)
    (h : slotAt home j = slotAt home k) : j = k := by
  have hmod := congrArg Fin.val h
  rw [val_slotAt, val_slotAt] at hmod
  have hcancel : j ≡ k [MOD n] := Nat.ModEq.add_left_cancel' home.val hmod
  rw [Nat.ModEq, Nat.mod_eq_of_lt hj, Nat.mod_eq_of_lt hk] at hcancel
  exact hcancel

variable (free : α)

/-- Cells that hold a key keep it. -/
def Grows (cells cells' : Fin n → α) : Prop := ∀ i, cells i ≠ free → cells' i = cells i

/-- The slots before a distance hold keys. -/
def Taken (cells : Fin n → α) (home : Fin n) (k : ℕ) : Prop :=
  ∀ j < k, cells (slotAt home j) ≠ free

/-- The slots before a distance hold other keys. -/
def Passed (cells : Fin n → α) (home : Fin n) (a : α) (k : ℕ) : Prop :=
  ∀ j < k, cells (slotAt home j) ≠ free ∧ cells (slotAt home j) ≠ a

/-- A key is in the table, and no free cell is between it and its home. -/
def Reachable (cells : Fin n → α) (home : Fin n) (a : α) : Prop :=
  ∃ k, cells (slotAt home k) = a ∧ Taken free cells home k

/-- Every key can be reached. -/
def NoGaps (hash : α → Fin n) (cells : Fin n → α) : Prop :=
  ∀ i, cells i ≠ free → Reachable free cells (hash (cells i)) (cells i)

variable {free} {cells cells' : Fin n → α} {home : Fin n} {a : α} {k : ℕ} {hash : α → Fin n}

/-! ## Growing -/

omit [NeZero n] in
theorem Grows.refl (cells : Fin n → α) : Grows free cells cells := fun _ _ => rfl

omit [NeZero n] in
theorem Grows.ne_free (h : Grows free cells cells') {i : Fin n} (hi : cells i ≠ free) :
    cells' i ≠ free := by
  rw [h i hi]
  exact hi

theorem Grows.taken (h : Grows free cells cells') (hk : Taken free cells home k) :
    Taken free cells' home k :=
  fun j hj => h.ne_free (hk j hj)

theorem Grows.passed (h : Grows free cells cells') (hk : Passed free cells home a k) :
    Passed free cells' home a k := by
  intro j hj
  rw [h _ (hk j hj).1]
  exact hk j hj

theorem Grows.reachable (h : Grows free cells cells') (ha : a ≠ free)
    (hreach : Reachable free cells home a) : Reachable free cells' home a := by
  obtain ⟨k, hk, htaken⟩ := hreach
  refine ⟨k, ?_, h.taken htaken⟩
  rw [h _ (by rw [hk]; exact ha), hk]

omit [NeZero n] in
theorem grows_fill {i : Fin n} (hi : cells i = free) :
    Grows free cells (Function.update cells i a) := by
  intro j hj
  have hne : j ≠ i := fun hij => hj (hij ▸ hi)
  rw [Function.update_of_ne hne]

/-! ## Searching -/

theorem Passed.taken (h : Passed free cells home a k) : Taken free cells home k :=
  fun j hj => (h j hj).1

theorem Taken.succ (h : Taken free cells home k) (hk : cells (slotAt home k) ≠ free) :
    Taken free cells home (k + 1) := by
  intro j hj
  rcases Nat.lt_succ_iff_lt_or_eq.mp hj with hlt | rfl
  · exact h j hlt
  · exact hk

theorem Passed.succ (h : Passed free cells home a k) (hk : cells (slotAt home k) ≠ free)
    (ha : cells (slotAt home k) ≠ a) : Passed free cells home a (k + 1) := by
  intro j hj
  rcases Nat.lt_succ_iff_lt_or_eq.mp hj with hlt | rfl
  · exact h j hlt
  · exact ⟨hk, ha⟩

/-- A search for a key that is there stays before it. -/
theorem Passed.ne_free (h : Passed free cells home a k) (ha : a ≠ free)
    (hreach : Reachable free cells home a) : cells (slotAt home k) ≠ free := by
  obtain ⟨m, hm, htaken⟩ := hreach
  rcases Nat.lt_trichotomy m k with hlt | rfl | hgt
  · exact absurd hm (h m hlt).2
  · rw [hm]
    exact ha
  · exact htaken k hgt

theorem Taken.full (h : Taken free cells home n) (i : Fin n) : cells i ≠ free := by
  obtain ⟨k, hk, rfl⟩ := exists_slotAt home i
  exact h k hk

theorem Passed.full (h : Passed free cells home a n) (i : Fin n) :
    cells i ≠ free ∧ cells i ≠ a := by
  obtain ⟨k, hk, rfl⟩ := exists_slotAt home i
  exact h k hk

/-- A search for a key that is there ends. -/
theorem Passed.not_reachable (h : Passed free cells home a n) :
    ¬Reachable free cells home a := by
  rintro ⟨k, hk, -⟩
  exact (h.full (slotAt home k)).2 hk

/-! ## Filling -/

/-- A key is put into the first free cell. -/
theorem NoGaps.fill (h : NoGaps free hash cells)
    (htaken : Taken free cells (hash a) k) (hk : cells (slotAt (hash a) k) = free) :
    NoGaps free hash (Function.update cells (slotAt (hash a) k) a) ∧
      Reachable free (Function.update cells (slotAt (hash a) k) a) (hash a) a := by
  have hgrows : Grows free cells (Function.update cells (slotAt (hash a) k) a) := grows_fill hk
  have hreach : Reachable free (Function.update cells (slotAt (hash a) k) a) (hash a) a :=
    ⟨k, Function.update_self .., hgrows.taken htaken⟩
  refine ⟨fun i hi => ?_, hreach⟩
  rcases eq_or_ne i (slotAt (hash a) k) with rfl | hne
  · rw [Function.update_self]
    exact hreach
  · rw [Function.update_of_ne hne] at hi ⊢
    exact hgrows.reachable hi (h i hi)

end Probing
