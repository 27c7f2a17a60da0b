import Mathlib.Data.PNat.Basic
import Mathlib.Logic.Function.Basic

/-!
# Bounded logs read by cursor

A log grows at one end, and a ring of `cap` cells keeps its last `cap` entries.  A reader with
a cursor has seen the entries up to its cursor.  It asks for a page of at most `limit` entries
after the cursor, and is told how many entries it has missed because they are gone.

`pageOf` says what a page of a log is.  A page accounts for every entry between the cursor and
the next cursor (`length_pageOf`), and a ring that holds the log yields it
(`Ring.Holds.get_pageOf`).
-/

namespace BoundedLog

variable {α : Type*} {cap : ℕ+}

/-! ## Rings -/

/-- The last `cap` entries of a log of `total` entries. -/
structure Ring (α : Type*) (cap : ℕ+) where
  cells : Fin cap → α
  total : Nat

/-- The cell of entry `k`. -/
def cell (cap : ℕ+) (k : Nat) : Fin cap := ⟨k % cap, Nat.mod_lt k cap.pos⟩

/-- Two entries of one cell are at least `cap` apart. -/
theorem cell_injective {j k : Nat} (hjk : j < k) (hk : k < j + cap) : cell cap j ≠ cell cap k := by
  intro h
  have hmod : j % cap = k % cap := congrArg Fin.val h
  have hdvd : (cap : Nat) ∣ k - j :=
    Nat.dvd_of_mod_eq_zero (Nat.sub_mod_eq_zero_of_mod_eq hmod.symm)
  have := Nat.le_of_dvd (Nat.sub_pos_of_lt hjk) hdvd
  omega

/-- Entry `total` replaces the oldest one. -/
def Ring.push (r : Ring α cap) (a : α) : Ring α cap where
  cells := Function.update r.cells (cell cap r.total) a
  total := r.total + 1

/-- The ring keeps the last entries of `log`. -/
structure Ring.Holds (r : Ring α cap) (log : List α) : Prop where
  total : r.total = log.length
  cells : ∀ k, k < r.total → r.total ≤ k + cap → log[k]? = some (r.cells (cell cap k))

theorem Ring.Holds.nil {r : Ring α cap} (h : r.total = 0) : r.Holds [] :=
  ⟨h, fun k hk => absurd hk (by omega)⟩

theorem Ring.Holds.push {r : Ring α cap} {log : List α} (h : r.Holds log) (a : α) :
    (r.push a).Holds (log ++ [a]) := by
  refine ⟨by simp [Ring.push, h.total], fun k hk hcap => ?_⟩
  simp only [Ring.push] at hk hcap ⊢
  obtain hlt | rfl := Nat.lt_succ_iff_lt_or_eq.mp hk
  · rw [List.getElem?_append_left (by rw [← h.total]; exact hlt),
      Function.update_of_ne (cell_injective hlt (by omega))]
    exact h.cells k hlt (by omega)
  · rw [Function.update_self, h.total, List.getElem?_concat_length]

/-! ## Pages -/

/-- The first entry after `cursor` that is kept, counted from one. -/
def first (cap total cursor : Nat) : Nat := max (cursor + 1) (total - min total cap + 1)

/-- The entries a reader has missed. -/
def missed (cap total cursor : Nat) : Nat := first cap total cursor - (cursor + 1)

/-- The numbers of the entries of a page. -/
def pageOf (cap total cursor limit : Nat) : List Nat :=
  List.range' (first cap total cursor)
    (min (first cap total cursor + limit - 1) total + 1 - first cap total cursor)

/-- The cursor after a page. -/
def next (cap total cursor limit : Nat) : Nat :=
  (pageOf cap total cursor limit).getLast?.getD cursor

variable {total cursor limit : Nat}

theorem mem_pageOf {n : Nat} (h : n ∈ pageOf cap total cursor limit) :
    cursor < n ∧ n ≤ total ∧ total < n + cap := by
  have hcap := cap.pos
  simp only [pageOf, first, List.mem_range'_1] at h
  omega

theorem pageOf_sorted : (pageOf cap total cursor limit).Pairwise (· < ·) := List.pairwise_lt_range'

/-- At or beyond the end there is nothing to read. -/
theorem pageOf_eq_nil (h : total ≤ cursor) : pageOf cap total cursor limit = [] := by
  simp only [pageOf, List.range'_eq_nil_iff, first]
  omega

theorem missed_eq_zero (h : total ≤ cursor) : missed cap total cursor = 0 := by
  simp only [missed, first]
  omega

theorem next_of_le (h : total ≤ cursor) : next cap total cursor limit = cursor := by
  rw [next, pageOf_eq_nil h]
  rfl

theorem next_of_lt (hlimit : 0 < limit) (h : cursor < total) :
    next cap total cursor limit = min (first cap total cursor + limit - 1) total := by
  have hfirst : first cap total cursor ≤ total := by
    have := cap.pos
    unfold first
    omega
  have hpos : 0 < min (first cap total cursor + limit - 1) total + 1 - first cap total cursor := by
    omega
  rw [next, pageOf, List.getLast?_range', if_neg (by omega), Option.getD_some]
  omega

/-- Every entry up to the next cursor is in the page or missed. -/
theorem length_pageOf (hlimit : 0 < limit) :
    cursor + missed cap total cursor + (pageOf cap total cursor limit).length =
      next cap total cursor limit := by
  obtain h | h := Nat.lt_or_ge cursor total
  · have := cap.pos
    rw [next_of_lt hlimit h, pageOf, List.length_range', missed]
    unfold first
    omega
  · rw [next_of_le h, pageOf_eq_nil h, missed_eq_zero h]
    rfl

theorem mem_pageOf_le_next (hlimit : 0 < limit) {n : Nat}
    (h : n ∈ pageOf cap total cursor limit) : n ≤ next cap total cursor limit := by
  obtain ⟨hlow, hhigh, -⟩ := mem_pageOf h
  rw [next_of_lt hlimit (by omega)]
  simp only [pageOf, List.mem_range'_1] at h
  omega

/-- A ring yields the entries of a page. -/
theorem Ring.Holds.get_pageOf {r : Ring α cap} {log : List α} (h : r.Holds log) {n : Nat}
    (hn : n ∈ pageOf cap r.total cursor limit) :
    log[n - 1]? = some (r.cells (cell cap (n - 1))) := by
  obtain ⟨hlow, hhigh, hkept⟩ := mem_pageOf hn
  exact h.cells (n - 1) (by omega) (by omega)

end BoundedLog
