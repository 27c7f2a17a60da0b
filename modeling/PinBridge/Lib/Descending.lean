import Mathlib.Data.List.Basic
import Mathlib.Tactic.Common

/-!
# Reading numbers downwards

A reader goes through consecutive numbers, the highest first (`span`), and takes those with a
property.  Two adjacent parts follow each other (`span_append`).  A reader that stops at its `k`-th
number has taken all numbers with the property down to that one (`exists_take_filter`).
-/

namespace Descending

/-- The numbers from `lo` on below `hi`, the highest first. -/
def span (lo hi : Nat) : List Nat := (List.range' lo (hi - lo)).reverse

variable {lo mid hi n k : Nat} {p : Nat → Bool}

theorem span_eq_nil (h : hi ≤ lo) : span lo hi = [] := by
  rw [span, Nat.sub_eq_zero_of_le h]
  rfl

theorem span_succ (h : lo ≤ hi) : span lo (hi + 1) = hi :: span lo hi := by
  rw [span, span, Nat.succ_sub h, List.range'_1_concat, List.reverse_concat,
    Nat.add_sub_cancel' h]

@[simp] theorem mem_span : n ∈ span lo hi ↔ lo ≤ n ∧ n < hi := by
  rw [span, List.mem_reverse, List.mem_range'_1]
  omega

@[simp] theorem length_span : (span lo hi).length = hi - lo := by
  rw [span, List.length_reverse, List.length_range']

theorem pairwise_span : (span lo hi).Pairwise (· > ·) := by
  rw [span, List.pairwise_reverse]
  exact List.pairwise_lt_range'

/-- Two adjacent parts. -/
theorem span_append (hlow : lo ≤ mid) (hhigh : mid ≤ hi) :
    span mid hi ++ span lo mid = span lo hi := by
  induction hhigh with
  | refl => rw [span_eq_nil (Nat.le_refl mid), List.nil_append]
  | step hhigh ih =>
      rw [span_succ hhigh, List.cons_append, ih, span_succ (Nat.le_trans hlow hhigh)]

/-- The lowest number is the last one. -/
theorem getLast?_span (h : lo < hi) : (span lo hi).getLast? = some lo := by
  rw [span, List.getLast?_reverse, List.head?_range', if_neg (Nat.sub_ne_zero_of_lt h)]

/-- A reader that stops at a number has taken the numbers down to it. -/
theorem exists_take_filter (hpos : 0 < k) (h : k ≤ ((span lo hi).filter p).length) :
    ∃ s, lo ≤ s ∧ s < hi ∧ ((span lo hi).filter p).take k = (span s hi).filter p ∧
      (((span lo hi).filter p).take k).getLast? = some s := by
  induction hi generalizing k with
  | zero =>
      rw [span_eq_nil (Nat.zero_le lo)] at h
      exact absurd h (Nat.not_le.mpr hpos)
  | succ hi ih =>
      rcases Nat.lt_or_ge hi lo with hlt | hle
      · rw [span_eq_nil hlt] at h
        exact absurd h (Nat.not_le.mpr hpos)
      · rw [span_succ hle] at h ⊢
        cases hp : p hi with
        | false =>
            rw [List.filter_cons_of_neg (by rw [hp]; exact Bool.false_ne_true)] at h ⊢
            obtain ⟨s, hlow, hhigh, htake, hlast⟩ := ih hpos h
            refine ⟨s, hlow, Nat.lt_succ_of_lt hhigh, ?_, hlast⟩
            rw [htake, span_succ (Nat.le_of_lt hhigh),
              List.filter_cons_of_neg (by rw [hp]; exact Bool.false_ne_true)]
        | true =>
            rw [List.filter_cons_of_pos hp] at h ⊢
            obtain ⟨k, rfl⟩ := Nat.exists_eq_add_of_lt hpos
            rw [Nat.zero_add, List.take_succ_cons]
            cases k with
            | zero =>
                refine ⟨hi, hle, Nat.lt_succ_self hi, ?_, rfl⟩
                rw [span_succ (Nat.le_refl hi), span_eq_nil (Nat.le_refl hi),
                  List.filter_cons_of_pos hp]
                rfl
            | succ k =>
                have hrest : k + 1 ≤ ((span lo hi).filter p).length := by
                  rw [List.length_cons] at h
                  omega
                obtain ⟨s, hlow, hhigh, htake, hlast⟩ := ih (Nat.succ_pos k) hrest
                refine ⟨s, hlow, Nat.lt_succ_of_lt hhigh, ?_, ?_⟩
                · rw [htake, span_succ (Nat.le_of_lt hhigh), List.filter_cons_of_pos hp]
                · rw [htake] at hlast ⊢
                  rw [List.getLast?_cons, hlast]
                  rfl

end Descending
