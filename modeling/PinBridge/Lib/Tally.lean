import Mathlib.Algebra.BigOperators.Fin
import Mathlib.Algebra.BigOperators.Group.Finset.Piecewise
import Mathlib.Algebra.Order.BigOperators.Group.Finset

/-!
# Tallies over a family of parties

A system with finitely many parties keeps one local state per party,
`g : ι → β`.  The tally of a weight `f : β → M` is the sum of the weights of
all parties.  When one party moves, the tally changes by the weights of its
old and its new local state (`tally_update`).  A counter that every party keeps
in step with its own weight therefore always equals the tally.

`count p g` is the tally of the indicator of `p`: how many parties are in a
local state that satisfies `p`.
-/

namespace Tally

variable {ι β M : Type*} [Fintype ι]

/-- The sum of the weights of all parties. -/
def tally [AddCommMonoid M] (f : β → M) (g : ι → β) : M := ∑ i, f (g i)

/-- When party `i` moves to `b`, the tally loses the weight of the old local
state and gains that of the new one. -/
theorem tally_update [DecidableEq ι] [AddCommMonoid M] (f : β → M) (g : ι → β) (i : ι) (b : β) :
    tally f (Function.update g i b) + f (g i) = tally f g + f b := by
  have hrest : ∑ j ∈ Finset.univ.erase i, f (Function.update g i b j) =
      ∑ j ∈ Finset.univ.erase i, f (g j) := by
    refine Finset.sum_congr rfl fun j hj => ?_
    rw [Function.update_of_ne (Finset.ne_of_mem_erase hj)]
  unfold tally
  rw [← Finset.add_sum_erase _ _ (Finset.mem_univ i),
    ← Finset.add_sum_erase Finset.univ (fun j => f (g j)) (Finset.mem_univ i),
    hrest, Function.update_self]
  rw [add_right_comm, add_comm (f b) (f (g i)), add_right_comm]

theorem tally_eq_zero [AddCommMonoid M] {f : β → M} {g : ι → β} (h : ∀ i, f (g i) = 0) :
    tally f g = 0 :=
  Finset.sum_eq_zero fun i _ => h i

/-! ## Counting -/

/-- How many parties are in a local state that satisfies `p`. -/
def count (p : β → Prop) [DecidablePred p] (g : ι → β) : Nat :=
  tally (fun b => if p b then 1 else 0) g

variable {p : β → Prop} [DecidablePred p] {g : ι → β}

theorem count_update [DecidableEq ι] (i : ι) (b : β) :
    count p (Function.update g i b) + (if p (g i) then 1 else 0) =
      count p g + (if p b then 1 else 0) :=
  tally_update (fun b => if p b then 1 else 0) g i b

theorem count_eq_zero : count p g = 0 ↔ ∀ i, ¬ p (g i) := by
  unfold count tally
  simp only [Finset.sum_eq_zero_iff, Finset.mem_univ, forall_const, ite_eq_right_iff,
    one_ne_zero, imp_false]

theorem count_le_card : count p g ≤ Fintype.card ι := by
  unfold count tally
  calc ∑ i, (if p (g i) then 1 else 0) ≤ ∑ _i : ι, 1 :=
        Finset.sum_le_sum fun i _ => by split <;> omega
    _ = Fintype.card ι := by simp

/-- A party in `p` makes the count positive. -/
theorem count_pos {i : ι} (h : p (g i)) : 0 < count p g :=
  Nat.pos_of_ne_zero fun h0 => count_eq_zero.mp h0 i h

end Tally
