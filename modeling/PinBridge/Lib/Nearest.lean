import Mathlib.Data.List.Sort
import Mathlib.Data.Nat.Basic

/-!
# The nearest element below a bound

A list that is sorted by a key is searched for the last element whose key is at most a bound.  The
search finds an element whose key is the greatest such one (`IsNearest`), and among the elements
with that key the last.  Sorting a list stably keeps the elements with one key in their order
(`filter_insertionSort`), so a search of the sorted list is a statement on the list before the sort
(`lastAtMost_insertionSort`).
-/

namespace Nearest

variable {α κ : Type*} [LinearOrder κ] {key : α → κ} {l : List α} {bound : κ} {e e' : α}

/-- How many elements at the front satisfy a predicate. -/
def partitionPoint (p : α → Bool) (l : List α) : ℕ := (l.takeWhile p).length

/-- The last element whose key is at most a bound, in a list that is sorted by key. -/
def lastAtMost (key : α → κ) (l : List α) (bound : κ) : Option α :=
  let index := partitionPoint (fun e => key e ≤ bound) l
  if index = 0 then none else l[index - 1]?

/-- An element whose key is the greatest that is at most a bound. -/
structure IsNearest (key : α → κ) (l : List α) (bound : κ) (e : α) : Prop where
  mem : e ∈ l
  le : key e ≤ bound
  max : ∀ e' ∈ l, key e' ≤ bound → key e' ≤ key e

theorem IsNearest.key_eq (h : IsNearest key l bound e) (h' : IsNearest key l bound e') :
    key e = key e' :=
  le_antisymm (h'.max e h.mem h.le) (h.max e' h'.mem h'.le)

theorem IsNearest.of_perm {l' : List α} (hperm : l.Perm l') (h : IsNearest key l bound e) :
    IsNearest key l' bound e :=
  ⟨hperm.mem_iff.mp h.mem, h.le, fun e' he' => h.max e' (hperm.mem_iff.mpr he')⟩

/-- The element before the partition point is the last one of the front. -/
theorem lastAtMost_eq (key : α → κ) (l : List α) (bound : κ) :
    lastAtMost key l bound = (l.takeWhile fun e => key e ≤ bound).getLast? := by
  obtain ⟨rest, hrest⟩ := List.takeWhile_prefix (l := l) fun e => decide (key e ≤ bound)
  rw [lastAtMost, partitionPoint]
  generalize l.takeWhile (fun e => key e ≤ bound) = front at hrest ⊢
  subst hrest
  split
  next h => rw [List.length_eq_zero_iff.mp h, List.getLast?_nil]
  next h =>
    rw [List.getElem?_append_left (Nat.sub_lt (Nat.pos_of_ne_zero h) Nat.one_pos),
      List.getLast?_eq_getElem?]

/-- In a sorted list the front is all that is at most the bound. -/
theorem takeWhile_eq_filter (h : l.Pairwise fun a b => key a ≤ key b) (bound : κ) :
    (l.takeWhile fun e => key e ≤ bound) = l.filter fun e => key e ≤ bound := by
  induction h with
  | nil => rfl
  | @cons a l hle _ ih =>
      by_cases ha : key a ≤ bound
      · rw [List.takeWhile_cons_of_pos (by simpa using ha),
          List.filter_cons_of_pos (by simpa using ha), ih]
      · rw [List.takeWhile_cons_of_neg (by simpa using ha),
          List.filter_cons_of_neg (by simpa using ha), eq_comm, List.filter_eq_nil_iff]
        intro b hb hbound
        exact ha ((hle b hb).trans (by simpa using hbound))

theorem lastAtMost_eq_none (h : l.Pairwise fun a b => key a ≤ key b) :
    lastAtMost key l bound = none ↔ ∀ e ∈ l, bound < key e := by
  rw [lastAtMost_eq, takeWhile_eq_filter h, List.getLast?_eq_none_iff, List.filter_eq_nil_iff]
  simp

theorem isNearest_of_lastAtMost (h : l.Pairwise fun a b => key a ≤ key b)
    (hlast : lastAtMost key l bound = some e) :
    IsNearest key l bound e ∧ (l.filter fun e' => key e' = key e).getLast? = some e := by
  rw [lastAtMost_eq, takeWhile_eq_filter h, List.getLast?_eq_some_iff] at hlast
  obtain ⟨front, hfront⟩ := hlast
  have hmem : e ∈ l.filter fun e => key e ≤ bound := by
    rw [hfront]
    exact List.mem_append_right _ List.mem_cons_self
  obtain ⟨hmem, hle⟩ := List.mem_filter.mp hmem
  have hle : key e ≤ bound := by simpa using hle
  refine ⟨⟨hmem, hle, fun e' he' hle' => ?_⟩, ?_⟩
  · have hsorted : (front ++ [e]).Pairwise fun a b => key a ≤ key b := hfront ▸ h.filter _
    have he'' : e' ∈ front ++ [e] := hfront ▸ List.mem_filter.mpr ⟨he', by simpa using hle'⟩
    rcases List.mem_append.mp he'' with hin | hin
    · exact (List.pairwise_append.mp hsorted).2.2 e' hin e List.mem_cons_self
    · rw [List.mem_singleton.mp hin]
  · have hfilter : (l.filter fun e' => key e' = key e) =
        (l.filter fun e => key e ≤ bound).filter fun e' => key e' = key e := by
      rw [List.filter_filter]
      refine List.filter_congr fun e' _ => ?_
      rw [Bool.eq_iff_iff]
      simp only [decide_eq_true_eq, Bool.and_eq_true]
      exact ⟨fun heq => ⟨heq, heq.trans_le hle⟩, And.left⟩
    rw [hfilter, hfront, List.filter_append, List.filter_singleton]
    simp

/-- A search of a sorted list finds the last of the elements with the nearest key. -/
theorem lastAtMost_eq_some (h : l.Pairwise fun a b => key a ≤ key b) :
    lastAtMost key l bound = some e ↔
      IsNearest key l bound e ∧ (l.filter fun e' => key e' = key e).getLast? = some e := by
  refine ⟨isNearest_of_lastAtMost h, fun ⟨hnear, hlast⟩ => ?_⟩
  cases hfound : lastAtMost key l bound with
  | none => exact absurd hnear.le (not_le.mpr ((lastAtMost_eq_none h).mp hfound e hnear.mem))
  | some e' =>
      obtain ⟨hnear', hlast'⟩ := isNearest_of_lastAtMost h hfound
      rw [hnear'.key_eq hnear, hlast] at hlast'
      exact hlast'.symm

/-! ## Stable sorting -/

/-- Sorting keeps the elements with one key in their order. -/
theorem filter_insertionSort (key : α → κ) (l : List α) (k : κ) :
    ((l.insertionSort fun a b => key a ≤ key b).filter fun e => key e = k) =
      l.filter fun e => key e = k := by
  have hperm := (List.perm_insertionSort (fun a b => key a ≤ key b) l).filter
    fun e => decide (key e = k)
  have hpair : (l.filter fun e => key e = k).Pairwise fun a b => key a ≤ key b := by
    refine List.pairwise_of_forall_mem_list fun a ha b hb => ?_
    have ha : key a = k := by simpa using (List.mem_filter.mp ha).2
    have hb : key b = k := by simpa using (List.mem_filter.mp hb).2
    rw [ha, hb]
  have hsub := (List.sublist_insertionSort hpair List.filter_sublist).filter
    fun e => decide (key e = k)
  rw [List.filter_filter, List.filter_congr (fun e _ => Bool.and_self _)] at hsub
  exact (hsub.eq_of_length hperm.length_eq.symm).symm

theorem pairwise_insertionSort (key : α → κ) (l : List α) :
    (l.insertionSort fun a b => key a ≤ key b).Pairwise fun a b => key a ≤ key b :=
  haveI : Std.Total fun a b : α => key a ≤ key b := ⟨fun a b => le_total (key a) (key b)⟩
  haveI : IsTrans α fun a b => key a ≤ key b := ⟨fun _ _ _ => le_trans⟩
  List.pairwise_insertionSort _ l

theorem lastAtMost_insertionSort :
    lastAtMost key (l.insertionSort fun a b => key a ≤ key b) bound = some e ↔
      IsNearest key l bound e ∧ (l.filter fun e' => key e' = key e).getLast? = some e := by
  rw [lastAtMost_eq_some (pairwise_insertionSort key l), filter_insertionSort]
  have hperm := List.perm_insertionSort (fun a b => key a ≤ key b) l
  exact and_congr_left' ⟨.of_perm hperm, .of_perm hperm.symm⟩

theorem lastAtMost_insertionSort_eq_none :
    lastAtMost key (l.insertionSort fun a b => key a ≤ key b) bound = none ↔
      ∀ e ∈ l, bound < key e := by
  rw [lastAtMost_eq_none (pairwise_insertionSort key l)]
  simp only [List.mem_insertionSort]

end Nearest
