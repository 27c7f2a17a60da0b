import Mathlib.Data.List.Sort

/-!
# Sorted lists as sets

A set that is kept as a strictly sorted list.  `binarySearch` finds an element,
or the place where it belongs.  `sortDedup` makes such a list of any list, and
`mergeLoop` merges two of them.

`Locates` says what a search returns.  An element is put at its place and taken
from its place (`sortedLT_insertIdx`, `mem_insertIdx`, `sortedLT_eraseIdx`,
`mem_eraseIdx`).  Two sorted lists with the same elements are equal
(`List.SortedLT.eq_of_mem_iff`), so what these functions compute is determined
by the elements alone.
-/

namespace SortedList

variable {α : Type*} [LinearOrder α]

/-! ## Search -/

/-- The search between two places. -/
def searchBetween (l : List α) (a : α) (lo hi : Nat) : Except Nat Nat :=
  if lo < hi then
    let mid := lo + (hi - lo) / 2
    match l[mid]? with
    | none => .error lo
    | some b =>
        if b < a then searchBetween l a (mid + 1) hi
        else if a < b then searchBetween l a lo mid
        else .ok mid
  else .error lo
  termination_by hi - lo

/-- Where an element is, or where it belongs. -/
def binarySearch (l : List α) (a : α) : Except Nat Nat := searchBetween l a 0 l.length

/-- The result of a search is right. -/
def Locates (l : List α) (a : α) : Except Nat Nat → Prop
  | .ok i => l[i]? = some a
  | .error i => i ≤ l.length ∧ (∀ b ∈ l.take i, b < a) ∧ ∀ b ∈ l.drop i, a < b

/-- What is known between two steps of a search: the elements before `lo` are
smaller, and those from `hi` on are larger. -/
structure Brackets (l : List α) (a : α) (lo hi : Nat) : Prop where
  le : lo ≤ hi
  length : hi ≤ l.length
  below : ∀ b ∈ l.take lo, b < a
  above : ∀ b ∈ l.drop hi, a < b

variable {l : List α} {a b : α} {lo hi i : Nat}

theorem le_of_mem_take (hl : l.SortedLT) (hi : l[i]? = some b) {c : α}
    (hc : c ∈ l.take (i + 1)) : c ≤ b := by
  obtain ⟨hlt, rfl⟩ := List.getElem?_eq_some_iff.mp hi
  obtain ⟨j, hj, rfl⟩ := List.mem_take_iff_getElem.mp hc
  exact hl.getElem_le_getElem_iff.mpr (by omega)

theorem le_of_mem_drop (hl : l.SortedLT) (hi : l[i]? = some b) {c : α}
    (hc : c ∈ l.drop i) : b ≤ c := by
  obtain ⟨hlt, rfl⟩ := List.getElem?_eq_some_iff.mp hi
  obtain ⟨j, hj, rfl⟩ := List.mem_drop_iff_getElem.mp hc
  exact hl.getElem_le_getElem_iff.mpr (by omega)

/-- The search goes on above a smaller element. -/
theorem Brackets.above_mid (h : Brackets l a lo hi) (hl : l.SortedLT) (hlt : i < hi)
    (hi' : l[i]? = some b) (hb : b < a) : Brackets l a (i + 1) hi :=
  ⟨hlt, h.length, fun _ hc => (le_of_mem_take hl hi' hc).trans_lt hb, h.above⟩

/-- The search goes on below a larger element. -/
theorem Brackets.below_mid (h : Brackets l a lo hi) (hl : l.SortedLT) (hle : lo ≤ i)
    (hlt : i < hi) (hi' : l[i]? = some b) (hb : a < b) : Brackets l a lo i :=
  ⟨hle, hlt.le.trans h.length, h.below, fun _ hc => hb.trans_le (le_of_mem_drop hl hi' hc)⟩

theorem searchBetween_locates (hl : l.SortedLT) (h : Brackets l a lo hi) :
    Locates l a (searchBetween l a lo hi) := by
  fun_induction searchBetween l a lo hi with
  | case1 lo hi hlt mid hnone =>
      have hmid := List.getElem?_eq_none_iff.mp hnone
      have := h.length
      omega
  | case2 lo hi hlt mid b hb hba ih => exact ih (h.above_mid hl (by omega) hb hba)
  | case3 lo hi hlt mid b hb hba hab ih => exact ih (h.below_mid hl (by omega) (by omega) hb hab)
  | case4 lo hi hlt mid b hb hba hab =>
      rw [Locates, hb, le_antisymm (not_lt.mp hab) (not_lt.mp hba)]
  | case5 lo hi hnot =>
      obtain rfl : lo = hi := le_antisymm h.le (not_lt.mp hnot)
      exact ⟨h.length, h.below, h.above⟩

/-- A search in a sorted list is right. -/
theorem binarySearch_locates (hl : l.SortedLT) (a : α) : Locates l a (binarySearch l a) :=
  searchBetween_locates hl ⟨Nat.zero_le _, le_rfl, by simp, by simp⟩

theorem Locates.mem (h : Locates l a (.ok i)) : a ∈ l := List.mem_of_getElem? h

theorem Locates.notMem (h : Locates l a (.error i)) : a ∉ l := by
  intro ha
  rw [← List.take_append_drop i l, List.mem_append] at ha
  exact ha.elim (fun ha => (h.2.1 a ha).false) fun ha => (h.2.2 a ha).false

/-- A search finds what is there. -/
theorem isOk_binarySearch (hl : l.SortedLT) : (binarySearch l a).isOk = true ↔ a ∈ l := by
  have h := binarySearch_locates hl a
  cases hs : binarySearch l a with
  | ok i => exact iff_of_true rfl (hs ▸ h).mem
  | error i => exact iff_of_false (fun h => nomatch h) (hs ▸ h).notMem

/-! ## One element -/

omit [LinearOrder α] in
theorem insertIdx_eq (h : i ≤ l.length) : l.insertIdx i a = l.take i ++ a :: l.drop i := by
  induction l generalizing i with
  | nil =>
      obtain rfl := Nat.le_zero.mp h
      rfl
  | cons b l ih =>
      cases i with
      | zero => rfl
      | succ i =>
          rw [List.insertIdx_succ_cons, ih (Nat.le_of_succ_le_succ h)]
          rfl

/-- An element that is put at its place keeps the list sorted. -/
theorem sortedLT_insertIdx (hl : l.SortedLT) (h : Locates l a (.error i)) :
    (l.insertIdx i a).SortedLT := by
  have hp := hl.pairwise
  rw [← List.take_append_drop i l, List.pairwise_append] at hp
  rw [insertIdx_eq h.1, List.sortedLT_iff_pairwise, List.pairwise_append, List.pairwise_cons]
  refine ⟨hp.1, ⟨h.2.2, hp.2.1⟩, fun b hb c hc => ?_⟩
  obtain rfl | hc := List.mem_cons.mp hc
  · exact h.2.1 b hb
  · exact hp.2.2 b hb c hc

theorem mem_insertIdx (h : Locates l a (.error i)) : b ∈ l.insertIdx i a ↔ b = a ∨ b ∈ l := by
  rw [insertIdx_eq h.1, List.mem_append, List.mem_cons, or_left_comm, ← List.mem_append,
    List.take_append_drop]

theorem length_insertIdx (h : Locates l a (.error i)) :
    (l.insertIdx i a).length = l.length + 1 := by
  rw [List.length_insertIdx, if_pos h.1]

/-- A list stays sorted when an element is taken out. -/
theorem sortedLT_eraseIdx (hl : l.SortedLT) (i : Nat) : (l.eraseIdx i).SortedLT :=
  (hl.pairwise.sublist (List.eraseIdx_sublist l i)).sortedLT

theorem mem_eraseIdx (hl : l.SortedLT) (h : Locates l a (.ok i)) :
    b ∈ l.eraseIdx i ↔ b ≠ a ∧ b ∈ l := by
  obtain ⟨hlt, rfl⟩ := List.getElem?_eq_some_iff.mp h
  rw [← hl.nodup.erase_getElem i hlt, hl.nodup.mem_erase_iff]

/-! ## Many elements -/

/-- Drop what equals its predecessor. -/
def dedup : List α → List α
  | a :: b :: l => if a = b then dedup (b :: l) else a :: dedup (b :: l)
  | l => l

theorem mem_dedup : b ∈ dedup l ↔ b ∈ l := by
  fun_induction dedup l with
  | case1 a l ih => simp [ih]
  | case2 a c l hne ih => simp only [List.mem_cons, ih]
  | case3 l hl => rfl

theorem sortedLT_dedup (h : l.Pairwise (· ≤ ·)) : (dedup l).SortedLT := by
  rw [List.sortedLT_iff_pairwise]
  fun_induction dedup l with
  | case1 a l ih => exact ih h.of_cons
  | case2 a b l hne ih =>
      refine List.pairwise_cons.mpr ⟨fun c hc => ?_, ih h.of_cons⟩
      have hab := List.rel_of_pairwise_cons h (List.mem_cons_self ..)
      obtain rfl | hc := List.mem_cons.mp (mem_dedup.mp hc)
      · exact lt_of_le_of_ne hab hne
      · exact (lt_of_le_of_ne hab hne).trans_le (List.rel_of_pairwise_cons h.of_cons hc)
  | case3 l hl =>
      cases l with
      | nil => exact List.Pairwise.nil
      | cons a l =>
          cases l with
          | nil => exact List.pairwise_singleton _ a
          | cons b l => exact absurd rfl (hl a b l)

/-- The elements of a list, sorted and without duplicates. -/
def sortDedup (l : List α) : List α := dedup (l.mergeSort fun a b => a ≤ b)

theorem sortedLT_sortDedup (l : List α) : (sortDedup l).SortedLT :=
  sortedLT_dedup (List.pairwise_mergeSort' (· ≤ ·) l)

@[simp] theorem mem_sortDedup : b ∈ sortDedup l ↔ b ∈ l := mem_dedup.trans List.mem_mergeSort

/-- The loop of a merge: what is merged so far, and what is left of the two
lists. -/
def mergeLoop : (merged left right : List α) → List α
  | merged, a :: left, b :: right =>
      if a < b then mergeLoop (merged ++ [a]) left (b :: right)
      else mergeLoop (merged ++ [b]) (a :: left) right
  | merged, left, right => merged ++ left ++ right

@[simp] theorem mergeLoop_nil (l : List α) : mergeLoop [] l [] = l := by
  rw [mergeLoop, List.append_nil, List.nil_append]
  rintro a left b right - h
  cases h

theorem mem_mergeLoop {merged left right : List α} :
    b ∈ mergeLoop merged left right ↔ b ∈ merged ∨ b ∈ left ∨ b ∈ right := by
  fun_induction mergeLoop merged left right with
  | case1 merged a left c right hlt ih => simp [ih, or_assoc]
  | case2 merged a left c right hlt ih => simp [ih, or_assoc, or_left_comm]
  | case3 merged left right => rw [List.mem_append, List.mem_append, or_assoc]

theorem length_mergeLoop {merged left right : List α} :
    (mergeLoop merged left right).length = merged.length + left.length + right.length := by
  fun_induction mergeLoop merged left right with
  | case1 merged a left c right hlt ih =>
      simp only [ih, List.length_append, List.length_cons, List.length_nil]
      omega
  | case2 merged a left c right hlt ih =>
      simp only [ih, List.length_append, List.length_cons, List.length_nil]
      omega
  | case3 merged left right => rw [List.length_append, List.length_append]

/-- What is merged so far can be followed by one of the smallest elements that
are left. -/
theorem pairwise_append_singleton {merged l : List α} (h : (merged ++ a :: l).Pairwise (· < ·))
    {r : List α} (hr : (merged ++ r).Pairwise (· < ·)) (ha : ∀ b ∈ r, a < b) :
    (merged ++ [a] ++ r).Pairwise (· < ·) := by
  rw [List.pairwise_append] at h hr
  rw [List.append_assoc, List.pairwise_append]
  refine ⟨hr.1, List.pairwise_cons.mpr ⟨ha, hr.2.1⟩, fun b hb c hc => ?_⟩
  obtain rfl | hc := List.mem_cons.mp hc
  · exact h.2.2 b hb _ (List.mem_cons_self ..)
  · exact hr.2.2 b hb c hc

/-- If what is merged so far can be followed by either list, and the two have no
common element, then the result is sorted. -/
theorem pairwise_mergeLoop {merged left right : List α}
    (hleft : (merged ++ left).Pairwise (· < ·)) (hright : (merged ++ right).Pairwise (· < ·))
    (hd : ∀ a ∈ left, a ∉ right) : (mergeLoop merged left right).Pairwise (· < ·) := by
  fun_induction mergeLoop merged left right with
  | case1 merged a left c right hlt ih =>
      have hc : ∀ b ∈ c :: right, a < b := by
        intro b hb
        obtain rfl | hb := List.mem_cons.mp hb
        · exact hlt
        · exact hlt.trans (List.rel_of_pairwise_cons (List.pairwise_append.mp hright).2.1 hb)
      refine ih ?_ (pairwise_append_singleton hleft hright hc) fun b hb =>
        hd b (List.mem_cons_of_mem _ hb)
      rwa [List.append_assoc]
  | case2 merged a left c right hnot ih =>
      have hlt : c < a := by
        refine lt_of_le_of_ne (not_lt.mp hnot) fun h => ?_
        exact hd a (List.mem_cons_self ..) (h ▸ List.mem_cons_self ..)
      have ha : ∀ b ∈ a :: left, c < b := by
        intro b hb
        obtain rfl | hb := List.mem_cons.mp hb
        · exact hlt
        · exact hlt.trans (List.rel_of_pairwise_cons (List.pairwise_append.mp hleft).2.1 hb)
      refine ih (pairwise_append_singleton hright hleft ha) ?_ fun b hb hmem =>
        hd b hb (List.mem_cons_of_mem _ hmem)
      rwa [List.append_assoc]
  | case3 merged left right hnil =>
      cases left with
      | nil => rwa [List.append_nil]
      | cons a left =>
          cases right with
          | nil => rwa [List.append_nil]
          | cons c right => exact absurd rfl (hnil a left c right rfl)

/-- Merging two sorted lists without a common element gives a sorted list. -/
theorem sortedLT_mergeLoop {left right : List α} (hleft : left.SortedLT)
    (hright : right.SortedLT) (hd : ∀ a ∈ left, a ∉ right) :
    (mergeLoop [] left right).SortedLT :=
  (pairwise_mergeLoop hleft.pairwise hright.pairwise hd).sortedLT

/-- The first elements of a sorted list are its smallest. -/
theorem lt_of_mem_take_of_notMem (hl : l.SortedLT) {n : Nat} (ha : a ∈ l.take n) (hb : b ∈ l)
    (hnot : b ∉ l.take n) : a < b := by
  have hp := hl.pairwise
  rw [← List.take_append_drop n l, List.pairwise_append] at hp
  rw [← List.take_append_drop n l, List.mem_append] at hb
  exact hp.2.2 a ha b (hb.resolve_left hnot)

end SortedList
