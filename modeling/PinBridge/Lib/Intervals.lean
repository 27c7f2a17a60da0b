import Mathlib.Data.List.Pairwise
import Mathlib.Data.List.Sort
import Mathlib.Order.Defs.LinearOrder

/-!
# Half-open intervals

Things with a start and a stop in a linear order.  Two of them overlap if each starts before the
other stops.  Of things that do not overlap, at most one contains a nonempty interval, so the
first one that contains it is the only one (`length_filter_le_one`), in any order of the things
(`eq_of_perm_of_length_le_one`).

Sorted by their start, nonempty things do not overlap if neighbours do not
(`pairwise_separated_iff`).  `searchBy` finds the one that contains a point, or the place of the
point between the others (`searchBy_locates`).
-/

namespace Intervals

variable {ι α β : Type*}

/-! ## Overlaps -/

section Overlap

variable [LinearOrder α] (start stop : ι → α)

/-- Each starts before the other stops. -/
def Overlap (a b : ι) : Prop := start a < stop b ∧ start b < stop a

instance (a b : ι) : Decidable (Overlap start stop a b) := inferInstanceAs (Decidable (_ ∧ _))

variable {start stop} {a b : ι} {x y : α}

theorem Overlap.symm (h : Overlap start stop a b) : Overlap start stop b a := And.symm h

/-- A nonempty interval lies in both. -/
theorem Overlap.of_common (hxy : x < y) (ha : start a ≤ x) (ha' : y ≤ stop a) (hb : start b ≤ x)
    (hb' : y ≤ stop b) : Overlap start stop a b :=
  ⟨ha.trans_lt (hxy.trans_le hb'), hb.trans_lt (hxy.trans_le ha')⟩

end Overlap

/-! ## The only match -/

/-- The first value is that of the first thing that has one. -/
theorem findSome?_eq_bind (f : ι → Option β) (l : List ι) :
    l.findSome? f = (l.filter fun a => (f a).isSome).head?.bind f := by
  induction l with
  | nil => rfl
  | cons a l ih =>
      cases h : f a with
      | none => simp [h, ih]
      | some b => simp [h]

/-- When no two things have a value, at most one has. -/
theorem length_filter_le_one {R : ι → ι → Prop} {p : ι → Bool} {l : List ι} (hl : l.Pairwise R)
    (hp : ∀ a b, R a b → p a = true → p b = true → False) : (l.filter p).length ≤ 1 := by
  have hpair : (l.filter p).Pairwise fun _ _ => False := by
    rw [List.pairwise_filter]
    exact hl.imp fun hR ha hb => hp _ _ hR ha hb
  match h : l.filter p with
  | [] => exact Nat.zero_le 1
  | [a] => exact Nat.le_refl 1
  | a :: b :: rest =>
      rw [h, List.pairwise_cons] at hpair
      exact (hpair.1 b List.mem_cons_self).elim

/-- Two orders of a list with at most one element are equal. -/
theorem eq_of_perm_of_length_le_one {l l' : List ι} (h : l.Perm l') (hl : l.length ≤ 1) :
    l = l' := by
  match l with
  | [] => exact h.nil_eq
  | [a] => exact List.singleton_perm.mp h ▸ rfl
  | a :: b :: l => simp at hl

/-! ## Sorted intervals -/

section Sorted

variable [LinearOrder α] {start stop : ι → α} {l : List ι}

/-- One thing stops before the next one starts. -/
abbrev Separated (start stop : ι → α) (a b : ι) : Prop := stop a ≤ start b

theorem pairwise_of_isChain (hne : ∀ a ∈ l, start a < stop a)
    (h : l.IsChain (Separated start stop)) : l.Pairwise (Separated start stop) := by
  induction l with
  | nil => exact .nil
  | cons a l ih =>
      have hl := ih (fun b hb => hne b (List.mem_cons_of_mem a hb)) h.of_cons
      refine List.pairwise_cons.mpr ⟨fun b hb => ?_, hl⟩
      match l, h with
      | c :: l, h =>
          have hac : stop a ≤ start c := (List.isChain_cons_cons.mp h).1
          obtain rfl | hb := List.mem_cons.mp hb
          · exact hac
          · have hcb : stop c ≤ start b := (List.pairwise_cons.mp hl).1 b hb
            exact (hac.trans (hne c (by simp)).le).trans hcb

/-- Sorted nonempty things do not overlap if neighbours are separated. -/
theorem isChain_separated_iff (hne : ∀ a ∈ l, start a < stop a)
    (hsorted : l.Pairwise fun a b => start a ≤ start b) :
    l.IsChain (Separated start stop) ↔ l.Pairwise fun a b => ¬Overlap start stop a b := by
  constructor
  · intro h
    exact (pairwise_of_isChain hne h).imp fun hab hoverlap => hoverlap.2.not_ge hab
  · intro h
    have hboth := h.and hsorted
    refine (hboth.imp_of_mem fun {a b} _ hb hab => ?_).isChain
    exact not_lt.mp fun hlt => hab.1 ⟨hab.2.trans_lt (hne b hb), hlt⟩

end Sorted

/-! ## Search -/

/-- The search between two places, by what a thing is to the point. -/
def searchBetween (cmp : ι → Ordering) (l : List ι) (lo hi : Nat) : Except Nat Nat :=
  if lo < hi then
    let mid := lo + (hi - lo) / 2
    match l[mid]? with
    | none => .error lo
    | some b =>
        match cmp b with
        | .lt => searchBetween cmp l (mid + 1) hi
        | .gt => searchBetween cmp l lo mid
        | .eq => .ok mid
  else .error lo
  termination_by hi - lo

/-- The place of a thing that is equal to the point, or of the point. -/
def searchBy (cmp : ι → Ordering) (l : List ι) : Except Nat Nat :=
  searchBetween cmp l 0 l.length

/-- The things before the point stand before the others, those after it after the others. -/
def Ordered (cmp : ι → Ordering) (l : List ι) : Prop :=
  l.Pairwise fun a b => (cmp b = .lt → cmp a = .lt) ∧ (cmp a = .gt → cmp b = .gt)

/-- The result of a search is right. -/
def Locates (cmp : ι → Ordering) (l : List ι) : Except Nat Nat → Prop
  | .ok i => ∃ b, l[i]? = some b ∧ cmp b = .eq
  | .error i => (∀ b ∈ l.take i, cmp b = .lt) ∧ ∀ b ∈ l.drop i, cmp b = .gt

variable {cmp : ι → Ordering} {l : List ι} {lo hi i : Nat} {b c : ι}

theorem Ordered.lt_of_mem_take (hl : Ordered cmp l) (hi : l[i]? = some b) (hb : cmp b = .lt)
    (hc : c ∈ l.take (i + 1)) : cmp c = .lt := by
  obtain ⟨hlt, rfl⟩ := List.getElem?_eq_some_iff.mp hi
  obtain ⟨j, hj, rfl⟩ := List.mem_take_iff_getElem.mp hc
  obtain hji | rfl := Nat.lt_or_eq_of_le (show j ≤ i by omega)
  · exact (List.pairwise_iff_getElem.mp hl j i (by omega) hlt hji).1 hb
  · exact hb

theorem Ordered.gt_of_mem_drop (hl : Ordered cmp l) (hi : l[i]? = some b) (hb : cmp b = .gt)
    (hc : c ∈ l.drop i) : cmp c = .gt := by
  obtain ⟨hlt, rfl⟩ := List.getElem?_eq_some_iff.mp hi
  obtain ⟨j, hj, rfl⟩ := List.mem_drop_iff_getElem.mp hc
  obtain hji | hji := Nat.eq_or_lt_of_le (Nat.le_add_right i j)
  · rw [← hb]
    congr 2
    exact hji.symm
  · exact (List.pairwise_iff_getElem.mp hl i (i + j) hlt (by omega) hji).2 hb

theorem searchBetween_locates (hl : Ordered cmp l) (hle : lo ≤ hi) (hlen : hi ≤ l.length)
    (hlow : ∀ b ∈ l.take lo, cmp b = .lt) (hhigh : ∀ b ∈ l.drop hi, cmp b = .gt) :
    Locates cmp l (searchBetween cmp l lo hi) := by
  fun_induction searchBetween cmp l lo hi with
  | case1 lo hi hlt mid hnone =>
      have hmid := List.getElem?_eq_none_iff.mp hnone
      omega
  | case2 lo hi hlt mid b hb hcmp ih =>
      exact ih (by omega) hlen (fun c hc => hl.lt_of_mem_take hb hcmp hc) hhigh
  | case3 lo hi hlt mid b hb hcmp ih =>
      exact ih (by omega) (by omega) hlow fun c hc => hl.gt_of_mem_drop hb hcmp hc
  | case4 lo hi hlt mid b hb hcmp => exact ⟨b, hb, hcmp⟩
  | case5 lo hi hnot =>
      obtain rfl : lo = hi := by omega
      exact ⟨hlow, hhigh⟩

/-- A search in an ordered list is right. -/
theorem searchBy_locates (hl : Ordered cmp l) : Locates cmp l (searchBy cmp l) :=
  searchBetween_locates hl (Nat.zero_le _) (Nat.le_refl _) (by simp) (by simp)

end Intervals
