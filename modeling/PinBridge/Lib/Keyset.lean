import Mathlib.Data.List.Sort
import Mathlib.Data.List.Chain

/-!
# Pages by key

Rows with distinct keys are read page by page, the largest keys first.  A page holds the
rows with a key below the cursor, at most `limit` of them, and the number of the rows that
were eligible.  While there are more, the smallest key of the page is the next cursor.

No row is skipped and none comes twice, since the rows below the last one of a page are
those that the limit cut off (`filter_lt_getLast`).  `exists_walk` says that the walk ends
and what its pages are.  A next cursor is never the smallest key (`exists_lt_of_next`).
-/

namespace Keyset

variable {α κ : Type*} [LinearOrder κ] (key : α → κ)

/-- The rows below a cursor. -/
def before : Option κ → List α → List α
  | none, rows => rows
  | some c, rows => rows.filter fun r => key r < c

/-- The rows in descending order. -/
def newestFirst (rows : List α) : List α := rows.mergeSort fun a b => key b ≤ key a

/-- A page and the number of the rows it is taken from. -/
structure Page (α : Type*) where
  eligible : Nat
  rows : List α

/-- The page below a cursor. -/
def page (limit : Nat) (rows : List α) (cursor : Option κ) : Page α :=
  ⟨(before key cursor rows).length, (newestFirst key (before key cursor rows)).take limit⟩

/-- The cursor of the page after a page. -/
def next (p : Page α) : Option κ :=
  if p.rows.length < p.eligible then p.rows.getLast?.map key else none

/-- The pages from a cursor on, `none` when the fuel runs out. -/
def walk (limit : Nat) (rows : List α) : Nat → Option κ → Option (List (Page α))
  | 0, _ => none
  | fuel + 1, cursor =>
      let p := page key limit rows cursor
      match next key p with
      | none => some [p]
      | some c => (walk limit rows fuel (some c)).map (p :: ·)

/-- The pages hold all the rows in descending order, and each counts itself and those after
it. -/
structure Covers (rows : List α) (pages : List (Page α)) : Prop where
  rows_eq : pages.flatMap Page.rows = newestFirst key rows
  head : pages.head?.map Page.eligible = some rows.length
  chain : pages.IsChain fun p q => q.eligible + p.rows.length = p.eligible
  last : ∀ p ∈ pages.getLast?, p.eligible = p.rows.length

variable {key} {rows l : List α} {limit n : Nat} {cursor : Option κ} {c : κ} {a : α}

/-! ## The order -/

theorem newestFirst_perm (rows : List α) : (newestFirst key rows).Perm rows :=
  List.mergeSort_perm _ _

theorem length_newestFirst (key : α → κ) (rows : List α) :
    (newestFirst key rows).length = rows.length :=
  (newestFirst_perm rows).length_eq

theorem pairwise_newestFirst (h : (rows.map key).Nodup) :
    (newestFirst key rows).Pairwise fun a b => key b < key a := by
  have hle : (newestFirst key rows).Pairwise fun a b => key b ≤ key a := by
    have hsorted := @List.pairwise_mergeSort α (fun a b => key b ≤ key a)
      (fun a b c hab hbc => by
        simp only [decide_eq_true_eq] at hab hbc ⊢
        exact hbc.trans hab)
      (fun a b => by simpa using le_total (key b) (key a)) rows
    exact hsorted.imp fun hab => by simpa using hab
  have hne : (newestFirst key rows).Pairwise fun a b => key a ≠ key b :=
    List.pairwise_map.mp (((newestFirst_perm rows).map key).nodup_iff.mpr h)
  exact hle.imp₂ (fun _ _ hab hne => lt_of_le_of_ne hab (Ne.symm hne)) hne

/-- The order does not depend on the rows left out. -/
theorem newestFirst_filter (h : (rows.map key).Nodup) (p : α → Bool) :
    newestFirst key (rows.filter p) = (newestFirst key rows).filter p := by
  have hsub : ((rows.filter p).map key).Nodup := h.sublist (List.filter_sublist.map key)
  have hperm : (newestFirst key (rows.filter p)).Perm ((newestFirst key rows).filter p) :=
    (newestFirst_perm _).trans ((newestFirst_perm rows).filter p).symm
  refine hperm.eq_of_pairwise (fun a b _ _ hab hba => absurd hab hba.asymm)
    (pairwise_newestFirst hsub) ((pairwise_newestFirst h).filter p)

theorem nodup_before (h : (rows.map key).Nodup) (cursor : Option κ) :
    ((before key cursor rows).map key).Nodup := by
  cases cursor with
  | none => exact h
  | some c => exact h.sublist (List.filter_sublist.map key)

/-- The rows below the last of a page are the rows after it. -/
theorem filter_lt_getLast (h : l.Pairwise fun a b => key b < key a)
    (hlast : (l.take n).getLast? = some a) : (l.filter fun r => key r < key a) = l.drop n := by
  obtain ⟨init, hinit⟩ := List.getLast?_eq_some_iff.mp hlast
  obtain ⟨hfirst, -, hcut⟩ := List.pairwise_append.mp ((List.take_append_drop n l).symm ▸ h)
  have habove : ∀ r ∈ l.take n, ¬key r < key a := by
    intro r hr hlt
    rw [hinit] at hr hfirst
    obtain hr | hr := List.mem_append.mp hr
    · exact absurd hlt ((List.pairwise_append.mp hfirst).2.2 r hr a (by simp)).asymm
    · rw [List.mem_singleton.mp hr] at hlt
      exact lt_irrefl _ hlt
  have hbelow : ∀ r ∈ l.drop n, key r < key a :=
    fun r hr => hcut a (hinit ▸ List.mem_append_right _ (List.mem_singleton_self a)) r hr
  have htake : ((l.take n).filter fun r => key r < key a) = [] :=
    List.filter_eq_nil_iff.mpr fun r hr => by simpa using habove r hr
  have hdrop : ((l.drop n).filter fun r => key r < key a) = l.drop n :=
    List.filter_eq_self.mpr fun r hr => by simpa using hbelow r hr
  calc (l.filter fun r => key r < key a)
      = ((l.take n ++ l.drop n).filter fun r => key r < key a) := by rw [List.take_append_drop]
    _ = l.drop n := by rw [List.filter_append, htake, hdrop, List.nil_append]

/-! ## One page -/

theorem mem_of_mem_page (h : a ∈ (page key limit rows cursor).rows) : a ∈ rows := by
  have hbefore := (newestFirst_perm _).mem_iff.mp (List.mem_of_mem_take h)
  cases cursor with
  | none => exact hbefore
  | some c => exact List.mem_of_mem_filter hbefore

/-- A next cursor is the key of the last row of the page, and a row below it is left. -/
theorem next_eq_some (h : next key (page key limit rows cursor) = some c) :
    ∃ a, ((newestFirst key (before key cursor rows)).take limit).getLast? = some a ∧
      key a = c ∧ limit < (before key cursor rows).length := by
  rw [next] at h
  split at h
  next hmore =>
    obtain ⟨a, hlast, hkey⟩ := Option.map_eq_some_iff.mp h
    refine ⟨a, hlast, hkey, ?_⟩
    simp only [page, List.length_take, length_newestFirst key] at hmore
    omega
  next => cases h

/-- Without a next cursor the page holds all the rows below the cursor. -/
theorem next_eq_none (hlimit : 0 < limit) (h : next key (page key limit rows cursor) = none) :
    (page key limit rows cursor).rows = newestFirst key (before key cursor rows) := by
  rw [next] at h
  split at h
  next hmore =>
    simp only [page, Option.map_eq_none_iff, List.getLast?_eq_none_iff, List.take_eq_nil_iff]
      at h hmore
    obtain rfl | h := h
    · exact absurd hlimit (lt_irrefl 0)
    · rw [h, List.take_nil, List.length_nil, ← length_newestFirst key, h] at hmore
      exact absurd hmore (lt_irrefl 0)
  next hall =>
    refine List.take_of_length_le ?_
    simp only [page, List.length_take, length_newestFirst] at hall ⊢
    omega

/-- What is below the next cursor are the rows that the page leaves. -/
theorem newestFirst_before_next (h : (rows.map key).Nodup)
    (hnext : next key (page key limit rows cursor) = some c) :
    newestFirst key (before key (some c) rows) =
      (newestFirst key (before key cursor rows)).drop limit := by
  obtain ⟨a, hlast, rfl, -⟩ := next_eq_some hnext
  have hdrop := filter_lt_getLast (pairwise_newestFirst (nodup_before h cursor)) hlast
  have hsorted : newestFirst key (before key (some (key a)) rows) =
      (newestFirst key rows).filter fun r => key r < key a :=
    newestFirst_filter h fun r => decide (key r < key a)
  rw [hsorted, ← hdrop]
  cases cursor with
  | none => rfl
  | some b =>
      -- the last row is itself below the old cursor
      have hmem := (newestFirst_perm _).mem_iff.mp
        (List.mem_of_mem_take (List.mem_of_getLast? hlast))
      have hab : key a < b := by simpa using (List.mem_filter.mp hmem).2
      rw [before, newestFirst_filter h, List.filter_filter]
      refine List.filter_congr fun r _ => ?_
      rw [Bool.eq_iff_iff]
      simpa using fun hlt : key r < key a => hlt.trans hab

/-- A next cursor is the key of a row, and never the smallest one. -/
theorem exists_lt_of_next (h : (rows.map key).Nodup)
    (hnext : next key (page key limit rows cursor) = some c) :
    (∃ r ∈ rows, key r = c) ∧ ∃ r ∈ rows, key r < c := by
  obtain ⟨a, hlast, rfl, hmore⟩ := next_eq_some hnext
  refine ⟨⟨a, mem_of_mem_page (List.mem_of_getLast? hlast), rfl⟩, ?_⟩
  have hrest : (newestFirst key (before key (some (key a)) rows)).length ≠ 0 := by
    rw [newestFirst_before_next h hnext, List.length_drop, length_newestFirst]
    omega
  obtain ⟨r, hr⟩ := List.exists_mem_of_length_pos (Nat.pos_of_ne_zero hrest)
  obtain ⟨hr, hlt⟩ := List.mem_filter.mp ((newestFirst_perm _).mem_iff.mp hr)
  exact ⟨r, hr, by simpa using hlt⟩

/-! ## All pages -/

/-- A page in front of the pages after it. -/
theorem Covers.cons (h : (rows.map key).Nodup) {pages : List (Page α)}
    (hnext : next key (page key limit rows cursor) = some c)
    (hpages : Covers key (before key (some c) rows) pages) :
    Covers key (before key cursor rows) (page key limit rows cursor :: pages) := by
  obtain ⟨a, -, -, hmore⟩ := next_eq_some hnext
  have hrest := newestFirst_before_next h hnext
  have hcount : (before key (some c) rows).length =
      (before key cursor rows).length - limit := by
    rw [← length_newestFirst key, hrest, List.length_drop, length_newestFirst]
  refine ⟨?_, rfl, ?_, fun p hp => ?_⟩
  · rw [List.flatMap_cons, hpages.rows_eq, hrest]
    exact List.take_append_drop limit _
  · cases pages with
    | nil => exact List.isChain_singleton _
    | cons q pages =>
        refine List.isChain_cons_cons.mpr ⟨?_, hpages.chain⟩
        have hq : q.eligible = (before key (some c) rows).length := by simpa using hpages.head
        rw [hq, hcount]
        simp only [page, List.length_take, length_newestFirst]
        omega
  · cases pages with
    | nil => exact absurd hpages.head (by simp)
    | cons q pages => exact hpages.last p (by simpa using hp)

/-- The walk ends, with pages that cover the rows below its cursor. -/
theorem exists_walk (hlimit : 0 < limit) (h : (rows.map key).Nodup) (cursor : Option κ) :
    ∃ pages, Covers key (before key cursor rows) pages ∧
      ∀ fuel, (before key cursor rows).length < fuel →
        walk key limit rows fuel cursor = some pages := by
  generalize hn : (before key cursor rows).length = n
  induction n using Nat.strongRecOn generalizing cursor with
  | ind n ih =>
      cases hnext : next key (page key limit rows cursor) with
      | none =>
          have hall := next_eq_none hlimit hnext
          refine ⟨[page key limit rows cursor], ⟨?_, rfl, List.isChain_singleton _, ?_⟩, ?_⟩
          · rw [List.flatMap_singleton, hall]
          · intro p hp
            obtain rfl : page key limit rows cursor = p := by simpa using hp
            rw [hall, length_newestFirst]
            rfl
          · intro fuel hfuel
            obtain ⟨fuel, rfl⟩ := Nat.exists_eq_add_of_lt hfuel
            simp only [walk, hnext]
      | some c =>
          obtain ⟨a, -, -, hmore⟩ := next_eq_some hnext
          have hcount : (before key (some c) rows).length = n - limit := by
            rw [← length_newestFirst key, newestFirst_before_next h hnext,
              List.length_drop, length_newestFirst, hn]
          obtain ⟨pages, hpages, hwalk⟩ := ih _ (by omega) (some c) hcount
          refine ⟨page key limit rows cursor :: pages, hpages.cons h hnext, fun fuel hfuel => ?_⟩
          obtain ⟨fuel, rfl⟩ := Nat.exists_eq_add_of_lt hfuel
          simp only [walk, hnext]
          rw [hwalk _ (by omega)]
          rfl

end Keyset
