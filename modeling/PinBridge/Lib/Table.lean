import Mathlib.Data.List.AList
import Mathlib.Data.List.Count

/-!
# Tables

A table has at most one entry for a key.  It is an association list whose
values are of one type.

`Table.gather` lists what the entries contribute, an entry any number of
elements.  How often an element is listed changes with an insertion or an
erasure by what the old and the new entry contribute (`count_gather_insert`,
`count_gather_erase`).  So a counter that follows the entries one by one always
equals the count.
-/

/-- A table with one entry for a key. -/
abbrev Table (κ α : Type*) : Type _ := AList fun _ : κ => α

namespace Table

variable {κ α β : Type*}

section

variable [DecidableEq κ]

/-- Change the entry of a key if there is one. -/
def modify (t : Table κ α) (key : κ) (f : α → α) : Table κ α :=
  match t.lookup key with
  | none => t
  | some a => t.insert key (f a)

theorem lookup_modify (t : Table κ α) (key key' : κ) (f : α → α) :
    (t.modify key f).lookup key' =
      if key' = key then (t.lookup key).map f else t.lookup key' := by
  rw [modify]
  cases ha : t.lookup key with
  | none =>
      show t.lookup key' = _
      split
      next hkey => rw [hkey, ha, Option.map_none]
      next => rfl
  | some a =>
      show (t.insert key (f a)).lookup key' = _
      split
      next hkey => rw [hkey, Option.map_some, AList.lookup_insert]
      next hkey => exact AList.lookup_insert_ne hkey

/-- An entry that is left after an erasure was there before. -/
theorem lookup_of_erase {t : Table κ α} {key key' : κ} {a : α}
    (h : (t.erase key).lookup key' = some a) : t.lookup key' = some a := by
  by_cases hkey : key' = key
  · rw [hkey, AList.lookup_erase] at h
    cases h
  · rwa [AList.lookup_erase_ne hkey] at h

theorem lookup_foldl_erase (t : Table κ α) (keys : List κ) (key : κ) :
    (keys.foldl (fun t key => t.erase key) t).lookup key =
      if key ∈ keys then none else t.lookup key := by
  induction keys generalizing t with
  | nil => simp
  | cons k keys ih =>
      rw [List.foldl_cons, ih]
      by_cases hk : key = k
      · rw [hk, AList.lookup_erase, ite_self, if_pos List.mem_cons_self]
      · simp [hk, AList.lookup_erase_ne hk]

end

/-! ## What the entries contribute -/

/-- The contributions of all entries. -/
def gather (f : κ → α → List β) (t : Table κ α) : List β := t.entries.flatMap fun x => f x.1 x.2

@[simp] theorem gather_empty (f : κ → α → List β) : gather f (∅ : Table κ α) = [] := rfl

theorem mem_gather [DecidableEq κ] {f : κ → α → List β} {t : Table κ α} {b : β} :
    b ∈ t.gather f ↔ ∃ key a, t.lookup key = some a ∧ b ∈ f key a := by
  rw [gather, List.mem_flatMap]
  constructor
  · rintro ⟨x, hx, hb⟩
    exact ⟨x.1, x.2, AList.mem_lookup_iff.mpr hx, hb⟩
  · rintro ⟨key, a, hlookup, hb⟩
    exact ⟨⟨key, a⟩, AList.mem_lookup_iff.mp hlookup, hb⟩

theorem count_singleton_eq [DecidableEq β] (a b : β) :
    [a].count b = if b = a then 1 else 0 := by
  by_cases h : b = a
  · rw [h, if_pos rfl, List.count_singleton_self]
  · rw [if_neg h, List.count_singleton, if_neg fun hb => h (beq_iff_eq.mp hb).symm]

section

variable [DecidableEq κ]

/-- The contribution of the entry of a key. -/
def share (f : κ → α → List β) (t : Table κ α) (key : κ) : List β :=
  (t.lookup key).elim [] (f key)

variable [DecidableEq β] (f : κ → α → List β) (t : Table κ α) (key : κ) (b : β)

theorem count_gather_erase :
    (gather f (t.erase key)).count b + (t.share f key).count b = (t.gather f).count b := by
  by_cases hkey : key ∈ t
  · obtain ⟨a, l₁, l₂, hl₁, heq, herase⟩ := List.exists_of_kerase hkey
    have hlookup : t.lookup key = some a :=
      AList.mem_lookup_iff.mpr (heq ▸ List.mem_append_right _ List.mem_cons_self)
    have hentries : (t.erase key).entries = l₁ ++ l₂ := herase
    rw [share, hlookup, gather, gather, hentries, heq]
    simp only [List.flatMap_append, List.flatMap_cons, List.count_append, Option.elim_some]
    omega
  · have hlookup : t.lookup key = none := AList.lookup_eq_none.mpr hkey
    have hentries : (t.erase key).entries = t.entries := List.kerase_of_notMem_keys hkey
    rw [share, hlookup, gather, gather, hentries]
    rfl

theorem count_gather_insert (a : α) :
    (gather f (t.insert key a)).count b + (t.share f key).count b =
      (t.gather f).count b + (f key a).count b := by
  have hinsert : (gather f (t.insert key a)).count b =
      (f key a).count b + (gather f (t.erase key)).count b := by
    rw [gather, AList.entries_insert, List.flatMap_cons, List.count_append]
    rfl
  rw [hinsert, Nat.add_assoc, count_gather_erase, Nat.add_comm]

end

end Table
