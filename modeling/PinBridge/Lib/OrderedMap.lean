import Mathlib.Data.List.Dedup
import Mathlib.Data.List.Sort
import PinBridge.Lib.Archive

/-!
# Ordered maps of bounded size

The entries of a map are kept in the order of their keys, and an insertion that makes the map too
large drops the smallest keys.

`entries_insertWithin` says that the map is at every moment the end of the map that never drops
anything (`collect`), and `get_eq_some_iff` says which entries that are: those with fewer than `cap`
greater keys.
-/

/-- A map whose entries are in the order of their keys. -/
structure OrderedMap (κ α : Type*) [LinearOrder κ] where
  entries : List (κ × α)
  sorted : entries.Pairwise fun e f => e.1 < f.1

namespace OrderedMap

variable {κ α : Type*} [LinearOrder κ]

/-- Put an entry at its place, where it replaces the one of the same key. -/
def insertEntry (k : κ) (v : α) : List (κ × α) → List (κ × α)
  | [] => [(k, v)]
  | e :: es =>
      if k < e.1 then (k, v) :: e :: es
      else if k = e.1 then (k, v) :: es
      else e :: insertEntry k v es

variable {k : κ} {v : α} {e : κ × α} {es : List (κ × α)}

theorem mem_insertEntry (h : ∀ f ∈ es, f.1 ≠ k) : e ∈ insertEntry k v es ↔ e = (k, v) ∨ e ∈ es := by
  induction es with
  | nil => simp [insertEntry]
  | cons f es ih =>
      rw [List.forall_mem_cons] at h
      rw [insertEntry, if_neg h.1.symm]
      split
      · rw [List.mem_cons]
      · rw [List.mem_cons, ih h.2, List.mem_cons]
        exact or_left_comm

theorem fst_mem_insertEntry (he : e ∈ insertEntry k v es) : e.1 = k ∨ e ∈ es := by
  induction es with
  | nil =>
      rw [insertEntry, List.mem_singleton] at he
      exact .inl (congrArg Prod.fst he)
  | cons f es ih =>
      rw [insertEntry] at he
      split at he
      · rcases List.mem_cons.mp he with rfl | he
        · exact .inl rfl
        · exact .inr he
      · split at he
        · rcases List.mem_cons.mp he with rfl | he
          · exact .inl rfl
          · exact .inr (List.mem_cons_of_mem _ he)
        · rcases List.mem_cons.mp he with rfl | he
          · exact .inr List.mem_cons_self
          · exact (ih he).imp_right (List.mem_cons_of_mem _)

theorem sorted_insertEntry (h : es.Pairwise fun e f => e.1 < f.1) :
    (insertEntry k v es).Pairwise fun e f => e.1 < f.1 := by
  induction es with
  | nil => exact List.pairwise_singleton ..
  | cons f es ih =>
      rw [List.pairwise_cons] at h
      obtain ⟨hf, hes⟩ := h
      rw [insertEntry]
      split
      next hlt =>
        refine List.pairwise_cons.mpr ⟨?_, List.pairwise_cons.mpr ⟨hf, hes⟩⟩
        intro g hg
        rcases List.mem_cons.mp hg with rfl | hg
        · exact hlt
        · exact hlt.trans (hf g hg)
      next hnot =>
        split
        next heq =>
          refine List.pairwise_cons.mpr ⟨?_, hes⟩
          intro g hg
          rw [heq]
          exact hf g hg
        next hne =>
          refine List.pairwise_cons.mpr ⟨?_, ih hes⟩
          intro g hg
          rcases fst_mem_insertEntry hg with heq | hg
          · rw [heq]
            exact lt_of_le_of_ne (not_lt.mp hnot) (Ne.symm hne)
          · exact hf g hg

theorem length_insertEntry (h : ∀ f ∈ es, f.1 ≠ k) :
    (insertEntry k v es).length = es.length + 1 := by
  induction es with
  | nil => rfl
  | cons f es ih =>
      rw [List.forall_mem_cons] at h
      rw [insertEntry, if_neg h.1.symm]
      split
      · rfl
      · rw [List.length_cons, ih h.2, List.length_cons]

/-! ## The map -/

/-- The map without entries. -/
def empty : OrderedMap κ α := ⟨[], .nil⟩

/-- The value of a key. -/
def get (m : OrderedMap κ α) (k : κ) : Option α :=
  (m.entries.find? fun e => e.1 = k).map Prod.snd

/-- Insert an entry, and drop the smallest keys that exceed the capacity. -/
def insertWithin (cap : ℕ) (m : OrderedMap κ α) (k : κ) (v : α) : OrderedMap κ α where
  entries := Archive.trim cap (insertEntry k v m.entries)
  sorted := by
    rw [Archive.trim_eq_rtake, List.rtake]
    exact (sorted_insertEntry m.sorted).sublist (List.drop_sublist _ _)

theorem nodup_keys {es : List (κ × α)} (h : es.Pairwise fun e f => e.1 < f.1) :
    (es.map Prod.fst).Nodup := by
  rw [List.Nodup, List.pairwise_map]
  exact h.imp fun hlt => hlt.ne

theorem get_eq_some {m : OrderedMap κ α} : m.get k = some v ↔ (k, v) ∈ m.entries := by
  rw [get, Option.map_eq_some_iff]
  constructor
  · rintro ⟨e, he, rfl⟩
    have hkey := List.find?_some he
    have hmem := List.mem_of_find?_eq_some he
    rw [decide_eq_true_iff] at hkey
    rwa [← hkey]
  · intro hmem
    obtain ⟨i, hi⟩ := List.mem_iff_getElem?.mp hmem
    have hfind : m.entries.find? (fun e => e.1 = k) = some (k, v) :=
      Archive.find?_of_nodup (nodup_keys m.sorted) hi
    exact ⟨(k, v), hfind, rfl⟩

/-- Insert an entry unless the key has one already. -/
def orInsert (m : OrderedMap κ α) (k : κ) (v : α) : OrderedMap κ α :=
  if (m.get k).isSome then m else ⟨insertEntry k v m.entries, sorted_insertEntry m.sorted⟩

theorem notMem_of_get_eq_none {m : OrderedMap κ α} (h : m.get k = none) :
    ∀ f ∈ m.entries, f.1 ≠ k := by
  intro f hf heq
  have hsome : m.get k = some f.2 := get_eq_some.mpr (heq ▸ hf)
  rw [h] at hsome
  cases hsome

theorem get_orInsert {m : OrderedMap κ α} (k' : κ) :
    (m.orInsert k v).get k' = if k' = k then some ((m.get k).getD v) else m.get k' := by
  rw [orInsert]
  cases hget : m.get k with
  | some w =>
      rw [Option.isSome_some, if_pos rfl]
      split
      next heq =>
        rw [heq]
        exact hget
      next => rfl
  | none =>
      have hfresh := notMem_of_get_eq_none hget
      refine Option.ext fun w => ?_
      rw [if_neg (by simp), get_eq_some, mem_insertEntry hfresh, Prod.mk.injEq]
      split
      next heq =>
        rw [Option.getD_none, Option.some.injEq]
        constructor
        · rintro (⟨-, rfl⟩ | hmem)
          · rfl
          · exact absurd heq (hfresh _ hmem)
        · rintro rfl
          exact .inl ⟨heq, rfl⟩
      next hne =>
        rw [get_eq_some]
        exact or_iff_right fun hboth => hne hboth.1

/-- Of several entries with one key the first one stays. -/
theorem get_foldl_orInsert (l : List (κ × α)) (m : OrderedMap κ α) (k : κ) :
    (l.foldl (fun m e => m.orInsert e.1 e.2) m).get k =
      (m.get k).or ((l.find? fun e => e.1 = k).map Prod.snd) := by
  induction l generalizing m with
  | nil => simp
  | cons e l ih =>
      rw [List.foldl_cons, ih, get_orInsert]
      by_cases heq : k = e.1
      · rw [if_pos heq, ← heq, List.find?_cons_of_pos (by simp [heq])]
        cases m.get k <;> rfl
      · rw [if_neg heq, List.find?_cons_of_neg (by simpa using Ne.symm heq)]

/-- There is one entry for each key that has been inserted. -/
theorem length_foldl_orInsert (l : List (κ × α)) :
    (l.foldl (fun m e => m.orInsert e.1 e.2) empty).entries.length =
      (l.map Prod.fst).dedup.length := by
  generalize hm : l.foldl (fun m e => m.orInsert e.1 e.2) empty = m
  have hget : ∀ k, m.get k = (l.find? fun e => e.1 = k).map Prod.snd := by
    intro k
    rw [← hm, get_foldl_orInsert]
    rfl
  have hkeys : ∀ k, k ∈ m.entries.map Prod.fst ↔ k ∈ (l.map Prod.fst).dedup := by
    intro k
    rw [List.mem_dedup]
    constructor
    · intro hk
      obtain ⟨e, he, rfl⟩ := List.mem_map.mp hk
      have hfound := get_eq_some.mpr he
      rw [hget] at hfound
      obtain ⟨f, hf, -⟩ := Option.map_eq_some_iff.mp hfound
      have hkey := List.find?_some hf
      rw [decide_eq_true_iff] at hkey
      exact List.mem_map.mpr ⟨f, List.mem_of_find?_eq_some hf, hkey⟩
    · intro hk
      obtain ⟨e, he, rfl⟩ := List.mem_map.mp hk
      have hsome : (l.find? fun f => f.1 = e.1).isSome := List.find?_isSome.mpr ⟨e, he, by simp⟩
      obtain ⟨f, hf⟩ := Option.isSome_iff_exists.mp hsome
      have hfound := hget e.1
      rw [hf] at hfound
      exact List.mem_map.mpr ⟨(e.1, f.2), get_eq_some.mp hfound, rfl⟩
  have hperm := (List.perm_ext_iff_of_nodup (nodup_keys m.sorted) (List.nodup_dedup _)).mpr hkeys
  rw [← hperm.length_eq, List.length_map]

/-! ## The entries that are left -/

/-- A new key goes to the same place in the end of a map, or is dropped at once. -/
theorem trim_insertEntry {cap : ℕ} (h : es.Pairwise fun e f => e.1 < f.1)
    (hk : ∀ f ∈ es, f.1 ≠ k) :
    Archive.trim cap (insertEntry k v (es.rtake cap)) = (insertEntry k v es).rtake cap := by
  rw [Archive.trim_eq_rtake]
  induction es with
  | nil => rw [List.rtake_nil]
  | cons f es ih =>
      rw [List.pairwise_cons] at h
      rw [List.forall_mem_cons] at hk
      rw [Archive.rtake_cons]
      split
      next hlong =>
        rw [insertEntry, if_neg hk.1.symm]
        split
        next hlt =>
          -- the new key is smaller than all that are left
          have hsmall : ∀ g ∈ es.rtake cap, k < g.1 := fun g hg =>
            hlt.trans (h.1 g (List.mem_of_mem_drop hg))
          have hhead : insertEntry k v (es.rtake cap) = (k, v) :: es.rtake cap := by
            cases hes : es.rtake cap with
            | nil => rfl
            | cons g gs => rw [insertEntry, if_pos (hsmall g (by rw [hes]; simp))]
          have hlen : (es.rtake cap).length = cap := by
            rw [Archive.length_rtake]
            omega
          rw [hhead, Archive.rtake_cons, if_pos (by omega), Archive.rtake_cons,
            if_pos (by simp; omega), Archive.rtake_cons, if_pos hlong, List.rtake, hlen,
            Nat.sub_self, List.drop_zero]
        next hlt =>
          rw [ih h.2 hk.2, Archive.rtake_cons, if_pos]
          rw [length_insertEntry hk.2]
          omega
      next hshort => rfl

/-- The entries with greater keys. -/
def above (k : κ) (es : List (κ × α)) : List (κ × α) := es.filter fun f => k < f.1

/-- Those entries are left that have fewer than `cap` greater keys. -/
theorem mem_rtake {cap : ℕ} (h : es.Pairwise fun e f => e.1 < f.1) (he : e ∈ es) :
    e ∈ es.rtake cap ↔ (above e.1 es).length < cap := by
  rw [above]
  induction es with
  | nil => cases he
  | cons f es ih =>
      rw [List.pairwise_cons] at h
      rw [Archive.rtake_cons]
      rcases List.mem_cons.mp he with rfl | hmem
      · have hall : es.filter (fun f => e.1 < f.1) = es := by
          rw [List.filter_eq_self]
          intro f hf
          simpa using h.1 f hf
        rw [List.filter_cons_of_neg (by simp), hall]
        split
        next hlong =>
          refine iff_of_false (fun hin => ?_) (by omega)
          exact absurd (h.1 e (List.mem_of_mem_drop hin)) (lt_irrefl _)
        next hshort => exact iff_of_true List.mem_cons_self (by omega)
      · have hnot : ¬ e.1 < f.1 := not_lt.mpr (h.1 e hmem).le
        rw [List.filter_cons_of_neg (by simpa using hnot)]
        split
        next hlong => exact ih h.2 hmem
        next hshort =>
          refine iff_of_true (List.mem_cons_of_mem _ hmem) ?_
          have hlt : (es.filter fun f => e.1 < f.1).length < es.length :=
            List.length_filter_lt_length_iff_exists.mpr ⟨e, hmem, by simp⟩
          omega

/-! ## Maps and their logs -/

theorem insertEntry_perm (h : ∀ f ∈ es, f.1 ≠ k) : (insertEntry k v es).Perm ((k, v) :: es) := by
  induction es with
  | nil => exact .refl _
  | cons f es ih =>
      rw [List.forall_mem_cons] at h
      rw [insertEntry, if_neg h.1.symm]
      split
      · exact .refl _
      · exact ((ih h.2).cons f).trans (.swap ..)

/-- All entries of a log, in the order of their keys. -/
def collect (log : List (κ × α)) : List (κ × α) :=
  log.foldl (fun es e => insertEntry e.1 e.2 es) []

variable {log : List (κ × α)} {cap : ℕ}

theorem collect_concat (log : List (κ × α)) (k : κ) (v : α) :
    collect (log ++ [(k, v)]) = insertEntry k v (collect log) := by
  rw [collect, List.foldl_append]
  rfl

theorem sorted_collect (log : List (κ × α)) :
    (collect log).Pairwise fun e f => e.1 < f.1 := by
  induction log using List.reverseRecOn with
  | nil => exact .nil
  | append_singleton log e ih =>
      rw [collect_concat]
      exact sorted_insertEntry ih

/-- While the keys are new, nothing is replaced. -/
theorem collect_perm (h : (log.map Prod.fst).Nodup) : (collect log).Perm log := by
  induction log using List.reverseRecOn with
  | nil => exact .refl _
  | append_singleton log e ih =>
      rw [List.map_append, List.nodup_append] at h
      obtain ⟨hnodup, -, hnew⟩ := h
      have hperm := ih hnodup
      have hfresh : ∀ f ∈ collect log, f.1 ≠ e.1 := by
        intro f hf
        exact hnew f.1 (List.mem_map_of_mem (hperm.mem_iff.mp hf)) e.1 (by simp)
      rw [collect_concat]
      have happend := (List.perm_append_singleton e log).symm
      exact (insertEntry_perm hfresh).trans ((hperm.cons e).trans happend)

/-- The map stays the end of what has been inserted. -/
theorem entries_insertWithin {m : OrderedMap κ α} (hm : m.entries = (collect log).rtake cap)
    (h : ((log ++ [(k, v)]).map Prod.fst).Nodup) :
    (m.insertWithin cap k v).entries = (collect (log ++ [(k, v)])).rtake cap := by
  rw [List.map_append, List.nodup_append] at h
  obtain ⟨hnodup, -, hnew⟩ := h
  have hfresh : ∀ f ∈ collect log, f.1 ≠ k := by
    intro f hf
    exact hnew f.1 (List.mem_map_of_mem ((collect_perm hnodup).mem_iff.mp hf)) k (by simp)
  rw [collect_concat, ← trim_insertEntry (sorted_collect log) hfresh, ← hm]
  rfl

/-- What is found is what was inserted, unless enough greater keys were. -/
theorem get_eq_some_iff {m : OrderedMap κ α} (hm : m.entries = (collect log).rtake cap)
    (h : (log.map Prod.fst).Nodup) :
    m.get k = some v ↔ (k, v) ∈ log ∧ (above k log).length < cap := by
  have hperm := collect_perm h
  have hlength : (above k (collect log)).length = (above k log).length := by
    rw [above, above]
    exact (hperm.filter _).length_eq
  rw [get_eq_some, hm, ← hlength]
  constructor
  · intro hmem
    have hin := List.mem_of_mem_drop hmem
    exact ⟨hperm.mem_iff.mp hin, (mem_rtake (sorted_collect log) hin).mp hmem⟩
  · rintro ⟨hin, hfew⟩
    exact (mem_rtake (sorted_collect log) (hperm.mem_iff.mpr hin)).mpr hfew

end OrderedMap
