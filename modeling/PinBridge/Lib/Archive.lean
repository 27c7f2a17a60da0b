import Mathlib.Data.List.DropRight
import Mathlib.Data.List.Nodup

/-!
# Archives

An archive keeps the last entries of a log that grows at its end.  Its entries have keys, and the
holder of a key may change the entry, also when it has left the archive already.

`trim_concat` says that an archive stays one when the log grows.  While no two entries of the log
have the same key, a change through a key changes what it should (`updateFirst_rtake`), and a look
up finds what is left (`find?_rtake`).
-/

namespace Archive

variable {α κ : Type*}

/-- Drop the oldest entries that exceed the capacity. -/
def trim (cap : ℕ) : List α → List α
  | [] => []
  | a :: as => if cap < as.length + 1 then trim cap as else a :: as

theorem trim_eq_rtake (cap : ℕ) (as : List α) : trim cap as = as.rtake cap := by
  induction as with
  | nil => simp [trim]
  | cons a as ih =>
      rw [trim, List.rtake]
      split
      next hlong =>
        rw [ih, List.rtake, List.length_cons, Nat.succ_sub (Nat.le_of_lt_succ hlong),
          List.drop_succ_cons]
      next hshort => rw [List.length_cons, Nat.sub_eq_zero_of_le (by omega), List.drop_zero]

theorem rtake_cons (cap : ℕ) (a : α) (as : List α) :
    (a :: as).rtake cap = if cap < as.length + 1 then as.rtake cap else a :: as := by
  rw [← trim_eq_rtake, trim, trim_eq_rtake]

theorem length_rtake (cap : ℕ) (as : List α) : (as.rtake cap).length = min cap as.length := by
  rw [List.rtake, List.length_drop]
  omega

/-- What is left when the log has grown by an entry. -/
theorem trim_concat (cap : ℕ) (log : List α) (a : α) :
    trim cap (log.rtake cap ++ [a]) = (log ++ [a]).rtake cap := by
  rw [trim_eq_rtake, List.rtake, List.rtake, List.rtake, List.length_append, List.length_append,
    List.length_singleton, List.length_drop]
  obtain hle | hlt := Nat.le_total log.length cap
  · rw [Nat.sub_eq_zero_of_le hle, List.drop_zero, Nat.sub_zero]
  · rw [← List.drop_append_of_le_length (by omega), List.drop_drop]
    congr 1
    omega

/-! ## Keys -/

section

variable {key : α → κ}

/-- A change that leaves the keys leaves them all. -/
theorem map_modify {f : α → α} (hf : ∀ a, key (f a) = key a) (as : List α) (i : ℕ) :
    (as.modify i f).map key = as.map key := by
  induction as generalizing i with
  | nil => simp
  | cons a as ih =>
      cases i with
      | zero => simp [hf]
      | succ i => simp [ih]

/-- An entry that has left the archive has a key that no entry there has. -/
theorem notMem_drop {as : List α} (h : (as.map key).Nodup) {i n : ℕ} {a : α}
    (ha : as[i]? = some a) (hi : i < n) : ∀ b ∈ as.drop n, key b ≠ key a := by
  intro b hb heq
  obtain ⟨j, hj⟩ := List.mem_iff_getElem?.mp hb
  rw [List.getElem?_drop] at hj
  have hkeys : (as.map key)[i]? = (as.map key)[n + j]? := by
    rw [List.getElem?_map, List.getElem?_map, ha, hj, Option.map_some, Option.map_some, heq]
  have hlen : i < (as.map key).length := by
    rw [List.length_map]
    exact (List.getElem?_eq_some_iff.mp ha).1
  have := (List.getElem?_inj hlen h).mp hkeys
  omega

end

/-! ## Changes -/

variable [DecidableEq κ] (key : α → κ)

/-- Change the first entry with a key. -/
def updateFirst (k : κ) (f : α → α) : List α → List α
  | [] => []
  | a :: as => if key a = k then f a :: as else a :: updateFirst k f as

variable {key}

theorem updateFirst_of_notMem {k : κ} {f : α → α} {as : List α} (h : ∀ a ∈ as, key a ≠ k) :
    updateFirst key k f as = as := by
  induction as with
  | nil => rfl
  | cons a as ih =>
      rw [List.forall_mem_cons] at h
      rw [updateFirst, if_neg h.1, ih h.2]

/-- Through the key of an entry that entry is changed. -/
theorem updateFirst_eq_modify {as : List α} (h : (as.map key).Nodup) {i : ℕ} {a : α}
    (ha : as[i]? = some a) (f : α → α) : updateFirst key (key a) f as = as.modify i f := by
  induction as generalizing i with
  | nil => cases ha
  | cons b as ih =>
      rw [List.map_cons, List.nodup_cons] at h
      cases i with
      | zero =>
          cases ha
          rw [updateFirst, if_pos rfl, List.modify_zero_cons]
      | succ i =>
          have hmem : a ∈ as := List.mem_of_getElem? ha
          have hne : key b ≠ key a := fun heq => h.1 (heq ▸ List.mem_map_of_mem hmem)
          rw [updateFirst, if_neg hne, ih h.2 ha, List.modify_succ_cons]

/-- A change is seen in the archive when the entry is still there, and only then. -/
theorem updateFirst_rtake {log : List α} (h : (log.map key).Nodup) {i : ℕ} {a : α}
    (ha : log[i]? = some a) (cap : ℕ) (f : α → α) :
    updateFirst key (key a) f (log.rtake cap) = (log.modify i f).rtake cap := by
  rw [List.rtake, List.rtake, List.length_modify]
  generalize log.length - cap = n
  obtain hlt | hle := Nat.lt_or_ge i n
  · rw [updateFirst_of_notMem (notMem_drop h ha hlt), List.drop_modify_of_lt _ _ _ _ hlt]
  · have hdrop : (log.drop n)[i - n]? = some a := by
      rw [List.getElem?_drop, Nat.add_sub_cancel' hle, ha]
    have hnodup : ((log.drop n).map key).Nodup := by
      rw [List.map_drop]
      exact h.sublist (List.drop_sublist n _)
    rw [updateFirst_eq_modify hnodup hdrop, List.drop_modify_of_ge _ _ _ _ hle]

/-- Only the entry itself has its key. -/
theorem find?_of_nodup {as : List α} (h : (as.map key).Nodup) {i : ℕ} {a : α}
    (ha : as[i]? = some a) : as.find? (fun b => key b = key a) = some a := by
  induction as generalizing i with
  | nil => cases ha
  | cons b as ih =>
      rw [List.map_cons, List.nodup_cons] at h
      cases i with
      | zero =>
          cases ha
          simp
      | succ i =>
          have hmem : a ∈ as := List.mem_of_getElem? ha
          have hne : key b ≠ key a := fun heq => h.1 (heq ▸ List.mem_map_of_mem hmem)
          rw [List.find?_cons_of_neg (by simpa using hne)]
          exact ih h.2 ha

/-- Looking up by the key of an entry finds that entry, as long as it is kept. -/
theorem find?_rtake {log : List α} (h : (log.map key).Nodup) {i : ℕ} {a : α}
    (ha : log[i]? = some a) (cap : ℕ) :
    (log.rtake cap).find? (fun b => key b = key a) =
      if log.length ≤ i + cap then some a else none := by
  rw [List.rtake]
  obtain hlt | hle := Nat.lt_or_ge i (log.length - cap)
  · rw [if_neg (by omega), List.find?_eq_none]
    intro b hb
    simpa using notMem_drop h ha hlt b hb
  · have hdrop : (log.drop (log.length - cap))[i - (log.length - cap)]? = some a := by
      rw [List.getElem?_drop, Nat.add_sub_cancel' hle, ha]
    have hnodup : ((log.drop (log.length - cap)).map key).Nodup := by
      rw [List.map_drop]
      exact h.sublist (List.drop_sublist _ _)
    rw [if_pos (by omega), find?_of_nodup hnodup hdrop]

end Archive
