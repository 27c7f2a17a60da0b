import Mathlib.Data.List.Basic

/-!
# Reads of a partial memory

A memory has a value at some addresses.  `read` gives the values of a range up to the first
address without one.  A range is read in parts: a full first part is followed by the rest
(`read_add`), a short one ends the read (`read_add_of_short`).  A list that a memory holds is read,
and what is read is held (`Holds.read`, `holds_read`).
-/

namespace PartialMemory

variable {β : Type*}

/-- The values from an address on, up to the first that is missing. -/
def read (memory : Nat → Option β) (address : Nat) : Nat → List β
  | 0 => []
  | count + 1 =>
      match memory address with
      | none => []
      | some b => b :: read memory (address + 1) count

variable {memory memory' : Nat → Option β} {address count more : Nat}

theorem read_of_none (h : memory address = none) : read memory address count = [] := by
  cases count with
  | zero => rfl
  | succ count => rw [read, h]

theorem length_read_le (memory : Nat → Option β) (address count : Nat) :
    (read memory address count).length ≤ count := by
  induction count generalizing address with
  | zero => exact Nat.le_refl 0
  | succ count ih =>
      rw [read]
      cases memory address with
      | none => exact Nat.zero_le _
      | some b => exact Nat.succ_le_succ (ih _)

/-- A full first part is followed by the rest. -/
theorem read_add (h : (read memory address count).length = count) (more : Nat) :
    read memory address (count + more) =
      read memory address count ++ read memory (address + count) more := by
  induction count generalizing address with
  | zero =>
      rw [Nat.zero_add]
      rfl
  | succ count ih =>
      rw [Nat.succ_add, read, read]
      cases hb : memory address with
      | none =>
          rw [read, hb] at h
          exact absurd h (Nat.succ_ne_zero count).symm
      | some b =>
          rw [read, hb, List.length_cons] at h
          dsimp only
          rw [ih (Nat.succ.inj h), List.cons_append, Nat.add_right_comm address, Nat.add_assoc]

/-- A short first part is all there is. -/
theorem read_add_of_short (h : (read memory address count).length < count) (more : Nat) :
    read memory address (count + more) = read memory address count := by
  induction count generalizing address with
  | zero => exact absurd h (Nat.not_lt_zero _)
  | succ count ih =>
      rw [Nat.succ_add, read, read]
      cases hb : memory address with
      | none => rfl
      | some b =>
          rw [read, hb, List.length_cons] at h
          dsimp only
          rw [ih (Nat.lt_of_succ_lt_succ h)]

theorem read_congr (h : ∀ i < count, memory (address + i) = memory' (address + i)) :
    read memory address count = read memory' address count := by
  induction count generalizing address with
  | zero => rfl
  | succ count ih =>
      rw [read, read, show memory address = memory' address from h 0 (Nat.succ_pos _)]
      have hrest : read memory (address + 1) count = read memory' (address + 1) count :=
        ih fun i hi => by
          rw [Nat.add_assoc, Nat.add_comm 1 i]
          exact h (i + 1) (Nat.succ_lt_succ hi)
      rw [hrest]

/-- A list that stands in the memory is read. -/
theorem read_of_getElem? {l : List β} (h : ∀ i < l.length, memory (address + i) = l[i]?) :
    read memory address l.length = l := by
  induction l generalizing address with
  | nil => rfl
  | cons b l ih =>
      rw [List.length_cons, read, show memory address = some b from h 0 (Nat.succ_pos _)]
      have hrest : read memory (address + 1) l.length = l := ih fun i hi => by
        rw [Nat.add_assoc, Nat.add_comm 1 i]
        exact h (i + 1) (Nat.succ_lt_succ hi)
      rw [hrest]

/-! ## Lists in a memory -/

/-- A list stands at an address. -/
def Holds (memory : Nat → Option β) (address : Nat) (l : List β) : Prop :=
  ∀ i < l.length, memory (address + i) = l[i]?

variable {l l' : List β}

theorem Holds.read (h : Holds memory address l) : read memory address l.length = l :=
  read_of_getElem? h

/-- What a read gives stands in the memory. -/
theorem holds_read (memory : Nat → Option β) (address count : Nat) :
    Holds memory address (PartialMemory.read memory address count) := by
  induction count generalizing address with
  | zero => exact fun i hi => absurd hi (Nat.not_lt_zero i)
  | succ count ih =>
      rw [PartialMemory.read]
      cases hb : memory address with
      | none => exact fun i hi => absurd hi (Nat.not_lt_zero i)
      | some b =>
          intro i hi
          cases i with
          | zero => exact hb
          | succ i =>
              rw [Nat.add_comm i 1, ← Nat.add_assoc, Nat.add_comm 1 i]
              exact ih (address + 1) i (Nat.lt_of_succ_lt_succ hi)

theorem holds_append :
    Holds memory address (l ++ l') ↔
      Holds memory address l ∧ Holds memory (address + l.length) l' := by
  constructor
  · intro h
    refine ⟨fun i hi => ?_, fun i hi => ?_⟩
    · rw [h i (by rw [List.length_append]; omega), List.getElem?_append_left hi]
    · rw [Nat.add_assoc, h _ (by rw [List.length_append]; omega),
        List.getElem?_append_right (Nat.le_add_right _ _), Nat.add_sub_cancel_left]
  · rintro ⟨h, h'⟩ i hi
    by_cases hlt : i < l.length
    · rw [h i hlt, List.getElem?_append_left hlt]
    · obtain ⟨j, rfl⟩ := Nat.exists_eq_add_of_le (Nat.not_lt.mp hlt)
      rw [List.length_append] at hi
      rw [← Nat.add_assoc, h' j (by omega), List.getElem?_append_right (Nat.le_add_right _ _),
        Nat.add_sub_cancel_left]

/-- A piece of a list stands at its place. -/
theorem Holds.slice (h : Holds memory address l) (start width : Nat) :
    Holds memory (address + start) ((l.drop start).take width) := by
  intro i hi
  rw [List.length_take, List.length_drop] at hi
  rw [Nat.add_assoc, h _ (by omega), List.getElem?_take_of_lt (by omega), List.getElem?_drop]

/-- Of two lists at one address the shorter one begins the longer one. -/
theorem Holds.prefix (h : Holds memory address l) (h' : Holds memory address l')
    (hle : l.length ≤ l'.length) : l <+: l' := by
  rw [List.prefix_iff_getElem?]
  intro i hi
  rw [← h' i (Nat.lt_of_lt_of_le hi hle), h i hi, List.getElem?_eq_getElem hi]

/-- A read is full if every place has a value. -/
theorem length_read_eq :
    (PartialMemory.read memory address count).length = count ↔
      ∀ i < count, (memory (address + i)).isSome := by
  constructor
  · intro h i hi
    have hlt : i < (PartialMemory.read memory address count).length := h.symm ▸ hi
    rw [holds_read memory address count i hlt, List.getElem?_eq_getElem hlt]
    rfl
  · intro h
    induction count generalizing address with
    | zero => rfl
    | succ count ih =>
        obtain ⟨b, hb⟩ := Option.isSome_iff_exists.mp (h 0 (Nat.succ_pos _))
        rw [Nat.add_zero] at hb
        rw [PartialMemory.read, hb, List.length_cons, ih]
        intro i hi
        rw [Nat.add_assoc, Nat.add_comm 1 i]
        exact h (i + 1) (Nat.succ_lt_succ hi)

end PartialMemory
