import Mathlib.Data.List.Basic

/-!
# A reader-writer lock

Either one holder writes or any number read.  The two sides exclude each other by
the type.  `read` and `write` try to acquire a side, and are `none` while the lock
has to be waited for.
-/

/-- A reader-writer lock with holders in `τ`. -/
structure RwLock (τ : Type*) where
  /-- The holders of the read side. -/
  readers : List τ
  /-- The holder of the write side. -/
  writer : Option τ
  /-- Nobody reads while somebody writes. -/
  exclusive : writer ≠ none → readers = []

namespace RwLock

variable {τ : Type*}

/-- Nobody holds the lock. -/
def free : RwLock τ := ⟨[], none, fun h => absurd rfl h⟩

/-- Acquire the read side. -/
def read (l : RwLock τ) (t : τ) : Option (RwLock τ) :=
  match l.writer with
  | none => some ⟨t :: l.readers, none, fun h => absurd rfl h⟩
  | some _ => none

/-- Acquire the write side. -/
def write (l : RwLock τ) (t : τ) : Option (RwLock τ) :=
  match l.writer, l.readers with
  | none, [] => some ⟨[], some t, fun _ => rfl⟩
  | _, _ => none

/-- Release the read side. -/
def unread [DecidableEq τ] (l : RwLock τ) (t : τ) : RwLock τ :=
  ⟨l.readers.erase t, l.writer, fun h => by rw [l.exclusive h]; rfl⟩

/-- Release the write side. -/
def unwrite (l : RwLock τ) : RwLock τ := ⟨l.readers, none, fun h => absurd rfl h⟩

theorem read_eq_some {l l' : RwLock τ} {t : τ} (h : l.read t = some l') :
    l.writer = none ∧ l'.writer = none ∧ l'.readers = t :: l.readers := by
  rw [read] at h
  split at h <;> cases h
  next hw => exact ⟨hw, rfl, rfl⟩

theorem write_eq_some {l l' : RwLock τ} {t : τ} (h : l.write t = some l') :
    l.writer = none ∧ l.readers = [] ∧ l'.writer = some t ∧ l'.readers = [] := by
  rw [write] at h
  split at h <;> cases h
  next hw hr => exact ⟨hw, hr, rfl, rfl⟩

/-- Who writes keeps every reader out. -/
theorem not_mem_readers {l : RwLock τ} {t u : τ} (h : l.writer = some t) : u ∉ l.readers := by
  rw [l.exclusive (by rw [h]; exact nofun)]
  exact List.not_mem_nil

/-- Another holder goes on reading. -/
theorem mem_unread [DecidableEq τ] {l : RwLock τ} {t u : τ} (hu : u ≠ t) (h : u ∈ l.readers) :
    u ∈ (l.unread t).readers :=
  (List.mem_erase_of_ne hu).mpr h

end RwLock
