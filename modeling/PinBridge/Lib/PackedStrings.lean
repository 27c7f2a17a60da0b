import Mathlib.Data.List.TakeWhile
import Mathlib.Tactic.Common

/-!
# Strings packed in a buffer

Strings without a zero byte follow each other in a buffer of bytes, each with a zero byte after it
(`pack`).  A reader has the offset at which a string begins and reads up to the next zero byte
(`stringAt`).  It reads back each string that is packed (`stringAt_pack`), whatever stands behind
the last one.
-/

namespace PackedStrings

/-- A string without a zero byte. -/
abbrev CString : Type := {bytes : List UInt8 // (0 : UInt8) ∉ bytes}

/-- The string that begins at an offset. -/
def stringAt (buffer : List UInt8) (offset : Nat) : CString :=
  ⟨(buffer.drop offset).takeWhile (· ≠ 0), fun h => by simpa using List.mem_takeWhile_imp h⟩

/-- The strings, each with its terminator. -/
def pack : List CString → List UInt8
  | [] => []
  | s :: strings => s.1 ++ 0 :: pack strings

/-- The offsets of the strings, from that of the first one. -/
def offsets (start : Nat) : List CString → List Nat
  | [] => []
  | s :: strings => start :: offsets (start + s.1.length + 1) strings

@[simp] theorem pack_append (strings strings' : List CString) :
    pack (strings ++ strings') = pack strings ++ pack strings' := by
  induction strings with
  | nil => rfl
  | cons s strings ih => simp [pack, ih]

@[simp] theorem length_offsets (start : Nat) (strings : List CString) :
    (offsets start strings).length = strings.length := by
  induction strings generalizing start with
  | nil => rfl
  | cons s strings ih => rw [offsets, List.length_cons, ih, List.length_cons]

theorem offsets_append (start : Nat) (strings : List CString) (s : CString) :
    offsets start (strings ++ [s]) =
      offsets start strings ++ [start + (pack strings).length] := by
  induction strings generalizing start with
  | nil => rfl
  | cons first strings ih =>
      have hstart : start + first.1.length + 1 + (pack strings).length =
          start + (pack (first :: strings)).length := by
        rw [pack, List.length_append, List.length_cons]
        omega
      rw [List.cons_append, offsets, offsets, ih, hstart, List.cons_append]

theorem offsets_lt {start offset : Nat} {strings : List CString}
    (h : offset ∈ offsets start strings) : offset < start + (pack strings).length := by
  induction strings generalizing start with
  | nil => exact absurd h List.not_mem_nil
  | cons s strings ih =>
      rw [pack, List.length_append, List.length_cons]
      obtain rfl | h := List.mem_cons.mp h
      · omega
      · have := ih h
        omega

/-- A packed string is read up to its terminator. -/
theorem stringAt_append {before after : List UInt8} (s : CString) :
    stringAt (before ++ (s.1 ++ 0 :: after)) before.length = s := by
  refine Subtype.ext ?_
  have hs : ∀ b ∈ s.1, decide (b ≠ 0) = true := fun b hb =>
    decide_eq_true fun h => s.2 (h ▸ hb)
  show ((before ++ (s.1 ++ 0 :: after)).drop before.length).takeWhile (· ≠ 0) = s.1
  rw [List.drop_left, List.takeWhile_append_of_pos hs,
    List.takeWhile_cons_of_neg (by decide), List.append_nil]

/-- The packed strings are read back from their offsets. -/
theorem stringAt_pack (before : List UInt8) (strings : List CString) (after : List UInt8) :
    (offsets before.length strings).map (stringAt (before ++ (pack strings ++ after))) =
      strings := by
  induction strings generalizing before with
  | nil => rfl
  | cons s strings ih =>
      have hfirst : stringAt (before ++ (pack (s :: strings) ++ after)) before.length = s := by
        rw [pack, List.append_assoc, List.cons_append]
        exact stringAt_append s
      have hrest : before ++ (pack (s :: strings) ++ after) =
          (before ++ (s.1 ++ [0])) ++ (pack strings ++ after) := by
        simp [pack]
      have hlength : (before ++ (s.1 ++ [0])).length = before.length + s.1.length + 1 := by
        simp [Nat.add_assoc]
      rw [offsets, List.map_cons, hfirst, hrest, ← hlength, ih]

/-! ## Writing -/

variable {α : Type*} {n : Nat}

/-- Writes over the buffer from an index. -/
def overwrite (buffer : Vector α n) (i : Nat) : List α → Vector α n
  | [] => buffer
  | x :: xs => overwrite (buffer.setIfInBounds i x) (i + 1) xs

theorem take_set_succ {l : List α} {i : Nat} (h : i < l.length) (x : α) :
    (l.set i x).take (i + 1) = l.take i ++ [x] := by
  induction l generalizing i with
  | nil => exact absurd h (Nat.not_lt_zero i)
  | cons y l ih =>
      cases i with
      | zero => rfl
      | succ i =>
          rw [List.set_cons_succ, List.take_succ_cons, ih (Nat.lt_of_succ_lt_succ h),
            List.take_succ_cons, List.cons_append]

/-- What is written follows what stood before it. -/
theorem take_overwrite (buffer : Vector α n) {i : Nat} {xs : List α} (h : i + xs.length ≤ n) :
    (overwrite buffer i xs).toList.take (i + xs.length) = buffer.toList.take i ++ xs := by
  induction xs generalizing buffer i with
  | nil => rw [overwrite, List.append_nil]; rfl
  | cons x xs ih =>
      rw [List.length_cons] at h ⊢
      have hnext := ih (buffer.setIfInBounds i x) (i := i + 1) (by omega)
      have hlt : i < buffer.toList.length := by
        rw [Vector.length_toList]
        omega
      rw [Nat.add_right_comm, Nat.add_assoc] at hnext
      rw [overwrite, hnext, Vector.toList_setIfInBounds, take_set_succ hlt, List.append_assoc]
      rfl

end PackedStrings
