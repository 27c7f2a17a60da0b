import PinBridge.Hooks.Arming

/-!
# Coalesced invalidation

Each Hook point of a batch has a window of code that Pin has to compile again: 64 KiB for a
function, and the bytes of one instruction otherwise.  A batch is sorted, and a window is extended
as long as the next address is in it (or, for instructions, right behind it).

`Covers` says that ranges are increasing and disjoint and that together they are the windows of the
addresses.  The loop keeps that for the range which it extends (`mergeWindows_spec`).
-/

namespace PinBridge.Hooks

/-- An address is in one of some ranges. -/
def InRanges (ranges : List (Nat × Nat)) (x : Nat) : Prop := ∃ r ∈ ranges, r.1 ≤ x ∧ x ≤ r.2

/-- An address is in the window of one of some addresses.  A window ends at the highest address. -/
def InWindows (span : Nat) (addresses : List Nat) (x : Nat) : Prop :=
  ∃ a ∈ addresses, a ≤ x ∧ x ≤ satAdd a span

/-- Ranges are increasing and pairwise disjoint, and they cover the windows of the addresses and
nothing else. -/
structure Covers (span : Nat) (addresses : List Nat) (ranges : List (Nat × Nat)) : Prop where
  ordered : ∀ r ∈ ranges, r.1 ≤ r.2 ∧ r.2 < 2 ^ 64
  disjoint : ranges.Pairwise fun r r' => r.2 < r'.1
  union : ∀ x, InRanges ranges x ↔ InWindows span addresses x

variable {span slack low high x : Nat} {addresses : List Nat}

theorem inRanges_cons {r : Nat × Nat} {ranges : List (Nat × Nat)} :
    InRanges (r :: ranges) x ↔ (r.1 ≤ x ∧ x ≤ r.2) ∨ InRanges ranges x := by
  simp [InRanges]

theorem inWindows_cons {a : Nat} :
    InWindows span (a :: addresses) x ↔
      (a ≤ x ∧ x ≤ satAdd a span) ∨ InWindows span addresses x := by
  simp [InWindows]

theorem satAdd_bounds {a n : Nat} (h : a < 2 ^ 64) : a ≤ satAdd a n ∧ satAdd a n < 2 ^ 64 := by
  rw [satAdd]
  omega

/-- No range starts below the one that is extended. -/
theorem mergeWindows_low (hsorted : (low :: addresses).Pairwise (· ≤ ·)) :
    ∀ r ∈ mergeWindows span slack low high addresses, low ≤ r.1 := by
  induction addresses generalizing low high with
  | nil =>
      rw [mergeWindows]
      exact List.forall_mem_singleton.mpr (Nat.le_refl low)
  | cons a addresses ih =>
      obtain ⟨hlow, hrest⟩ := List.pairwise_cons.mp hsorted
      obtain ⟨ha, haddresses⟩ := List.forall_mem_cons.mp hlow
      rw [mergeWindows]
      split
      next => exact ih (List.pairwise_cons.mpr ⟨haddresses, (List.pairwise_cons.mp hrest).2⟩)
      next =>
        refine List.forall_mem_cons.mpr ⟨Nat.le_refl low, fun r hr => ?_⟩
        exact ha.trans (ih hrest r hr)

/-- The ranges from one that is extended on. -/
theorem mergeWindows_spec (hslack : slack ≤ 1) (hsorted : (low :: addresses).Pairwise (· ≤ ·))
    (hbound : ∀ a ∈ addresses, a < 2 ^ 64) (hle : low ≤ high) (hhigh : high < 2 ^ 64) :
    let ranges := mergeWindows span slack low high addresses
    (∀ r ∈ ranges, r.1 ≤ r.2 ∧ r.2 < 2 ^ 64) ∧ ranges.Pairwise (fun r r' => r.2 < r'.1) ∧
      ∀ x, InRanges ranges x ↔ (low ≤ x ∧ x ≤ high) ∨ InWindows span addresses x := by
  induction addresses generalizing low high with
  | nil =>
      rw [mergeWindows]
      refine ⟨List.forall_mem_singleton.mpr ⟨hle, hhigh⟩, List.pairwise_singleton _ _, fun x => ?_⟩
      simp [InRanges, InWindows]
  | cons a addresses ih =>
      obtain ⟨hlow, hrest⟩ := List.pairwise_cons.mp hsorted
      obtain ⟨ha, haddresses⟩ := List.forall_mem_cons.mp hlow
      obtain ⟨habound, hbound⟩ := List.forall_mem_cons.mp hbound
      obtain ⟨hstart, hend⟩ := satAdd_bounds (n := span) habound
      rw [mergeWindows]
      split
      next htouch =>
        -- The window of the address starts in the range or right behind it.
        rw [satAdd] at htouch
        have hmerged : low ≤ max high (satAdd a span) ∧ max high (satAdd a span) < 2 ^ 64 := by
          omega
        obtain ⟨hordered, hdisjoint, hunion⟩ :=
          ih (List.pairwise_cons.mpr ⟨haddresses, (List.pairwise_cons.mp hrest).2⟩) hbound
            hmerged.1 hmerged.2
        refine ⟨hordered, hdisjoint, fun x => ?_⟩
        rw [hunion, inWindows_cons, ← or_assoc]
        refine or_congr_left ?_
        omega
      next happart =>
        rw [satAdd] at happart
        obtain ⟨hordered, hdisjoint, hunion⟩ := ih hrest hbound hstart hend
        refine ⟨List.forall_mem_cons.mpr ⟨⟨hle, hhigh⟩, hordered⟩,
          List.pairwise_cons.mpr ⟨fun r hr => ?_, hdisjoint⟩, fun x => ?_⟩
        · have hrange := mergeWindows_low hrest r hr
          dsimp only
          omega
        · rw [inRanges_cons, hunion, inWindows_cons]

/-- The ranges of a sorted batch. -/
theorem batchWindows_covers (hslack : slack ≤ 1) (hsorted : addresses.Pairwise (· ≤ ·))
    (hbound : ∀ a ∈ addresses, a < 2 ^ 64) :
    Covers span addresses (batchWindows span slack addresses) := by
  cases addresses with
  | nil =>
      rw [batchWindows]
      exact ⟨List.forall_mem_nil _, .nil, fun x => by simp [InRanges, InWindows]⟩
  | cons first addresses =>
      obtain ⟨hfirst, hrest⟩ := List.forall_mem_cons.mp hbound
      obtain ⟨hstart, hend⟩ := satAdd_bounds (n := span) hfirst
      obtain ⟨hordered, hdisjoint, hunion⟩ := mergeWindows_spec hslack hsorted hrest hstart hend
      refine ⟨hordered, hdisjoint, fun x => ?_⟩
      rw [batchWindows, hunion, inWindows_cons]

/-- The ranges that are invalidated for a sorted batch of functions, and of instructions. -/
theorem flush_covers (addresses : List Nat) (hsorted : addresses.Pairwise (· ≤ ·))
    (hbound : ∀ a ∈ addresses, a < 2 ^ 64) :
    ((∀ s : State, s.flushFunctionBatch addresses =
        s.invalidate (batchWindows 0xffff 0 addresses)) ∧
      Covers 0xffff addresses (batchWindows 0xffff 0 addresses)) ∧
    (∀ s : State, s.flushPlainBatch addresses = s.invalidate (batchWindows 15 1 addresses)) ∧
      Covers 15 addresses (batchWindows 15 1 addresses) :=
  ⟨⟨fun _ => rfl, batchWindows_covers (Nat.zero_le 1) hsorted hbound⟩, fun _ => rfl,
    batchWindows_covers (Nat.le_refl 1) hsorted hbound⟩

/-- Three addresses, with two ranges. -/
theorem flush_covers_three :
    Covers 15 [16, 32, 64] [(16, 47), (64, 79)] ∧
      Covers 0xffff [16, 32, 2 ^ 64 - 1] [(16, 0x1001f), (2 ^ 64 - 1, 2 ^ 64 - 1)] :=
  ⟨(flush_covers [16, 32, 64] (by decide) (by decide)).2.2,
    (flush_covers [16, 32, 2 ^ 64 - 1] (by decide) (by decide)).1.2⟩

end PinBridge.Hooks
