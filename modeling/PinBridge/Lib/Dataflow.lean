import Mathlib.Data.Finset.Basic
import Mathlib.Data.Set.Lattice

/-!
# Parallel definitions and the data that flows through them

An instruction is a list of steps.  All steps read the state before the instruction.  A
step overwrites the locations `defFull`; those in `defVal` receive what the locations
`uses` held, the others are cleared.  Where two steps overwrite the same location, the
later step wins (`writer`).

*Forward.*  `propagate` carries a label set for every location over one instruction, and
`labels` over a window.  `Path` records one way a label came: from which location at the
start, and by the steps of which instructions.  `mem_labels_iff` says that the labels of
a location are the labels at the starts of its paths.

*Backward.*  `Flows` is what one instruction demands: the locations whose content is
part of the content of a location after it.  A demand that is closed under `Flows`
(`Covers`) at every instruction reaches the start of every path (`Path.covered`).
-/

namespace Dataflow

variable {κ ℓ : Type*}

/-- One assignment of an instruction. -/
structure Step (κ : Type*) where
  /-- The locations that are overwritten. -/
  defFull : Finset κ
  /-- The locations that receive the content of `uses`. -/
  defVal : Finset κ
  uses : Finset κ
deriving DecidableEq

variable [DecidableEq κ]

/-! ## One instruction -/

/-- The last step that overwrites a location. -/
def writer (steps : List (Step κ)) (k : κ) : Option (Step κ) :=
  steps.reverse.find? fun s => k ∈ s.defFull

@[simp] theorem writer_nil (k : κ) : writer [] k = none := rfl

theorem writer_concat (steps : List (Step κ)) (s : Step κ) (k : κ) :
    writer (steps ++ [s]) k = if k ∈ s.defFull then some s else writer steps k := by
  simp only [writer, List.reverse_append, List.reverse_singleton, List.singleton_append,
    List.find?_cons]
  by_cases h : k ∈ s.defFull <;> simp [h]

theorem writer_eq_some {steps : List (Step κ)} {k : κ} {s : Step κ} (h : writer steps k = some s) :
    s ∈ steps ∧ k ∈ s.defFull := by
  refine ⟨List.mem_reverse.mp (List.mem_of_find?_eq_some h), ?_⟩
  simpa using List.find?_some h

theorem writer_eq_none {steps : List (Step κ)} {k : κ} :
    writer steps k = none ↔ ∀ s ∈ steps, k ∉ s.defFull := by
  simp [writer, List.find?_eq_none]

/-- The content of `k` after the instruction depends on the content of `u` before. -/
def Flows (steps : List (Step κ)) (u k : κ) : Prop :=
  match writer steps k with
  | none => u = k
  | some s => k ∈ s.defVal ∧ u ∈ s.uses

/-- The labels after an instruction that reads `look`, where `old` is what the locations
hold before. -/
def propagate (steps : List (Step κ)) (look old : κ → Set ℓ) (k : κ) : Set ℓ :=
  match writer steps k with
  | none => old k
  | some s => if k ∈ s.defVal then ⋃ u ∈ s.uses, look u else ∅

/-- More labels before give more labels after. -/
theorem propagate_mono {steps : List (Step κ)} {look look' old old' : κ → Set ℓ}
    (hlook : ∀ k, look k ⊆ look' k) (hold : ∀ k, old k ⊆ old' k) (k : κ) :
    propagate steps look old k ⊆ propagate steps look' old' k := by
  unfold propagate
  cases writer steps k with
  | none => exact hold k
  | some s =>
      dsimp only
      by_cases hk : k ∈ s.defVal
      · rw [if_pos hk, if_pos hk]
        exact Set.iUnion₂_mono fun u _ => hlook u
      · rw [if_neg hk]
        exact Set.empty_subset _

theorem mem_propagate_self {steps : List (Step κ)} {look : κ → Set ℓ} {k : κ} {l : ℓ} :
    l ∈ propagate steps look look k ↔ ∃ u, Flows steps u k ∧ l ∈ look u := by
  unfold propagate Flows
  cases writer steps k with
  | none => simp
  | some s => by_cases hk : k ∈ s.defVal <;> simp [hk]

/-! ## A window -/

/-- The labels before instruction `j`, from the labels at the start. -/
def labels (window : ℕ → List (Step κ)) (start : κ → Set ℓ) : ℕ → κ → Set ℓ
  | 0 => start
  | j + 1 => propagate (window j) (labels window start j) (labels window start j)

/-- `Path window o j k ds`: the content of `k` before instruction `j` came from `o` at the
start by steps of the instructions `ds`, the last one first. -/
inductive Path (window : ℕ → List (Step κ)) (o : κ) : ℕ → κ → List ℕ → Prop
  | start : Path window o 0 o []
  | keep {j : ℕ} {k : κ} {ds : List ℕ} : Path window o j k ds → writer (window j) k = none →
      Path window o (j + 1) k ds
  | deposit {j : ℕ} {u k : κ} {ds : List ℕ} {s : Step κ} : Path window o j u ds →
      writer (window j) k = some s → k ∈ s.defVal → u ∈ s.uses →
      Path window o (j + 1) k (j :: ds)

/-- A location carries exactly the labels that its paths bring. -/
theorem mem_labels_iff {window : ℕ → List (Step κ)} {start : κ → Set ℓ} {j : ℕ} {k : κ} {l : ℓ} :
    l ∈ labels window start j k ↔ ∃ o ds, Path window o j k ds ∧ l ∈ start o := by
  induction j generalizing k with
  | zero =>
      constructor
      · intro h
        exact ⟨k, [], .start, h⟩
      · rintro ⟨o, ds, hpath, hl⟩
        cases hpath
        exact hl
  | succ j ih =>
      rw [labels, mem_propagate_self]
      constructor
      · rintro ⟨u, hflow, hu⟩
        obtain ⟨o, ds, hpath, hl⟩ := ih.mp hu
        unfold Flows at hflow
        cases hw : writer (window j) k with
        | none =>
            rw [hw] at hflow
            subst hflow
            exact ⟨o, ds, hpath.keep hw, hl⟩
        | some s =>
            rw [hw] at hflow
            exact ⟨o, j :: ds, hpath.deposit hw hflow.1 hflow.2, hl⟩
      · rintro ⟨o, ds, hpath, hl⟩
        cases hpath with
        | keep hpath hw => exact ⟨k, by simp [Flows, hw], ih.mpr ⟨o, ds, hpath, hl⟩⟩
        | deposit hpath hw hval huse =>
            exact ⟨_, by simp [Flows, hw, hval, huse], ih.mpr ⟨o, _, hpath, hl⟩⟩

/-! ## Demands -/

/-- `before` demands all that `after` depends on. -/
def Covers (steps : List (Step κ)) (before after : Finset κ) : Prop :=
  ∀ k ∈ after, ∀ u, Flows steps u k → u ∈ before

/-- Demands that cover one another hold the start of every path to a demanded location,
and every instruction that deposited on the way overwrote a demanded location. -/
theorem Path.covered {window : ℕ → List (Step κ)} {demand : ℕ → Finset κ} {o k : κ} {n : ℕ}
    {ds : List ℕ} (h : Path window o n k ds) (hk : k ∈ demand n)
    (hcovers : ∀ j < n, Covers (window j) (demand j) (demand (j + 1))) :
    o ∈ demand 0 ∧ ∀ d ∈ ds, d < n ∧ ∃ s ∈ window d, (s.defFull ∩ demand (d + 1)).Nonempty := by
  induction h with
  | start => exact ⟨hk, nofun⟩
  | @keep j k ds hpath hw ih =>
      have hbefore := hcovers j (Nat.lt_succ_self j) k hk k (by simp [Flows, hw])
      obtain ⟨ho, hds⟩ := ih hbefore fun i hi => hcovers i (Nat.lt_succ_of_lt hi)
      exact ⟨ho, fun d hd => ⟨Nat.lt_succ_of_lt (hds d hd).1, (hds d hd).2⟩⟩
  | @deposit j u k ds s hpath hw hval huse ih =>
      have hbefore := hcovers j (Nat.lt_succ_self j) k hk u (by simp [Flows, hw, hval, huse])
      obtain ⟨ho, hds⟩ := ih hbefore fun i hi => hcovers i (Nat.lt_succ_of_lt hi)
      refine ⟨ho, fun d hd => ?_⟩
      obtain rfl | hd := List.mem_cons.mp hd
      · obtain ⟨hs, hfull⟩ := writer_eq_some hw
        exact ⟨Nat.lt_succ_self d, s, hs, k, Finset.mem_inter.mpr ⟨hfull, hk⟩⟩
      · exact ⟨Nat.lt_succ_of_lt (hds d hd).1, (hds d hd).2⟩

end Dataflow
