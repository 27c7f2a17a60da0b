import Mathlib.Data.Finset.Sort
import PinBridge.Taint.Forward

/-!
# The backward slice covers the forward taint

`run_slice` rewrites a demand backwards from a target instruction to the start of the
window.  One instruction replaces the demanded bytes it overwrites by the bytes its
matching steps use, all steps against the same demand.

The forward run moves labels along the paths of `Dataflow.Path`.  The demand covers what
every path needs, so the byte a label started from is demanded at the start, and the
instructions that deposited it are in the slice.
-/

namespace PinBridge.Taint

open scoped Sizes

/-! ## The slice -/

/-- A parsed operand. -/
inductive Operand where
  | reg (r : Reg)
  | mem (ea : Int) (size : Nat)
deriving DecidableEq, Repr

/-- The bytes of an operand. -/
def Operand.bytes (arch : Arch) : Operand → Finset Key
  | .reg r => regBytes arch r
  | .mem ea size => memKeys ea size

/-- The last instruction with the sequence number `at`, or else the first one that owns a
memory event with it. -/
def findTarget (insns : List InsnInstance) (seq : Nat) : Option Nat :=
  ((insns.reverse.findIdx? fun inst => inst.seq = seq).map fun i => insns.length - 1 - i).or
    (insns.findIdx? fun inst => inst.events.any fun ev => ev.sequence = seq)

/-- The union of a field of steps. -/
def unionOf (steps : List Step) (field : Step → Finset Key) : Finset Key :=
  steps.foldr (fun s keys => field s ∪ keys) ∅

/-- `resolve_transfer_demand`. -/
def resolveTransferDemand (demand : Finset Key) (steps : List Step) : Finset Key × Bool :=
  let matching := steps.filter fun s => s.defFull ∩ demand ≠ ∅
  if matching = [] then (demand, false)
  else ((demand \ unionOf matching (·.defFull)) ∪ unionOf matching (·.uses), true)

/-- The loop of `run_slice` over the instructions below `i`. -/
def sliceLoop (steps : Nat → List Step) : Nat → Finset Key → Finset Nat → Finset Key × Finset Nat
  | 0, demand, inSlice => (demand, inSlice)
  | i + 1, demand, inSlice =>
      if demand = ∅ then (demand, inSlice)
      else
        let (demand, hit) := resolveTransferDemand demand (steps i)
        sliceLoop steps i demand (if hit then insert i inSlice else inSlice)

/-- What `run_slice` returns. -/
structure Slice where
  inSlice : Finset Nat
  regDemand : Base → Finset Nat
  memBytes : List Int
  target : Nat

/-- `reg_demand`. -/
def regDemandOf (demand : Finset Key) (base : Base) : Finset Nat :=
  demand.biUnion fun k => match k with
    | .reg b i => if b = base then {i} else ∅
    | .mem _ => ∅

/-- `mem_bytes`, in ascending order. -/
def memBytesOf (demand : Finset Key) : List Int :=
  (demand.biUnion fun k => match k with
    | .mem b => ({b} : Finset Int)
    | .reg _ _ => ∅).sort

/-- The steps of the instruction at a position of the window. -/
def stepsAt (transfer : InsnInstance → Transfer) (insns : List InsnInstance) (i : Nat) :
    List Step :=
  match insns[i]? with
  | some inst => (transfer inst).steps
  | none => []

/-- `run_slice`, for any way to compute the transfers; `none` when no instruction has the
sequence number. -/
def runSliceWith (arch : Arch) (transfer : InsnInstance → Transfer) (insns : List InsnInstance)
    (seq : Nat) (operand : Operand) : Option Slice :=
  (findTarget insns seq).map fun target =>
    let steps := stepsAt transfer insns
    let demand := (resolveTransferDemand (operand.bytes arch) (steps target)).1
    let (demand, inSlice) := sliceLoop steps target demand {target}
    ⟨inSlice, regDemandOf demand, memBytesOf demand, target⟩

/-- `run_slice`. -/
def runSlice (arch : Arch) (insns : List InsnInstance) (seq : Nat) (operand : Operand) :
    Option Slice :=
  runSliceWith arch (InsnInstance.transfer arch) insns seq operand

/-- The byte is in the entry demand of a slice. -/
def Slice.Demands (slice : Slice) : Key → Prop
  | .reg base i => i ∈ slice.regDemand base
  | .mem b => b ∈ slice.memBytes

instance (slice : Slice) (k : Key) : Decidable (slice.Demands k) := by
  cases k <;> unfold Slice.Demands <;> infer_instance

/-! ## The demand covers an instruction -/

theorem mem_unionOf {steps : List Step} {field : Step → Finset Key} {k : Key} :
    k ∈ unionOf steps field ↔ ∃ s ∈ steps, k ∈ field s := by
  induction steps with
  | nil => simp [unionOf]
  | cons s steps ih =>
      simp only [unionOf, List.foldr_cons, Finset.mem_union, List.mem_cons, exists_eq_or_imp]
      exact or_congr_right ih

/-- The demand before an instruction covers the demand after it. -/
theorem resolveTransferDemand_covers (demand : Finset Key) (steps : List Step) :
    Dataflow.Covers steps (resolveTransferDemand demand steps).1 demand := by
  intro k hk u hflow
  have hmatches : ∀ s ∈ steps, k ∈ s.defFull →
      s ∈ steps.filter fun s => s.defFull ∩ demand ≠ ∅ := by
    intro s hs hfull
    refine List.mem_filter.mpr ⟨hs, ?_⟩
    simpa using Finset.ne_empty_of_mem (Finset.mem_inter.mpr ⟨hfull, hk⟩)
  unfold resolveTransferDemand
  dsimp only
  unfold Dataflow.Flows at hflow
  split
  case isTrue hnone =>
    cases hw : Dataflow.writer steps k with
    | none =>
        rw [hw] at hflow
        subst hflow
        exact hk
    | some s =>
        obtain ⟨hs, hfull⟩ := Dataflow.writer_eq_some hw
        have := hmatches s hs hfull
        rw [hnone] at this
        cases this
  case isFalse =>
    refine Finset.mem_union.mpr ?_
    cases hw : Dataflow.writer steps k with
    | none =>
        rw [hw] at hflow
        subst hflow
        refine .inl (Finset.mem_sdiff.mpr ⟨hk, fun hdef => ?_⟩)
        obtain ⟨s, hs, hfull⟩ := mem_unionOf.mp hdef
        exact Dataflow.writer_eq_none.mp hw s (List.mem_of_mem_filter hs) hfull
    | some s =>
        rw [hw] at hflow
        obtain ⟨hs, hfull⟩ := Dataflow.writer_eq_some hw
        exact .inr (mem_unionOf.mpr ⟨s, hmatches s hs hfull, hflow.2⟩)

/-- An instruction that overwrites a demanded byte is a hit. -/
theorem resolveTransferDemand_hit {demand : Finset Key} {steps : List Step}
    (h : ∃ s ∈ steps, (s.defFull ∩ demand).Nonempty) :
    (resolveTransferDemand demand steps).2 = true := by
  obtain ⟨s, hs, hne⟩ := h
  unfold resolveTransferDemand
  dsimp only
  rw [if_neg]
  intro hnone
  have hmem : s ∈ steps.filter fun s => s.defFull ∩ demand ≠ ∅ :=
    List.mem_filter.mpr ⟨hs, by simpa using hne.ne_empty⟩
  rw [hnone] at hmem
  cases hmem

/-! ## The demand covers the window -/

/-- The demands of the loop before each instruction, from the demand before `n`. -/
def demands (steps : Nat → List Step) (n : Nat) (demand : Finset Key) : Nat → Finset Key
  | i => if n ≤ i then demand else (resolveTransferDemand (demands steps n demand (i + 1)) (steps i)).1
termination_by i => n - i

theorem demands_self (steps : Nat → List Step) (n : Nat) (demand : Finset Key) :
    demands steps n demand n = demand := by
  rw [demands, if_pos (le_refl n)]

theorem demands_of_lt {steps : Nat → List Step} {n i : Nat} {demand : Finset Key} (h : i < n) :
    demands steps n demand i =
      (resolveTransferDemand (demands steps n demand (i + 1)) (steps i)).1 := by
  rw [demands, if_neg (Nat.not_le.mpr h)]

/-- An empty demand stays empty. -/
theorem demands_empty (steps : Nat → List Step) {n i : Nat} (h : i ≤ n) :
    demands steps n ∅ i = ∅ := by
  induction h using Nat.decreasingInduction with
  | self => exact demands_self steps n ∅
  | of_succ i hi ih =>
      rw [demands_of_lt hi, ih]
      simp [resolveTransferDemand]

theorem demands_succ (steps : Nat → List Step) {n i : Nat} (demand : Finset Key) (h : i ≤ n) :
    demands steps (n + 1) demand i =
      demands steps n (resolveTransferDemand demand (steps n)).1 i := by
  induction h using Nat.decreasingInduction with
  | self => rw [demands_self, demands_of_lt (Nat.lt_succ_self n), demands_self]
  | of_succ i hi ih => rw [demands_of_lt hi, demands_of_lt (Nat.lt_succ_of_lt hi), ih]

/-- The loop computes the demand at the start, and its hits are in the slice. -/
theorem sliceLoop_spec (steps : Nat → List Step) (n : Nat) (demand : Finset Key)
    (inSlice : Finset Nat) :
    (sliceLoop steps n demand inSlice).1 = demands steps n demand 0 ∧
    inSlice ⊆ (sliceLoop steps n demand inSlice).2 ∧
    ∀ i < n, (∃ s ∈ steps i, (s.defFull ∩ demands steps n demand (i + 1)).Nonempty) →
      i ∈ (sliceLoop steps n demand inSlice).2 := by
  induction n generalizing demand inSlice with
  | zero => exact ⟨(demands_self steps 0 demand).symm, Finset.Subset.refl _, nofun⟩
  | succ n ih =>
      unfold sliceLoop
      split
      case isTrue hempty =>
        subst hempty
        refine ⟨(demands_empty steps (Nat.zero_le _)).symm, Finset.Subset.refl _, ?_⟩
        rintro i hi ⟨s, -, hne⟩
        rw [demands_empty steps (Nat.succ_le_of_lt hi)] at hne
        simp at hne
      case isFalse =>
        dsimp only
        obtain ⟨hdemand, hsub, hhits⟩ := ih (resolveTransferDemand demand (steps n)).1
          (if (resolveTransferDemand demand (steps n)).2 then insert n inSlice else inSlice)
        refine ⟨?_, fun i hi => hsub ?_, fun i hi hne => ?_⟩
        · rw [hdemand, demands_succ steps demand (Nat.zero_le n)]
        · split
          · exact Finset.mem_insert_of_mem hi
          · exact hi
        · obtain hlt | rfl := Nat.lt_succ_iff_lt_or_eq.mp hi
          · rw [demands_succ steps demand hlt] at hne
            exact hhits i hlt hne
          · rw [demands_self] at hne
            rw [resolveTransferDemand_hit hne] at hsub ⊢
            exact hsub (Finset.mem_insert_self _ _)

theorem demands_covers (steps : Nat → List Step) (n : Nat) (demand : Finset Key) :
    ∀ i < n, Dataflow.Covers (steps i) (demands steps n demand i)
      (demands steps n demand (i + 1)) := by
  intro i hi
  rw [demands_of_lt hi]
  exact resolveTransferDemand_covers _ _

/-! ## The forward run over sources at the start -/

/-- The byte belongs to a source. -/
def Source.Covers (arch : Arch) (s : Source) (k : Key) : Prop :=
  match s.spec with
  | .reg r => k ∈ regBytes arch r
  | .mem lo hi _ => ∃ b, k = .mem b ∧ lo ≤ b ∧ b < hi
  | .event _ => False

/-- A `reg:` source or a `mem:…@start` source. -/
def Source.AtStart (s : Source) : Prop :=
  match s.spec with
  | .reg _ | .mem _ _ .start => True
  | .mem _ _ .firstTouch | .event _ => False

/-- A label that one source seeds lies in the bytes of the source. -/
theorem mem_labels_seed {arch : Arch} {st : State} {s : Source} {k : Key} {l : Nat}
    (h : l ∈ ((seed arch st s).get k).labels) :
    l ∈ (st.get k).labels ∨ s.label = l ∧ s.Covers arch k := by
  obtain ⟨label, spec⟩ := s
  cases spec with
  | reg r =>
      cases k with
      | mem b => exact .inl h
      | reg base i =>
          simp only [seed, State.writeReg, State.get, regDefBytes_snd] at h
          split at h
          case isTrue hval => exact .inr ⟨(Finset.mem_singleton.mp h).symm, hval⟩
          case isFalse =>
            split at h
            · cases h
            · exact .inl h
  | mem lo hi when =>
      cases when with
      | firstTouch => exact .inl h
      | start =>
          cases k with
          | reg base i => exact .inl h
          | mem b =>
              simp only [seed, State.get] at h
              split at h
              case isTrue hb => exact .inr ⟨(Finset.mem_singleton.mp h).symm, b, rfl, hb⟩
              case isFalse => exact .inl h
  | event index => exact .inl h

/-- The labels before the first instruction lie in the bytes of their sources. -/
theorem mem_labels_seeded {arch : Arch} {sources : List Source} {k : Key} {l : Nat}
    (h : l ∈ ((sources.foldl (seed arch) .empty).get k).labels) :
    ∃ s ∈ sources, s.label = l ∧ s.Covers arch k := by
  induction sources using List.reverseRecOn with
  | nil => cases k <;> cases h
  | append_singleton sources s ih =>
      rw [List.foldl_append] at h
      obtain h | ⟨hlabel, hcovers⟩ := mem_labels_seed h
      · obtain ⟨s', hs', hrest⟩ := ih h
        exact ⟨s', List.mem_append_left _ hs', hrest⟩
      · exact ⟨s, List.mem_append_right _ (List.mem_singleton_self s), hlabel, hcovers⟩

theorem fired_eq_empty {sources : List Source} (h : ∀ s ∈ sources, s.AtStart)
    (inst : InsnInstance) : fired sources inst = ∅ := by
  refine Finset.eq_empty_of_forall_notMem fun l hl => ?_
  obtain ⟨i, -, hs⟩ := mem_fired.mp hl
  exact h _ hs

theorem sourceLabelAt_eq_none {sources : List Source} (h : ∀ s ∈ sources, s.AtStart) (b : Int) :
    sourceLabelAt sources b = none := by
  refine List.findSome?_eq_none_iff.mpr fun s hs => ?_
  have hstart := h s hs
  obtain ⟨label, spec⟩ := s
  cases spec with
  | reg | event => rfl
  | mem lo hi when =>
      cases when with
      | start => rfl
      | firstTouch => exact hstart.elim

/-- Without events and first touches an instruction reads what the state holds. -/
theorem look_eq_get {sources : List Source} (h : ∀ s ∈ sources, s.AtStart) (st : State)
    (events : Events) (k : Key) : look sources st events ∅ k = st.get k := by
  cases k with
  | reg base i => rfl
  | mem b =>
      simp only [look, touch, sourceLabelAt_eq_none h, if_true, State.get]
      cases st.shadow b <;> simp

/-- The forward run carries the labels as its steps do. -/
theorem runForwardWith_labels {arch : Arch} {transfer : InsnInstance → Transfer}
    {sources : List Source} (sinks : List Sink) {insns : List InsnInstance}
    (h : ∀ s ∈ sources, s.AtStart) {j : Nat} (hj : j ≤ insns.length) :
    labelsOf (runForwardWith arch transfer sources sinks (insns.take j)).state.get =
      Dataflow.labels (stepsAt transfer insns)
        (labelsOf (sources.foldl (seed arch) .empty).get) j := by
  induction j with
  | zero => rfl
  | succ j ih =>
      obtain ⟨inst, hinst⟩ : ∃ inst, insns[j]? = some inst :=
        ⟨_, List.getElem?_eq_getElem (Nat.lt_of_succ_le hj)⟩
      have htake : insns.take (j + 1) = insns.take j ++ [inst] := by
        rw [List.take_add_one, hinst]
        rfl
      have hread : ∀ st events, look sources st events ∅ = st.get := fun st events =>
        funext fun k => look_eq_get h st events k
      funext k
      ext l
      rw [htake, runForwardWith_concat, mem_labelsOf, mem_labels_forwardStep, fired_eq_empty h,
        hread, ih (Nat.le_of_succ_le hj), Dataflow.labels, stepsAt, hinst]
      simp

/-! ## The slice covers the taint -/

theorem Slice.demands_iff {inSlice : Finset Nat} {demand : Finset Key} {target : Nat} {k : Key} :
    (Slice.mk inSlice (regDemandOf demand) (memBytesOf demand) target).Demands k ↔ k ∈ demand := by
  cases k with
  | reg base i =>
      simp only [Slice.Demands, regDemandOf, Finset.mem_biUnion]
      constructor
      · rintro ⟨k, hk, hi⟩
        cases k with
        | mem b => cases hi
        | reg base' i' =>
            dsimp only at hi
            split at hi
            case isTrue hbase =>
              cases Finset.mem_singleton.mp hi
              rwa [hbase] at hk
            case isFalse => cases hi
      · intro hk
        exact ⟨_, hk, by simp⟩
  | mem b =>
      simp only [Slice.Demands, memBytesOf, Finset.mem_sort, Finset.mem_biUnion]
      constructor
      · rintro ⟨k, hk, hi⟩
        cases k with
        | reg base i => cases hi
        | mem b' =>
            cases Finset.mem_singleton.mp hi
            exact hk
      · intro hk
        exact ⟨_, hk, by simp⟩

theorem findTarget_lt {insns : List InsnInstance} {seq target : Nat}
    (h : findTarget insns seq = some target) : target < insns.length := by
  unfold findTarget at h
  obtain h | ⟨-, h⟩ := Option.or_eq_some_iff.mp h
  · obtain ⟨i, hi, rfl⟩ := Option.map_eq_some_iff.mp h
    have := (List.findIdx?_eq_some_iff_getElem.mp hi).1
    rw [List.length_reverse] at this
    omega
  · exact (List.findIdx?_eq_some_iff_getElem.mp h).1

/-- A slice holds the start of every path to its operand and the instructions on it. -/
theorem runSliceWith_path {arch : Arch} {transfer : InsnInstance → Transfer}
    {insns : List InsnInstance} {seq : Nat} {operand : Operand} {slice : Slice}
    (hslice : runSliceWith arch transfer insns seq operand = some slice) {o k : Key} {ds : List Nat}
    (hpath : Dataflow.Path (stepsAt transfer insns) o (slice.target + 1) k ds)
    (hk : k ∈ operand.bytes arch) : slice.Demands o ∧ ∀ d ∈ ds, d ∈ slice.inSlice := by
  obtain ⟨target, -, rfl⟩ := Option.map_eq_some_iff.mp hslice
  obtain ⟨hdemand, hsub, hhits⟩ := sliceLoop_spec (stepsAt transfer insns) target
    (resolveTransferDemand (operand.bytes arch) (stepsAt transfer insns target)).1 {target}
  obtain ⟨ho, hds⟩ := hpath.covered (by rw [demands_self]; exact hk)
    (demands_covers (stepsAt transfer insns) (target + 1) (operand.bytes arch))
  rw [demands_succ _ _ (Nat.zero_le target), ← hdemand] at ho
  refine ⟨Slice.demands_iff.mpr ho, fun d hd => ?_⟩
  obtain ⟨hdlt, hne⟩ := hds d hd
  obtain hdlt | rfl := Nat.lt_succ_iff_lt_or_eq.mp hdlt
  · rw [demands_succ _ _ hdlt] at hne
    exact hhits d hdlt hne
  · exact hsub (Finset.mem_singleton_self d)

/-- Let some byte of the operand carry the label `l` after `run_forward` has processed the
window up to and including the target of a slice.  Then the entry demand of the slice holds
a byte of a source with the label, and every instruction that deposited the label on its way
from a source to the operand is in the slice. -/
theorem slice_covers (arch : Arch) (transfer : InsnInstance → Transfer) (sources : List Source)
    (sinks : List Sink) (insns : List InsnInstance) (seq : Nat) (operand : Operand) (slice : Slice)
    (hsources : ∀ s ∈ sources, s.AtStart)
    (hslice : runSliceWith arch transfer insns seq operand = some slice) (k : Key)
    (hk : k ∈ operand.bytes arch) (l : Nat)
    (hl : l ∈ ((runForwardWith arch transfer sources sinks
      (insns.take (slice.target + 1))).state.get k).labels) :
    (∃ s ∈ sources, s.label = l ∧ ∃ o, s.Covers arch o ∧ slice.Demands o) ∧
    ∀ o ds, Dataflow.Path (stepsAt transfer insns) o (slice.target + 1) k ds →
      l ∈ ((sources.foldl (seed arch) .empty).get o).labels → ∀ d ∈ ds, d ∈ slice.inSlice := by
  refine ⟨?_, fun o ds hpath _ => (runSliceWith_path hslice hpath hk).2⟩
  have hlt : slice.target < insns.length := by
    obtain ⟨target, htarget, rfl⟩ := Option.map_eq_some_iff.mp hslice
    exact findTarget_lt htarget
  rw [← mem_labelsOf, runForwardWith_labels sinks hsources (Nat.succ_le_of_lt hlt)] at hl
  obtain ⟨o, ds, hpath, ho⟩ := Dataflow.mem_labels_iff.mp hl
  obtain ⟨s, hs, hsl, hcovers⟩ := mem_labels_seeded ho
  exact ⟨s, hs, hsl, o, hcovers, (runSliceWith_path hslice hpath hk).1⟩

/-- `mov rbx, rax` and `mov [0x1000], rbx`. -/
def moveWindow : List InsnInstance :=
  [⟨10, 0x400000, ⟨.mov, "mov rbx, rax",
      [⟨.reg (.q 3), ⟨false, true⟩, 8, none⟩, ⟨.reg (.q 0), ⟨true, false⟩, 8, none⟩], true⟩, [], []⟩,
    ⟨11, 0x400003, ⟨.mov, "mov qword ptr [0x1000], rbx",
      [⟨.mem none none 1 0x1000, ⟨false, true⟩, 8, none⟩, ⟨.reg (.q 3), ⟨true, false⟩, 8, none⟩],
      true⟩, [⟨12, 0x1000, 8, true⟩], [0]⟩]

theorem slice_covers_moves :
    ∃ slice, runSlice .x64 moveWindow 11 (.mem 0x1000 8) = some slice ∧
      (∃ s ∈ [Source.mk 0 (.reg (.q 0))], s.label = 0 ∧
        ∃ o, s.Covers .x64 o ∧ slice.Demands o) ∧
      ∀ o ds, Dataflow.Path (stepsAt (InsnInstance.transfer .x64) moveWindow) o
          (slice.target + 1) (.mem 0x1000) ds →
        0 ∈ (([Source.mk 0 (.reg (.q 0))].foldl (seed .x64) .empty).get o).labels →
        ∀ d ∈ ds, d ∈ slice.inSlice :=
  ⟨_, rfl, slice_covers .x64 (InsnInstance.transfer .x64) [⟨0, .reg (.q 0)⟩] [] moveWindow 11
    (.mem 0x1000 8) _ (by simp [Source.AtStart]) rfl (.mem 0x1000) (by decide) 0 (by decide)⟩

end PinBridge.Taint
