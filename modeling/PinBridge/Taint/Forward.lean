import Mathlib.Data.Finset.Lattice.Fold
import Mathlib.Data.Finset.Union
import Mathlib.Order.Lattice.Nat
import PinBridge.Taint.Instruction

/-!
# The forward analysis

`run_forward` of `taint.py`: sources seed the registers and the shadow memory, every
instruction deposits the taint of what it reads, and the sinks are recorded.

The source keeps the register banks and the shadow memory in dictionaries that change in
place.  Here they are functions, and an instruction is a function on the state: all steps
read the state before it (`look`), and `deposits` is what they leave, the last step
winning.  `source_label_at` labels a memory byte only where the shadow memory has no
entry, so the shadow memory tells an absent entry from a clean one.

`Forward.hits` holds every call of `record_sink`.  The source counts them all and lists the
first `max_sink_lines`.
-/

namespace PinBridge.Taint

/-! ## Taint entries -/

/-- A taint entry: the labels and the chain depth. -/
structure Entry where
  labels : Finset Nat
  depth : Nat
deriving DecidableEq

/-- `CLEAN`. -/
def Entry.clean : Entry := ⟨∅, 0⟩

/-- `(frozenset([label]), 1)`. -/
def Entry.fresh (label : Nat) : Entry := ⟨{label}, 1⟩

/-- `taint_union` of the entries of `keys`. -/
def taintUnion {ι : Type*} (keys : Finset ι) (entry : ι → Entry) : Entry :=
  let labels := keys.biUnion fun k => (entry k).labels
  if labels = ∅ then .clean else ⟨labels, keys.sup fun k => (entry k).depth⟩

theorem mem_labels_taintUnion {ι : Type*} {keys : Finset ι} {entry : ι → Entry} {l : Nat} :
    l ∈ (taintUnion keys entry).labels ↔ ∃ k ∈ keys, l ∈ (entry k).labels := by
  have hparts : (taintUnion keys entry).labels = keys.biUnion fun k => (entry k).labels := by
    unfold taintUnion
    dsimp only
    split
    case isTrue h => rw [h]; rfl
    case isFalse => rfl
  rw [hparts, Finset.mem_biUnion]

/-- `taint_union` of an entry and the labels of the fired event sources. -/
def Entry.fire (e : Entry) (fired : Finset Nat) : Entry := taintUnion {e, ⟨fired, 1⟩} id

theorem Entry.mem_labels_fire {e : Entry} {fired : Finset Nat} {l : Nat} :
    l ∈ (e.fire fired).labels ↔ l ∈ e.labels ∨ l ∈ fired := by
  simp [Entry.fire, mem_labels_taintUnion]

/-! ## Sources and sinks -/

/-- `Source.when` of a memory source. -/
inductive When where
  | firstTouch
  | start
deriving DecidableEq, Repr

/-- A parsed source specification. -/
inductive SourceSpec where
  | reg (r : Reg)
  /-- The bytes `lo ≤ b < hi`. -/
  | mem (lo hi : Int) (when : When)
  | event (index : Int)
deriving DecidableEq, Repr

/-- `class Source`; the label `i` stands for `"s%d" % i`. -/
structure Source where
  label : Nat
  spec : SourceSpec
deriving DecidableEq, Repr

/-- A parsed sink. -/
inductive Sink where
  | reg (r : Reg)
  | mem (lo hi : Int)
deriving DecidableEq, Repr

/-- The kinds of a sink hit. -/
inductive HitKind where
  | controlFlow
  | dataWrite
  | customMemWrite
  | customRegWrite
deriving DecidableEq, Repr

/-- What `record_sink` is called with. -/
structure Hit where
  seq : Nat
  ip : Nat
  text : String
  kind : HitKind
  entry : Entry
deriving DecidableEq

/-! ## The state -/

/-- The register banks and the shadow memory. -/
structure State where
  regs : Base → Nat → Entry
  shadow : Int → Option Entry

/-- Before seeding. -/
def State.empty : State := ⟨fun _ _ => .clean, fun _ => none⟩

/-- The entry of a byte. -/
def State.get (st : State) : Key → Entry
  | .reg base i => st.regs base i
  | .mem b => (st.shadow b).getD .clean

/-- `RegState.write`. -/
def State.writeReg (arch : Arch) (st : State) (r : Reg) (entry : Entry) : State :=
  let (full, val) := regDefBytes arch r
  { st with regs := fun base i =>
      if .reg base i ∈ val then entry
      else if .reg base i ∈ full then .clean
      else st.regs base i }

/-- Seeds one source. -/
def seed (arch : Arch) (st : State) (s : Source) : State :=
  match s.spec with
  | .reg r => st.writeReg arch r (.fresh s.label)
  | .mem lo hi .start =>
      { st with shadow := fun b => if lo ≤ b ∧ b < hi then some (.fresh s.label) else st.shadow b }
  | .mem _ _ .firstTouch | .event _ => st

/-- `source_label_at`: the first source wins. -/
def sourceLabelAt (sources : List Source) (b : Int) : Option Nat :=
  sources.findSome? fun s => match s.spec with
    | .mem lo hi .firstTouch => if lo ≤ b ∧ b < hi then some s.label else none
    | _ => none

/-- The labels of the event sources that fire at an instruction. -/
def fired (sources : List Source) (inst : InsnInstance) : Finset Nat :=
  sources.foldr (fun s labels => match s.spec with
    | .event index => if index ∈ inst.memIndices.map Int.ofNat then insert s.label labels else labels
    | _ => labels) ∅

theorem mem_fired {sources : List Source} {inst : InsnInstance} {l : Nat} :
    l ∈ fired sources inst ↔
      ∃ i ∈ inst.memIndices, ⟨l, .event i⟩ ∈ sources := by
  induction sources with
  | nil => simp [fired]
  | cons s sources ih =>
      obtain ⟨label, spec⟩ := s
      have hcons : fired (⟨label, spec⟩ :: sources) inst = match spec with
          | .event index => if index ∈ inst.memIndices.map Int.ofNat then
              insert label (fired sources inst) else fired sources inst
          | _ => fired sources inst := by
        cases spec <;> rfl
      rw [hcons]
      cases spec with
      | reg r => simp [ih]
      | mem lo hi when => simp [ih]
      | event index =>
          by_cases hi : index ∈ inst.memIndices.map Int.ofNat
          · simp only [hi, if_true, Finset.mem_insert, ih, List.mem_cons, Source.mk.injEq,
              SourceSpec.event.injEq]
            obtain ⟨i, hmem, rfl⟩ := List.mem_map.mp hi
            constructor
            · rintro (rfl | ⟨j, hj, hs⟩)
              · exact ⟨i, hmem, .inl ⟨rfl, rfl⟩⟩
              · exact ⟨j, hj, .inr hs⟩
            · rintro ⟨j, hj, ⟨rfl, -⟩ | hs⟩
              · exact .inl rfl
              · exact .inr ⟨j, hj, hs⟩
          · simp only [hi, if_false, ih, List.mem_cons, Source.mk.injEq, SourceSpec.event.injEq]
            constructor
            · rintro ⟨j, hj, hs⟩
              exact ⟨j, hj, .inr hs⟩
            · rintro ⟨j, hj, ⟨-, rfl⟩ | hs⟩
              · exact absurd (List.mem_map.mpr ⟨j, hj, rfl⟩) hi
              · exact ⟨j, hj, hs⟩

/-! ## One instruction -/

/-- The entry of a memory byte that the instruction reads, before its events fire. -/
def touch (sources : List Source) (st : State) (b : Int) : Entry :=
  match st.shadow b with
  | some e => e
  | none => match sourceLabelAt sources b with
    | some label => .fresh label
    | none => .clean

/-- `read_taint` of one key. -/
def look (sources : List Source) (st : State) (events : Events) (fired : Finset Nat) :
    Key → Entry
  | .reg base i => st.regs base i
  | .mem b =>
      if .mem b ∈ events.readKeys then
        if fired = ∅ then touch sources st b else (touch sources st b).fire fired
      else (st.shadow b).getD .clean

/-- What a step deposits in one of the bytes it overwrites. -/
def deposit (look : Key → Entry) (step : Step) (k : Key) : Entry :=
  if k ∈ step.defVal then
    let src := taintUnion step.uses look
    if src.labels = ∅ then src else ⟨src.labels, src.depth + 1⟩
  else .clean

/-- `written_entries` and `written_reg_entries` after the steps. -/
def deposits (look : Key → Entry) (steps : List Step) : Key → Option Entry :=
  steps.foldl (fun written step k =>
    if k ∈ step.defFull then some (deposit look step k) else written k) fun _ => none

/-- The last step that overwrites a byte decides its entry. -/
theorem deposits_eq (look : Key → Entry) (steps : List Step) (k : Key) :
    deposits look steps k = (Dataflow.writer steps k).map fun step => deposit look step k := by
  induction steps using List.reverseRecOn with
  | nil => rfl
  | append_singleton steps step ih =>
      rw [deposits, List.foldl_append, List.foldl_cons, List.foldl_nil, Dataflow.writer_concat]
      split
      · rfl
      · exact ih

/-- The state after the steps. -/
def State.write (st : State) (written : Key → Option Entry) : State where
  regs := fun base i => (written (.reg base i)).getD (st.regs base i)
  shadow := fun b => (written (.mem b)).or (st.shadow b)

/-- The bytes that event sources label in place: the written ones, when the instruction
reads no memory. -/
def firedWrites (events : Events) (fired : Finset Nat) : Finset Key :=
  if fired ≠ ∅ ∧ events.reads = [] then events.writeKeys else ∅

theorem mem_firedWrites {events : Events} {fired : Finset Nat} {k : Key} :
    k ∈ firedWrites events fired ↔ fired ≠ ∅ ∧ events.reads = [] ∧ k ∈ events.writeKeys := by
  unfold firedWrites
  split
  case isTrue h => simp [h.1, h.2]
  case isFalse h =>
    simp only [Finset.notMem_empty, false_iff]
    exact fun hk => h ⟨hk.1, hk.2.1⟩

/-- The entries this instruction writes, events included. -/
def writtenEntries (look : Key → Entry) (st : State) (steps : List Step) (events : Events)
    (fired : Finset Nat) (k : Key) : Option Entry :=
  let written := deposits look steps
  if k ∈ firedWrites events fired then some (((st.write written).get k).fire fired) else written k

/-- The sinks of one instruction, in order. -/
def sinkHits (arch : Arch) (sources : List Source) (sinks : List Sink) (inst : InsnInstance)
    (events : Events) (cfTaint : Entry) (written : Key → Option Entry) : List Hit :=
  let hit kind entry := Hit.mk inst.seq inst.ip inst.decoded.text kind entry
  let controlFlow := if cfTaint.labels = ∅ then [] else [hit .controlFlow cfTaint]
  let dataWrites := events.writes.flatMap fun (ea, size) =>
    let entry := taintUnion (memKeys ea size) fun k => (written k).getD .clean
    let inSource := sources.any fun s => match s.spec with
      | .mem lo hi _ => lo ≤ ea ∧ ea + size ≤ hi
      | _ => false
    let custom := sinks.any fun s => match s with
      | .mem lo hi => lo ≤ ea ∧ ea + size ≤ hi
      | .reg _ => false
    if entry.labels = ∅ then []
    else if custom then [hit .customMemWrite entry]
    else if inSource then []
    else [hit .dataWrite entry]
  let regWrites := sinks.flatMap fun s => match s with
    | .reg r =>
        let entry := taintUnion (regBytes arch r) fun k => (written k).getD .clean
        if r = arch.ip ∨ entry.labels = ∅ then [] else [hit .customRegWrite entry]
    | .mem _ _ => []
  controlFlow ++ dataWrites ++ regWrites

/-- What `run_forward` has computed so far. -/
structure Forward where
  state : State
  hits : List Hit

/-- One iteration of the loop of `run_forward`. -/
def forwardStep (arch : Arch) (transfer : InsnInstance → Transfer) (sources : List Source)
    (sinks : List Sink) (fwd : Forward) (inst : InsnInstance) : Forward :=
  let events := resolveEvents inst
  let labels := fired sources inst
  let read := look sources fwd.state events labels
  let tr := transfer inst
  let written := writtenEntries read fwd.state tr.steps events labels
  { state := fwd.state.write written
    hits := fwd.hits ++
      sinkHits arch sources sinks inst events (taintUnion tr.cfUses read) written }

/-- `run_forward`, for any way to compute the transfers. -/
def runForwardWith (arch : Arch) (transfer : InsnInstance → Transfer) (sources : List Source)
    (sinks : List Sink) (insns : List InsnInstance) : Forward :=
  insns.foldl (forwardStep arch transfer sources sinks) ⟨sources.foldl (seed arch) .empty, []⟩

/-- `run_forward`. -/
def runForward (arch : Arch) (sources : List Source) (sinks : List Sink)
    (insns : List InsnInstance) : Forward :=
  runForwardWith arch (InsnInstance.transfer arch) sources sinks insns

theorem runForwardWith_concat (arch : Arch) (transfer : InsnInstance → Transfer)
    (sources : List Source) (sinks : List Sink) (insns : List InsnInstance) (inst : InsnInstance) :
    runForwardWith arch transfer sources sinks (insns ++ [inst]) =
      forwardStep arch transfer sources sinks
        (runForwardWith arch transfer sources sinks insns) inst := by
  rw [runForwardWith, List.foldl_append]
  rfl

/-! ## Labels -/

/-- The labels of a function that gives every byte an entry. -/
def labelsOf (entry : Key → Entry) (k : Key) : Set Nat := {l | l ∈ (entry k).labels}

@[simp] theorem mem_labelsOf {entry : Key → Entry} {k : Key} {l : Nat} :
    l ∈ labelsOf entry k ↔ l ∈ (entry k).labels := Iff.rfl

theorem State.get_write (st : State) (written : Key → Option Entry) (k : Key) :
    (st.write written).get k = (written k).getD (st.get k) := by
  cases k with
  | reg base i => rfl
  | mem b =>
      simp only [State.get, State.write]
      cases written (.mem b) <;> rfl

theorem mem_labels_deposit {look : Key → Entry} {step : Step} {k : Key} {l : Nat} :
    l ∈ (deposit look step k).labels ↔ k ∈ step.defVal ∧ ∃ u ∈ step.uses, l ∈ (look u).labels := by
  unfold deposit
  by_cases hk : k ∈ step.defVal
  · rw [if_pos hk, ← mem_labels_taintUnion]
    dsimp only
    split <;> simp [hk]
  · simp [hk, Entry.clean]

/-- The labels the steps leave. -/
theorem labelsOf_deposits (look : Key → Entry) (steps : List Step) (st : State) (k : Key) :
    labelsOf (fun k => (deposits look steps k).getD (st.get k)) k =
      Dataflow.propagate steps (labelsOf look) (labelsOf st.get) k := by
  ext l
  simp only [mem_labelsOf, deposits_eq]
  unfold Dataflow.propagate
  cases Dataflow.writer steps k with
  | none => rfl
  | some step =>
      simp only [Option.map_some, Option.getD_some, mem_labels_deposit]
      by_cases hk : k ∈ step.defVal <;> simp [hk]

/-- The labels after an instruction: what its steps propagate and what its events add. -/
theorem mem_labels_forwardStep {arch : Arch} {transfer : InsnInstance → Transfer}
    {sources : List Source} {sinks : List Sink} {fwd : Forward} {inst : InsnInstance} {k : Key}
    {l : Nat} :
    l ∈ ((forwardStep arch transfer sources sinks fwd inst).state.get k).labels ↔
      l ∈ Dataflow.propagate (transfer inst).steps
        (labelsOf (look sources fwd.state (resolveEvents inst) (fired sources inst)))
        (labelsOf fwd.state.get) k ∨
      k ∈ firedWrites (resolveEvents inst) (fired sources inst) ∧ l ∈ fired sources inst := by
  rw [← labelsOf_deposits]
  simp only [forwardStep, State.get_write, writtenEntries, mem_labelsOf]
  by_cases hk : k ∈ firedWrites (resolveEvents inst) (fired sources inst)
  · simp [hk, Entry.mem_labels_fire]
  · simp [hk]

end PinBridge.Taint
