import PinBridge.Taint.Forward

/-!
# Adding sources

Does a run with the sources `S ++ T` find all that a run with `S` finds?  Event sources add
their labels to what is there.  Seeding overwrites: a later source takes the bytes of an
earlier one, and a 32-bit register source on x64 clears the upper half of the register.
And a first-touch source labels a byte only as long as the shadow memory has no entry for
it, so a `@start` source or an event that fires on a write can take the byte away.

`Compatible S T` excludes these three.  `nothingHidden_of_compatible` is the simulation of
the two runs (`Below`), for any transfers, and `nothingHidden_iff` says that on the code's
own transfers nothing less will do.
-/

namespace PinBridge.Taint

open scoped Sizes

/-! ## Two lists of sources -/

/-- `cmd_forward` labels the sources by their position. -/
def numbered (specs : List SourceSpec) : List Source := specs.mapIdx fun i spec => ⟨i, spec⟩

/-- The run with the sources `S ++ T` finds what the run with `S` finds: at every
instruction all labels of every byte, and all hits of the control-flow sink. -/
structure NothingHidden (arch : Arch) (transfer : InsnInstance → Transfer)
    (S T : List SourceSpec) (sinks : List Sink) (insns : List InsnInstance) : Prop where
  labels : ∀ j k, ((runForwardWith arch transfer (numbered S) sinks
      (insns.take j)).state.get k).labels ⊆
    ((runForwardWith arch transfer (numbered (S ++ T)) sinks (insns.take j)).state.get k).labels
  hits : ∀ hit ∈ (runForwardWith arch transfer (numbered S) sinks insns).hits,
    hit.kind = .controlFlow →
    ∃ hit' ∈ (runForwardWith arch transfer (numbered (S ++ T)) sinks insns).hits,
      hit'.kind = .controlFlow ∧ hit'.seq = hit.seq ∧ hit'.ip = hit.ip ∧ hit'.text = hit.text ∧
        hit.entry.labels ⊆ hit'.entry.labels

/-- Seeding the source sets the byte, to its label or to clean. -/
def SourceSpec.Sets (arch : Arch) (s : SourceSpec) (k : Key) : Prop :=
  match s with
  | .reg r => k ∈ (regDefBytes arch r).1
  | .mem lo hi .start => ∃ b, k = .mem b ∧ lo ≤ b ∧ b < hi
  | .mem _ _ .firstTouch | .event _ => False

/-- Seeding the source labels the byte. -/
def SourceSpec.Labels (arch : Arch) (s : SourceSpec) (k : Key) : Prop :=
  match s with
  | .reg r => k ∈ (regDefBytes arch r).2
  | .mem lo hi .start => ∃ b, k = .mem b ∧ lo ≤ b ∧ b < hi
  | .mem _ _ .firstTouch | .event _ => False

/-- The last source that sets the byte labels it. -/
def Marked (arch : Arch) (S : List SourceSpec) (k : Key) : Prop :=
  ∃ pre s post, S = pre ++ s :: post ∧ s.Labels arch k ∧ ∀ s' ∈ post, ¬ s'.Sets arch k

/-- A byte of a first-touch source that no `@start` source seeds. -/
def FirstTouch (arch : Arch) (S : List SourceSpec) (b : Int) : Prop :=
  (∃ lo hi, .mem lo hi .firstTouch ∈ S ∧ lo ≤ b ∧ b < hi) ∧ ∀ s ∈ S, ¬ s.Sets arch (.mem b)

/-- When adding the sources `T` hides nothing. -/
structure Compatible (arch : Arch) (S T : List SourceSpec) : Prop where
  /-- `T` sets no byte that `S` leaves labelled. -/
  seeds : ∀ k, Marked arch S k → ∀ t ∈ T, ¬ t.Sets arch k
  /-- `T` sets no first-touch byte of `S`. -/
  touches : ∀ b, FirstTouch arch S b → ∀ t ∈ T, ¬ t.Sets arch (.mem b)
  /-- If `S` has a first-touch byte, the event sources of `T` fire only where one of `S`
  does. -/
  events : (∃ b, FirstTouch arch S b) → ∀ i : Nat, .event i ∈ T → .event i ∈ S

variable {arch : Arch} {S T : List SourceSpec}

theorem mem_numbered {specs : List SourceSpec} {s : Source} :
    s ∈ numbered specs ↔ specs[s.label]? = some s.spec := by
  obtain ⟨label, spec⟩ := s
  simp only [numbered, List.mem_mapIdx, Source.mk.injEq]
  constructor
  · rintro ⟨i, hi, rfl, rfl⟩
    exact List.getElem?_eq_getElem hi
  · intro h
    obtain ⟨hi, hget⟩ := List.getElem?_eq_some_iff.mp h
    exact ⟨label, hi, rfl, hget⟩

/-- The sources of `T` behind those of `S`. -/
def numberedFrom (n : Nat) (specs : List SourceSpec) : List Source :=
  specs.mapIdx fun i spec => ⟨i + n, spec⟩

theorem numbered_append (S T : List SourceSpec) :
    numbered (S ++ T) = numbered S ++ numberedFrom S.length T := List.mapIdx_append

theorem mem_numberedFrom {n : Nat} {specs : List SourceSpec} {s : Source}
    (h : s ∈ numberedFrom n specs) : s.spec ∈ specs ∧ n ≤ s.label := by
  obtain ⟨i, hi, rfl⟩ := List.mem_mapIdx.mp h
  exact ⟨List.getElem_mem hi, Nat.le_add_left n i⟩

theorem exists_mem_numberedFrom (n : Nat) {specs : List SourceSpec} {spec : SourceSpec}
    (h : spec ∈ specs) : ∃ s ∈ numberedFrom n specs, s.spec = spec := by
  obtain ⟨i, hi, rfl⟩ := List.mem_iff_getElem.mp h
  exact ⟨⟨i + n, specs[i]⟩, List.mem_mapIdx.mpr ⟨i, hi, rfl⟩, rfl⟩

/-! ## Seeding -/

theorem SourceSpec.Labels.sets {s : SourceSpec} {k : Key} (h : s.Labels arch k) :
    s.Sets arch k := by
  cases s with
  | reg r => exact regDefBytes_subset arch r h
  | mem lo hi when =>
      cases when with
      | firstTouch => exact h.elim
      | start => exact h
  | event index => exact h.elim

/-- What seeding one source does to a byte. -/
theorem seed_get (arch : Arch) (st : State) (s : Source) (k : Key) :
    s.spec.Labels arch k ∧ (seed arch st s).get k = .fresh s.label ∨
    s.spec.Sets arch k ∧ ¬ s.spec.Labels arch k ∧ (seed arch st s).get k = .clean ∨
    ¬ s.spec.Sets arch k ∧ (seed arch st s).get k = st.get k := by
  obtain ⟨label, spec⟩ := s
  cases spec with
  | reg r =>
      cases k with
      | mem b => exact .inr (.inr ⟨mem_notMem_regDefBytes arch r b, rfl⟩)
      | reg base i =>
          by_cases hval : .reg base i ∈ (regDefBytes arch r).2
          · exact .inl ⟨hval, by simp [seed, State.writeReg, State.get, hval]⟩
          · by_cases hfull : .reg base i ∈ (regDefBytes arch r).1
            · exact .inr (.inl ⟨hfull, hval, by
                simp [seed, State.writeReg, State.get, hval, hfull]⟩)
            · exact .inr (.inr ⟨hfull, by simp [seed, State.writeReg, State.get, hval, hfull]⟩)
  | mem lo hi when =>
      cases when with
      | firstTouch => exact .inr (.inr ⟨id, rfl⟩)
      | start =>
          cases k with
          | reg base i =>
              refine .inr (.inr ⟨?_, rfl⟩)
              rintro ⟨_, hb, _⟩
              cases hb
          | mem b =>
              by_cases hb : lo ≤ b ∧ b < hi
              · exact .inl ⟨⟨b, rfl, hb⟩, by simp [seed, State.get, hb]⟩
              · refine .inr (.inr ⟨?_, by simp only [seed, State.get]; rw [if_neg hb]⟩)
                rintro ⟨b', hb', hrange⟩
                cases hb'
                exact hb hrange
  | event index => exact .inr (.inr ⟨id, rfl⟩)

theorem seed_of_not_sets {st : State} {s : Source} {k : Key} (h : ¬ s.spec.Sets arch k) :
    (seed arch st s).get k = st.get k := by
  obtain ⟨hlabels, -⟩ | ⟨hsets, -⟩ | ⟨-, hget⟩ := seed_get arch st s k
  · exact absurd hlabels.sets h
  · exact absurd hsets h
  · exact hget

theorem labels_seed_of_sets {st : State} {s : Source} {k : Key} (h : s.spec.Sets arch k) :
    ((seed arch st s).get k).labels ⊆ {s.label} := by
  obtain ⟨-, hget⟩ | ⟨-, -, hget⟩ | ⟨hsets, -⟩ := seed_get arch st s k
  · rw [hget]
    exact Finset.Subset.refl _
  · rw [hget]
    exact Finset.empty_subset _
  · exact absurd h hsets

/-- Sources that do not set a byte leave it alone. -/
theorem seeds_of_not_sets {sources : List Source} {st : State} {k : Key}
    (h : ∀ s ∈ sources, ¬ s.spec.Sets arch k) :
    (sources.foldl (seed arch) st).get k = st.get k := by
  induction sources generalizing st with
  | nil => rfl
  | cons s sources ih =>
      rw [List.foldl_cons, ih fun s' hs' => h s' (List.mem_cons_of_mem _ hs'),
        seed_of_not_sets (h s List.mem_cons_self)]

/-- Once a byte is set, its labels come from the sources that follow. -/
theorem labels_seeds_of_sets {sources : List Source} {st : State} {k : Key}
    (h : ∃ s ∈ sources, s.spec.Sets arch k) {l : Nat}
    (hl : l ∈ ((sources.foldl (seed arch) st).get k).labels) : ∃ s ∈ sources, s.label = l := by
  induction sources using List.reverseRecOn with
  | nil => simp at h
  | append_singleton sources s ih =>
      rw [List.foldl_append, List.foldl_cons, List.foldl_nil] at hl
      by_cases hs : s.spec.Sets arch k
      · exact ⟨s, by simp, (Finset.mem_singleton.mp (labels_seed_of_sets hs hl)).symm⟩
      · rw [seed_of_not_sets hs] at hl
        obtain ⟨s', hs', hset⟩ := h
        obtain hs' | hs' := List.mem_append.mp hs'
        · obtain ⟨s'', hs'', hlabel⟩ := ih ⟨s', hs', hset⟩ hl
          exact ⟨s'', List.mem_append_left _ hs'', hlabel⟩
        · rw [List.mem_singleton.mp hs'] at hset
          exact absurd hset hs

theorem seed_shadow_eq_none {st : State} {s : Source} {b : Int} :
    (seed arch st s).shadow b = none ↔ st.shadow b = none ∧ ¬ s.spec.Sets arch (.mem b) := by
  obtain ⟨label, spec⟩ := s
  cases spec with
  | reg r => exact (and_iff_left (mem_notMem_regDefBytes arch r b)).symm
  | mem lo hi when =>
      cases when with
      | firstTouch => exact (and_iff_left id).symm
      | start =>
          by_cases hb : lo ≤ b ∧ b < hi <;> simp [seed, SourceSpec.Sets, hb]
  | event index => exact (and_iff_left id).symm

/-- The shadow memory has an entry for a byte exactly when a source sets it. -/
theorem shadow_seeds_eq_none {sources : List Source} {st : State} {b : Int} :
    (sources.foldl (seed arch) st).shadow b = none ↔
      st.shadow b = none ∧ ∀ s ∈ sources, ¬ s.spec.Sets arch (.mem b) := by
  induction sources generalizing st with
  | nil => simp
  | cons s sources ih =>
      rw [List.foldl_cons, ih, seed_shadow_eq_none, List.forall_mem_cons, and_assoc]

/-- Seeding leaves a label exactly on the marked bytes. -/
theorem marked_of_mem_labels {sources : List Source} {k : Key} {l : Nat}
    (h : l ∈ ((sources.foldl (seed arch) .empty).get k).labels) :
    Marked arch (sources.map (·.spec)) k := by
  induction sources using List.reverseRecOn with
  | nil => cases k <;> cases h
  | append_singleton sources s ih =>
      rw [List.foldl_append, List.foldl_cons, List.foldl_nil] at h
      rw [List.map_append, List.map_singleton]
      by_cases hs : s.spec.Sets arch k
      · by_cases hlabels : s.spec.Labels arch k
        · exact ⟨_, _, [], rfl, hlabels, nofun⟩
        · obtain ⟨hl, -⟩ | ⟨-, -, hget⟩ | ⟨hnot, -⟩ := seed_get arch
              (sources.foldl (seed arch) .empty) s k
          · exact absurd hl hlabels
          · rw [hget] at h
            cases h
          · exact absurd hs hnot
      · rw [seed_of_not_sets hs] at h
        obtain ⟨pre, s', post, heq, hlabels, hpost⟩ := ih h
        refine ⟨pre, s', post ++ [s.spec], by rw [heq]; simp, hlabels, fun t ht => ?_⟩
        obtain ht | ht := List.mem_append.mp ht
        · exact hpost t ht
        · rw [List.mem_singleton.mp ht]
          exact hs

theorem map_spec_numbered (specs : List SourceSpec) : (numbered specs).map (·.spec) = specs :=
  List.ext_getElem (by simp [numbered]) (by simp [numbered])

/-! ## Compatible sources: the simulation -/

theorem fired_subset (S T : List SourceSpec) (inst : InsnInstance) :
    fired (numbered S) inst ⊆ fired (numbered (S ++ T)) inst := by
  intro l hl
  obtain ⟨i, hi, hs⟩ := mem_fired.mp hl
  exact mem_fired.mpr ⟨i, hi, by rw [numbered_append]; exact List.mem_append_left _ hs⟩

/-- The run with `S` is below the run with `S ++ T`: fewer labels, and no first-touch byte
of `S` has an entry that it lacks with `S` alone. -/
structure Below (arch : Arch) (S : List SourceSpec) (st st' : State) : Prop where
  labels : ∀ k, labelsOf st.get k ⊆ labelsOf st'.get k
  absent : ∀ b, st.shadow b = none → st'.shadow b = none ∨ ¬ FirstTouch arch S b
  seeded : ∀ b, st.shadow b = none → ∀ s ∈ S, ¬ s.Sets arch (.mem b)

theorem Below.seed (h : Compatible arch S T) :
    Below arch S ((numbered S).foldl (seed arch) .empty)
      ((numbered (S ++ T)).foldl (Taint.seed arch) .empty) := by
  have hsets : ∀ b, ((numbered S).foldl (Taint.seed arch) .empty).shadow b = none →
      ∀ s ∈ S, ¬ s.Sets arch (.mem b) := by
    intro b hb s hs
    obtain ⟨i, hi⟩ := List.mem_iff_getElem?.mp hs
    exact (shadow_seeds_eq_none.mp hb).2 ⟨i, s⟩ (mem_numbered.mpr hi)
  have hkeep : ∀ k, (∀ t ∈ T, ¬ t.Sets arch k) →
      ((numbered (S ++ T)).foldl (Taint.seed arch) .empty).get k =
        ((numbered S).foldl (Taint.seed arch) .empty).get k := by
    intro k hk
    rw [numbered_append, List.foldl_append]
    exact seeds_of_not_sets fun s hs => hk s.spec (mem_numberedFrom hs).1
  refine ⟨fun k l hl => ?_, fun b hb => ?_, hsets⟩
  · have hmarked := marked_of_mem_labels hl
    rw [map_spec_numbered] at hmarked
    rw [mem_labelsOf, hkeep k (h.seeds k hmarked)]
    exact hl
  · by_cases htouch : FirstTouch arch S b
    · refine .inl ?_
      rw [numbered_append, List.foldl_append, shadow_seeds_eq_none]
      exact ⟨hb, fun s hs => h.touches b htouch s.spec (mem_numberedFrom hs).1⟩
    · exact .inr htouch

/-- What the first-touch sources label. -/
theorem mem_of_sourceLabelAt {specs : List SourceSpec} {b : Int} {l : Nat}
    (h : sourceLabelAt (numbered specs) b = some l) :
    ∃ lo hi, specs[l]? = some (.mem lo hi .firstTouch) ∧ lo ≤ b ∧ b < hi := by
  obtain ⟨⟨label, spec⟩, hs, hlabel⟩ := List.exists_of_findSome?_eq_some h
  cases spec with
  | reg | event => cases hlabel
  | mem lo hi when =>
      cases when with
      | start => cases hlabel
      | firstTouch =>
          dsimp only at hlabel
          split at hlabel
          case isTrue hb =>
            cases hlabel
            exact ⟨lo, hi, mem_numbered.mp hs, hb⟩
          case isFalse => cases hlabel

theorem mem_labels_look_mem {sources : List Source} {st : State} {events : Events}
    {fired : Finset Nat} {b : Int} (hb : .mem b ∈ events.readKeys) {l : Nat} :
    l ∈ (look sources st events fired (.mem b)).labels ↔
      l ∈ (touch sources st b).labels ∨ l ∈ fired := by
  simp only [look, hb, if_true]
  split
  case isTrue hnone => simp [hnone]
  case isFalse => exact Entry.mem_labels_fire

theorem Below.touch {st st' : State} (h : Below arch S st st') (b : Int) :
    (touch (numbered S) st b).labels ⊆ (touch (numbered (S ++ T)) st' b).labels := by
  have hlabels : ∀ l ∈ (st.get (.mem b)).labels, l ∈ (st'.get (.mem b)).labels :=
    fun l hl => h.labels (.mem b) hl
  intro l hl
  simp only [Taint.touch, State.get] at hl hlabels ⊢
  cases hst : st.shadow b with
  | some e =>
      rw [hst] at hl hlabels
      have := hlabels l hl
      cases hst' : st'.shadow b with
      | none =>
          rw [hst'] at this
          cases this
      | some e' =>
          rw [hst'] at this
          exact this
  | none =>
      rw [hst] at hl
      cases hlabel : sourceLabelAt (numbered S) b with
      | none =>
          rw [hlabel] at hl
          cases hl
      | some l' =>
          rw [hlabel] at hl
          obtain ⟨lo, hi, hget, hrange⟩ := mem_of_sourceLabelAt hlabel
          have htouch : FirstTouch arch S b :=
            ⟨⟨lo, hi, List.mem_of_getElem? hget, hrange⟩, h.seeded b hst⟩
          rw [(h.absent b hst).resolve_right (not_not_intro htouch), numbered_append, sourceLabelAt,
            List.findSome?_append, ← sourceLabelAt, hlabel]
          exact hl

theorem Below.look {st st' : State} (h : Below arch S st st') (inst : InsnInstance)
    (events : Events) (k : Key) :
    labelsOf (look (numbered S) st events (fired (numbered S) inst)) k ⊆
      labelsOf (look (numbered (S ++ T)) st' events (fired (numbered (S ++ T)) inst)) k := by
  intro l hl
  cases k with
  | reg base i => exact h.labels (.reg base i) hl
  | mem b =>
      rw [mem_labelsOf] at hl ⊢
      by_cases hb : .mem b ∈ events.readKeys
      · rw [mem_labels_look_mem hb] at hl ⊢
        exact hl.imp (fun hl => h.touch b hl) fun hl => fired_subset S T inst hl
      · simp only [Taint.look, hb, if_false] at hl ⊢
        exact h.labels (.mem b) hl

theorem writtenEntries_eq_none {look : Key → Entry} {st : State} {steps : List Step}
    {events : Events} {fired : Finset Nat} {k : Key} :
    writtenEntries look st steps events fired k = none ↔
      k ∉ firedWrites events fired ∧ Dataflow.writer steps k = none := by
  simp only [writtenEntries, deposits_eq]
  split <;> simp_all

/-- One instruction keeps the two runs apart in the same way. -/
theorem Below.step (hc : Compatible arch S T) {transfer : InsnInstance → Transfer}
    {sinks : List Sink} {fwd fwd' : Forward} (h : Below arch S fwd.state fwd'.state)
    (inst : InsnInstance) :
    Below arch S (forwardStep arch transfer (numbered S) sinks fwd inst).state
      (forwardStep arch transfer (numbered (S ++ T)) sinks fwd' inst).state := by
  have hfired := fired_subset S T inst
  refine ⟨fun k l hl => ?_, fun b hb => ?_, fun b hb => ?_⟩
  · rw [mem_labelsOf, mem_labels_forwardStep, mem_firedWrites] at hl ⊢
    refine hl.imp (fun hl => ?_) fun ⟨hk, hl⟩ => ⟨⟨?_, hk.2⟩, hfired hl⟩
    · exact Dataflow.propagate_mono (fun k => h.look inst _ k) h.labels k hl
    · exact Finset.ne_empty_of_mem (hfired hl)
  · simp only [forwardStep, State.write, Option.or_eq_none_iff, writtenEntries_eq_none,
      mem_firedWrites] at hb ⊢
    obtain ⟨⟨hkeep, hwriter⟩, hnone⟩ := hb
    by_cases htouch : FirstTouch arch S b
    · refine .inl ⟨⟨fun hk => hkeep ⟨?_, hk.2⟩, hwriter⟩,
        (h.absent b hnone).resolve_right (not_not_intro htouch)⟩
      -- an event that fires with `T` fires with `S`
      obtain ⟨l, hl⟩ := Finset.nonempty_iff_ne_empty.mpr hk.1
      obtain ⟨i, hi, hs⟩ := mem_fired.mp hl
      have hmem : SourceSpec.event i ∈ S := by
        obtain hs | ht := List.mem_append.mp (List.mem_of_getElem? (mem_numbered.mp hs))
        · exact hs
        · exact hc.events ⟨b, htouch⟩ i ht
      obtain ⟨l', hl'⟩ := List.mem_iff_getElem?.mp hmem
      exact Finset.ne_empty_of_mem (mem_fired.mpr ⟨i, hi, mem_numbered.mpr hl'⟩)
    · exact .inr htouch
  · simp only [forwardStep, State.write, Option.or_eq_none_iff] at hb
    exact h.seeded b hb.2

/-- The state after a run. -/
theorem Below.run (hc : Compatible arch S T) (transfer : InsnInstance → Transfer)
    (sinks : List Sink) (insns : List InsnInstance) :
    Below arch S (runForwardWith arch transfer (numbered S) sinks insns).state
      (runForwardWith arch transfer (numbered (S ++ T)) sinks insns).state := by
  induction insns using List.reverseRecOn with
  | nil => exact Below.seed hc
  | append_singleton insns inst ih =>
      rw [runForwardWith_concat, runForwardWith_concat]
      exact ih.step hc inst

/-- The control-flow hits of one instruction. -/
theorem mem_sinkHits_controlFlow {sources : List Source} {sinks : List Sink} {inst : InsnInstance}
    {events : Events} {cfTaint : Entry} {written : Key → Option Entry} {hit : Hit}
    (hkind : hit.kind = .controlFlow) :
    hit ∈ sinkHits arch sources sinks inst events cfTaint written ↔
      cfTaint.labels ≠ ∅ ∧
        hit = ⟨inst.seq, inst.ip, inst.decoded.text, .controlFlow, cfTaint⟩ := by
  have hother : ∀ {hit' : Hit}, hit'.kind ≠ .controlFlow → hit ∉ [hit'] := by
    intro hit' hne hmem
    rw [List.mem_singleton.mp hmem] at hkind
    exact hne hkind
  simp only [sinkHits, List.mem_append, List.mem_flatMap]
  constructor
  · rintro ((h | ⟨write, -, h⟩) | ⟨sink, -, h⟩)
    · split at h
      · cases h
      case isFalse hne => exact ⟨hne, List.mem_singleton.mp h⟩
    · split_ifs at h
      · cases h
      · exact absurd h (hother nofun)
      · cases h
      · exact absurd h (hother nofun)
    · cases sink with
      | mem lo hi => cases h
      | reg r =>
          dsimp only at h
          split_ifs at h
          · cases h
          · exact absurd h (hother nofun)
  · rintro ⟨hne, rfl⟩
    exact .inl (.inl (by simp [hne]))

/-- Adding compatible sources hides nothing, whatever the transfers are. -/
theorem nothingHidden_of_compatible (hc : Compatible arch S T)
    (transfer : InsnInstance → Transfer) (sinks : List Sink) (insns : List InsnInstance) :
    NothingHidden arch transfer S T sinks insns := by
  refine ⟨fun j k => (Below.run hc transfer sinks (insns.take j)).labels k, ?_⟩
  induction insns using List.reverseRecOn with
  | nil => nofun
  | append_singleton insns inst ih =>
      intro hit hhit hkind
      rw [runForwardWith_concat] at hhit ⊢
      obtain hhit | hhit := List.mem_append.mp hhit
      · obtain ⟨hit', hmem, hrest⟩ := ih hit hhit hkind
        exact ⟨hit', List.mem_append_left _ hmem, hrest⟩
      · obtain ⟨hne, rfl⟩ := (mem_sinkHits_controlFlow hkind).mp hhit
        have hsub : (taintUnion (transfer inst).cfUses (look (numbered S)
            (runForwardWith arch transfer (numbered S) sinks insns).state (resolveEvents inst)
            (fired (numbered S) inst))).labels ⊆
          (taintUnion (transfer inst).cfUses (look (numbered (S ++ T))
            (runForwardWith arch transfer (numbered (S ++ T)) sinks insns).state
            (resolveEvents inst) (fired (numbered (S ++ T)) inst))).labels := by
          intro l hl
          obtain ⟨k, hk, hl⟩ := mem_labels_taintUnion.mp hl
          exact mem_labels_taintUnion.mpr
            ⟨k, hk, (Below.run hc transfer sinks insns).look inst _ k hl⟩
        obtain ⟨l, hl⟩ := Finset.nonempty_iff_ne_empty.mpr hne
        exact ⟨_, List.mem_append_right _ ((mem_sinkHits_controlFlow rfl).mpr
          ⟨Finset.ne_empty_of_mem (hsub hl), rfl⟩), rfl, rfl, rfl, rfl, hsub⟩

/-! ## Nothing less will do -/

/-- Seeding `S` leaves a marked byte the label of one of its sources. -/
theorem exists_label_of_marked {k : Key} (h : Marked arch S k) :
    ∃ l < S.length, l ∈ (((numbered S).foldl (seed arch) .empty).get k).labels := by
  obtain ⟨pre, s, post, rfl, hlabels, hpost⟩ := h
  refine ⟨pre.length, by simp, ?_⟩
  rw [List.append_cons, numbered_append, List.foldl_append,
    seeds_of_not_sets fun s' hs' => hpost s'.spec (mem_numberedFrom hs').1, numbered_append,
    List.foldl_append]
  obtain ⟨-, hget⟩ | ⟨-, hnot, -⟩ | ⟨hnot, -⟩ := seed_get arch
    ((numbered pre).foldl (seed arch) .empty) ⟨0 + pre.length, s⟩ k
  · change _ ∈ ((seed arch _ ⟨0 + pre.length, s⟩).get k).labels
    rw [hget]
    simp [Entry.fresh]
  · exact absurd hlabels hnot
  · exact absurd hlabels.sets hnot

/-- A byte that `T` sets has lost the labels of `S`. -/
theorem le_of_mem_labels {k : Key} (ht : ∃ t ∈ T, t.Sets arch k) {l : Nat}
    (hl : l ∈ (((numbered (S ++ T)).foldl (seed arch) .empty).get k).labels) : S.length ≤ l := by
  obtain ⟨t, ht, hsets⟩ := ht
  obtain ⟨s, hs, rfl⟩ := exists_mem_numberedFrom S.length ht
  rw [numbered_append, List.foldl_append] at hl
  obtain ⟨s', hs', rfl⟩ := labels_seeds_of_sets ⟨s, hs, hsets⟩ hl
  exact (mem_numberedFrom hs').2

/-- A first-touch byte has the label of a first-touch source. -/
theorem FirstTouch.label {b : Int} (h : FirstTouch arch S b) :
    ∃ l lo hi, sourceLabelAt (numbered S) b = some l ∧ S[l]? = some (.mem lo hi .firstTouch) := by
  obtain ⟨⟨lo, hi, hmem, hb⟩, -⟩ := h
  cases hlabel : sourceLabelAt (numbered S) b with
  | some l =>
      obtain ⟨lo, hi, hget, -⟩ := mem_of_sourceLabelAt hlabel
      exact ⟨l, lo, hi, rfl, hget⟩
  | none =>
      obtain ⟨i, hi'⟩ := List.mem_iff_getElem?.mp hmem
      have := List.findSome?_eq_none_iff.mp hlabel ⟨i, _⟩ (mem_numbered.mpr hi')
      simp [hb] at this

/-- A first-touch label is not the label of an event source. -/
theorem not_mem_fired_of_firstTouch {l : Nat} {lo hi : Int}
    (h : S[l]? = some (.mem lo hi .firstTouch)) (inst : InsnInstance) :
    l ∉ fired (numbered (S ++ T)) inst := by
  intro hl
  obtain ⟨i, -, hs⟩ := mem_fired.mp hl
  have hget := mem_numbered.mp hs
  rw [List.getElem?_append_left (List.getElem?_eq_some_iff.mp h).1, h] at hget
  cases hget

/-- `mov al, byte ptr [b]`. -/
def movByte (b : Int) (index : Nat) : InsnInstance where
  seq := 2
  ip := 0x401000
  decoded := ⟨.mov, "mov al, byte ptr [b]", [⟨.reg (.b 0), ⟨false, true⟩, 1, none⟩,
    ⟨.mem none none 1 b, ⟨true, false⟩, 1, none⟩], true⟩
  events := [⟨3, b, 1, false⟩]
  memIndices := [index]

/-- `pushfq`, which has no operands, with one write event. -/
def pushFlags (b : Int) (index : Nat) : InsnInstance where
  seq := 0
  ip := 0x400fff
  decoded := ⟨.push "fq", "pushfq", [], true⟩
  events := [⟨1, b, 1, true⟩]
  memIndices := [index]

theorem transfer_movByte (arch : Arch) (b : Int) (index : Nat) :
    (movByte b index).transfer arch =
      .of [⟨regKeys (.gp 0) 0 1, regKeys (.gp 0) 0 1, memKeys b 1⟩] ∅ := by
  cases arch <;> rfl

/-- `al` receives what the byte is labelled with when it is touched. -/
theorem mem_labels_movByte {sources : List Source} {sinks : List Sink} {fwd : Forward} {b : Int}
    {index : Nat} {l : Nat} :
    l ∈ ((forwardStep arch (InsnInstance.transfer arch) sources sinks fwd
        (movByte b index)).state.get (.reg (.gp 0) 0)).labels ↔
      l ∈ (touch sources fwd.state b).labels ∨ l ∈ fired sources (movByte b index) := by
  have hread : .mem b ∈ (resolveEvents (movByte b index)).readKeys :=
    mem_accessKeys.mpr ⟨(b, 1), List.mem_singleton_self _, mem_memKeys.mpr ⟨0, by simp⟩⟩
  have hbytes : memKeys b 1 = {.mem b} := by simp [memKeys]
  have hal : regKeys (.gp 0) 0 1 = {.reg (.gp 0) 0} := rfl
  rw [mem_labels_forwardStep, transfer_movByte, mem_firedWrites, ← mem_labels_look_mem hread]
  simp [Transfer.of, Dataflow.propagate, Dataflow.writer, hbytes, hal, movByte, resolveEvents]

/-- The event that fires on the write labels the byte in place. -/
theorem shadow_pushFlags {sources : List Source} {sinks : List Sink} {fwd : Forward} {b : Int}
    {index : Nat} :
    (forwardStep arch (InsnInstance.transfer arch) sources sinks fwd
        (pushFlags b index)).state.shadow b =
      if fired sources (pushFlags b index) = ∅ then fwd.state.shadow b
      else some ((fwd.state.get (.mem b)).fire (fired sources (pushFlags b index))) := by
  have hsteps : ((pushFlags b index).transfer arch).steps = [] := rfl
  have hkey : .mem b ∈ (resolveEvents (pushFlags b index)).writeKeys :=
    mem_accessKeys.mpr ⟨(b, 1), List.mem_singleton_self _, mem_memKeys.mpr ⟨0, by simp⟩⟩
  have hwrites : .mem b ∈ firedWrites (resolveEvents (pushFlags b index))
      (fired sources (pushFlags b index)) ↔ fired sources (pushFlags b index) ≠ ∅ := by
    rw [mem_firedWrites]
    exact ⟨fun h => h.1, fun h => ⟨h, rfl, hkey⟩⟩
  have hnone : ∀ look, deposits look ([] : List Step) = fun _ => none := fun _ => rfl
  simp only [forwardStep, hsteps, State.write, writtenEntries, hwrites, hnone]
  by_cases hfired : fired sources (pushFlags b index) = ∅
  · simp [hfired]
  · simp [hfired, State.get]

/-- A byte with an entry is not labelled by its first touch. -/
theorem labels_touch_of_some {sources : List Source} {st : State} {b : Int}
    (h : st.shadow b ≠ none) : (touch sources st b).labels = (st.get (.mem b)).labels := by
  cases hst : st.shadow b with
  | none => exact absurd hst h
  | some e => simp [touch, State.get, hst]

theorem labels_touch_of_none {sources : List Source} {st : State} {b : Int} {l : Nat}
    (h : st.shadow b = none) (hl : sourceLabelAt sources b = some l) :
    (touch sources st b).labels = {l} := by
  simp [touch, h, hl, Entry.fresh]

/-- A `@start` source of `T` takes a first-touch byte away. -/
theorem touches_of_nothingHidden {b : Int} (hb : FirstTouch arch S b)
    (h : NothingHidden arch (InsnInstance.transfer arch) S T [] [movByte b 0]) :
    ∀ t ∈ T, ¬ t.Sets arch (.mem b) := by
  intro t ht hsets
  obtain ⟨l, lo, hi, hlabel, hget⟩ := hb.label
  have hnone : ((numbered S).foldl (seed arch) .empty).shadow b = none :=
    shadow_seeds_eq_none.mpr ⟨rfl, fun s hs =>
      hb.2 s.spec (List.mem_of_getElem? (mem_numbered.mp hs))⟩
  have hsome : ((numbered (S ++ T)).foldl (seed arch) .empty).shadow b ≠ none := by
    intro hshadow
    obtain ⟨i, hi⟩ := List.mem_iff_getElem?.mp (List.mem_append_right S ht)
    exact (shadow_seeds_eq_none.mp hshadow).2 ⟨i, t⟩ (mem_numbered.mpr hi) hsets
  have hl := h.labels 1 (.reg (.gp 0) 0) (mem_labels_movByte.mpr (.inl (by
    rw [labels_touch_of_none hnone hlabel]
    exact Finset.mem_singleton_self l)))
  obtain hl | hl := mem_labels_movByte.mp hl
  · rw [labels_touch_of_some hsome] at hl
    exact absurd (le_of_mem_labels ⟨t, ht, hsets⟩ hl)
      (Nat.not_le.mpr (List.getElem?_eq_some_iff.mp hget).1)
  · exact not_mem_fired_of_firstTouch hget _ hl

/-- An event of `T` that fires on a write takes a first-touch byte away. -/
theorem events_of_nothingHidden {b : Int} (hb : FirstTouch arch S b) {i : Nat}
    (h : NothingHidden arch (InsnInstance.transfer arch) S T []
      [pushFlags b i, movByte b (i + 1)]) (hi : .event i ∈ T) : .event i ∈ S := by
  by_contra hnot
  obtain ⟨l, lo, hi', hlabel, hget⟩ := hb.label
  have hquiet : fired (numbered S) (pushFlags b i) = ∅ := by
    refine Finset.eq_empty_of_forall_notMem fun l' hl' => ?_
    obtain ⟨j, hj, hs⟩ := mem_fired.mp hl'
    rw [List.mem_singleton.mp hj] at hs
    exact hnot (List.mem_of_getElem? (mem_numbered.mp hs))
  have hfires : fired (numbered (S ++ T)) (pushFlags b i) ≠ ∅ := by
    obtain ⟨j, hj⟩ := List.mem_iff_getElem?.mp (List.mem_append_right S hi)
    exact Finset.ne_empty_of_mem
      (mem_fired.mpr ⟨i, List.mem_singleton_self i, mem_numbered.mpr hj⟩)
  have hnone : (forwardStep arch (InsnInstance.transfer arch) (numbered S) []
      ⟨(numbered S).foldl (seed arch) .empty, []⟩ (pushFlags b i)).state.shadow b = none := by
    rw [shadow_pushFlags, if_pos hquiet]
    exact shadow_seeds_eq_none.mpr ⟨rfl, fun s hs =>
      hb.2 s.spec (List.mem_of_getElem? (mem_numbered.mp hs))⟩
  have hl := h.labels 2 (.reg (.gp 0) 0) (mem_labels_movByte.mpr (.inl (by
    rw [labels_touch_of_none hnone hlabel]
    exact Finset.mem_singleton_self l)))
  obtain hl | hl := mem_labels_movByte.mp hl
  · rw [labels_touch_of_some (by rw [shadow_pushFlags, if_neg hfires]; exact Option.some_ne_none _),
      State.get, shadow_pushFlags, if_neg hfires, Option.getD_some, Entry.mem_labels_fire] at hl
    obtain hl | hl := hl
    · by_cases hT : ∃ t ∈ T, t.Sets arch (.mem b)
      · exact absurd (le_of_mem_labels hT hl)
          (Nat.not_le.mpr (List.getElem?_eq_some_iff.mp hget).1)
      · rw [seeds_of_not_sets] at hl
        · cases hl
        · intro s hs hsets
          obtain hs | ht := List.mem_append.mp (List.mem_of_getElem? (mem_numbered.mp hs))
          · exact hb.2 s.spec hs hsets
          · exact hT ⟨s.spec, ht, hsets⟩
    · exact not_mem_fired_of_firstTouch hget _ hl
  · exact not_mem_fired_of_firstTouch hget _ hl

/-- Adding `T` hides nothing of `S`, on every window and with any sinks, exactly when the two
lists are compatible. -/
theorem nothingHidden_iff (arch : Arch) (S T : List SourceSpec) :
    (∀ (window : Window) (sinks : List Sink),
      NothingHidden arch (InsnInstance.transfer arch) S T sinks window.insns) ↔
    Compatible arch S T := by
  constructor
  · intro h
    refine ⟨fun k hk t ht hsets => ?_, fun b hb => ?_, fun ⟨b, hb⟩ i hi => ?_⟩
    · obtain ⟨l, hlt, hl⟩ := exists_label_of_marked hk
      have hl' := (h ⟨[], nofun, List.Pairwise.nil⟩ []).labels 0 k hl
      exact absurd (le_of_mem_labels ⟨t, ht, hsets⟩ hl') (Nat.not_le.mpr hlt)
    · exact touches_of_nothingHidden hb
        (h ⟨[movByte b 0], by simp [movByte], by simp [movByte]⟩ [])
    · exact events_of_nothingHidden hb
        (h ⟨[pushFlags b i, movByte b (i + 1)], by simp [movByte, pushFlags],
          by simp [movByte, pushFlags]⟩ []) hi
  · intro hc window sinks
    exact nothingHidden_of_compatible hc _ sinks window.insns

/-- `jmp rax` with the sources `reg:rax` and `reg:eax`: the second source takes the low bytes
of the first and clears the others. -/
theorem reg_source_hides_reg_source :
    ¬ NothingHidden .x64 (InsnInstance.transfer .x64) [.reg (.q 0)] [.reg (.d 0)] []
      [⟨7, 0x400000, ⟨.jmp, "jmp rax", [⟨.reg (.q 0), ⟨true, false⟩, 8, none⟩], true⟩, [], []⟩] := by
  intro h
  obtain ⟨hit, hmem, -, -, -, -, hlabels⟩ := h.hits
    ⟨7, 0x400000, "jmp rax", .controlFlow, ⟨{0}, 1⟩⟩ (by decide) rfl
  have hruns : (runForwardWith .x64 (InsnInstance.transfer .x64)
      (numbered ([.reg (.q 0)] ++ [.reg (.d 0)])) []
      [⟨7, 0x400000, ⟨.jmp, "jmp rax", [⟨.reg (.q 0), ⟨true, false⟩, 8, none⟩], true⟩, [],
        []⟩]).hits = [⟨7, 0x400000, "jmp rax", .controlFlow, ⟨{1}, 1⟩⟩] := by decide
  rw [hruns] at hmem
  rw [List.mem_singleton.mp hmem] at hlabels
  exact absurd hlabels (by decide)

end PinBridge.Taint
