import PinBridge.Engines.Policies

/-!
# Engines and policies agree

Two things have to hold when both threads are idle: a flag is set exactly if its
engine is on or some rule uses it, and an instrumented instruction has the
capture calls that are wanted.

While a thread is in an operation a flag may be wrong, if the thread is going to
store it (`State.Ok.global`, `State.Ok.policy`, `State.Ok.enabled`), and an
instruction may lack a call, if a thread is going to invalidate it
(`State.Covered`).  Every step keeps this if no flag is stored late
(`State.Fresh`).
-/

namespace PinBridge.Engines

open Transition (run Always Guarded)

variable (c : Startup)

/-! ## What is under way -/

/-- The query server is going to store a flag. -/
def QueryPc.pending : QueryPc → Capture → Bool
  | .changed j _ _, k | .looked j _ _ _, k => j = k
  | .idle, _ | .stored, _ => false

/-- The query server has turned an engine on that was off, and is going to store
its flag. -/
def QueryPc.turnsOn : QueryPc → Capture → Bool
  | .changed j on previous, k | .looked j on previous _, k => j = k && on && k.kind ∉ previous
  | .idle, _ | .stored, _ => false

/-- The query server is going to invalidate the trace range. -/
def QueryPc.flushes : QueryPc → Bool
  | .changed k on previous | .looked k on previous _ => decide (k.kind ∈ previous) != on
  | .stored => true
  | .idle => false

/-- The scripting thread is going to store a flag. -/
def ScriptPc.pending : ScriptPc → Capture → Bool
  | .storing flags _ _ _, k => k ∈ flags
  | .idle, _ | .flushing _, _ => false

/-- The ranges that the scripting thread is going to invalidate. -/
def ScriptPc.ranges : ScriptPc → List Range
  | .storing _ _ _ flushRanges | .flushing flushRanges => flushRanges
  | .idle => []

/-- The policy there will be. -/
def State.target (s : State) : List Rule :=
  match s.script with
  | .storing _ _ rules _ => rules
  | .idle | .flushing _ => s.policy

/-- When the query server turns an engine off, it stores whether a rule uses the
kind.  That is what it has read, unless the scripting thread is going to store
the flag. -/
def State.QueryFresh (s : State) : QueryPc → Prop
  | .looked k false _ policyUsesKind =>
      policyUsesKind = usesKind s.target k.kind ∨ s.script.pending k = true
  | _ => True

/-- When the scripting thread stores the flag of a kind that no rule uses, the
kind is on or off as it has read, unless the query server is going to store the
flag, and to invalidate the trace range if the kind is on. -/
def State.ScriptFresh (s : State) : ScriptPc → Prop
  | .storing (k :: _) kinds rules _ =>
      usesKind rules k.kind = true ∨ (k.kind ∈ kinds ↔ k.kind ∈ s.globalKinds) ∨
        (s.query.pending k = true ∧ (k.kind ∈ s.globalKinds → s.query.turnsOn k = true))
  | _ => True

/-- No flag is stored late. -/
def State.Fresh (s : State) : Action → Prop
  | .query => s.QueryFresh s.query
  | .script => s.ScriptFresh s.script
  | _ => True

instance (s : State) : (pc : QueryPc) → Decidable (s.QueryFresh pc)
  | .looked _ false _ _ => inferInstanceAs (Decidable (_ ∨ _))
  | .idle | .changed _ _ _ | .looked _ true _ _ | .stored => inferInstanceAs (Decidable True)

instance (s : State) : (pc : ScriptPc) → Decidable (s.ScriptFresh pc)
  | .storing (_ :: _) _ _ _ => inferInstanceAs (Decidable (_ ∨ _ ∨ _))
  | .idle | .storing [] _ _ _ | .flushing _ => inferInstanceAs (Decidable True)

instance (s : State) : (a : Action) → Decidable (s.Fresh a)
  | .query => inferInstanceAs (Decidable (s.QueryFresh _))
  | .script => inferInstanceAs (Decidable (s.ScriptFresh _))
  | .setEngine _ _ | .setPolicies _ | .onIns _ | .ins => inferInstanceAs (Decidable True)

/-- A thread is going to invalidate an address. -/
def State.Covered (s : State) (address : UInt64) : Prop :=
  (s.query.flushes = true ∧ c.traceRange.has address = true) ∨
    ∃ r ∈ s.script.ranges, r.has address = true

/-- Some rule there will be matches an instruction. -/
def State.targetMatches (s : State) (address : UInt64) (kind : UInt32) : Bool :=
  s.target.any fun r => r.matchesInstrumentation address kind

/-- If an engine that is on wants an instruction, the instruction is going to be
invalidated. -/
def State.GlobalDue (s : State) (address : UInt64) (k : Capture) : Prop :=
  s.globalEngineMatches c address k.kind = true → s.Covered c address

/-- If an engine or a rule wants an instruction, it is going to be
invalidated. -/
def State.Due (s : State) (address : UInt64) (k : Capture) : Prop :=
  s.GlobalDue c address k ∧ (s.targetMatches address k.kind = true → s.Covered c address)

/-- The instruction can have the call of an engine. -/
def Eligible (address : UInt64) (k : Capture) : Prop := (c.instruction address).has k = true

/-- What the callback relies on. -/
def State.InsOk (s : State) : InsPc → Prop
  | .idle => True
  | .gate address => ∀ k, s.GlobalDue c address k
  | .flag address engines inserted =>
      ∀ k, Eligible c address k → k ∉ engines → k ∉ inserted → s.Due c address k
  | .wantsGlobal address k engines inserted =>
      ∀ j, Eligible c address j → j ∉ k :: engines → j ∉ inserted → s.Due c address j
  | .wantsPolicy address k engines inserted =>
      s.GlobalDue c address k ∧
        ∀ j, Eligible c address j → j ∉ k :: engines → j ∉ inserted → s.Due c address j

/-- What the query server relies on. -/
def State.QueryOk (s : State) : QueryPc → Prop
  | .changed k on _ | .looked k on _ _ => k.kind ∈ s.globalKinds ↔ on = true
  | .idle | .stored => True

/-- What the scripting thread relies on. -/
def ScriptPc.Ok : ScriptPc → Prop
  | .storing _ kinds rules flushRanges =>
      (∀ k : Capture, usesKind rules k.kind = true → k.kind ∈ kinds) ∧
        ∀ r ∈ rules, r.range ∈ flushRanges
  | .idle | .flushing _ => True

/-- What holds in every state. -/
structure State.Ok (s : State) : Prop where
  /-- The flag of an engine that is on is set. -/
  global : ∀ k : Capture, k.kind ∈ s.globalKinds → s.enable k = true ∨ s.query.turnsOn k = true
  /-- The flag of a kind that a rule uses is set. -/
  policy : ∀ k : Capture, usesKind s.target k.kind = true →
    s.enable k = true ∨ s.script.pending k = true
  /-- No other flag is set. -/
  enabled : ∀ k : Capture, s.enable k = true → k.kind ∈ s.globalKinds ∨
    usesKind s.target k.kind = true ∨ s.query.pending k = true ∨ s.script.pending k = true
  /-- The query server. -/
  query : s.QueryOk s.query
  /-- The scripting thread. -/
  script : s.script.Ok
  /-- An instruction lacks a call only if it is going to be invalidated. -/
  cache : ∀ {address : UInt64} {inserted : List Capture}, s.cache address = some inserted →
    ∀ k, Eligible c address k → k ∉ inserted → s.Due c address k
  /-- The callback. -/
  ins : s.InsOk c s.ins

/-! ## What wants more -/

/-- An instruction that is wanted now was wanted before or is going to be
invalidated. -/
structure State.Ahead (s t : State) : Prop where
  /-- What was going to be invalidated still is. -/
  covered : ∀ {address : UInt64}, s.Covered c address → t.Covered c address
  /-- By an engine that is on. -/
  global : ∀ {address : UInt64} {k : Capture}, t.globalEngineMatches c address k.kind = true →
    s.globalEngineMatches c address k.kind = true ∨ t.Covered c address
  /-- By a rule. -/
  target : ∀ {address : UInt64} {k : Capture}, t.targetMatches address k.kind = true →
    s.targetMatches address k.kind = true ∨ t.Covered c address

variable {c} {s t : State} {address : UInt64} {k : Capture}

theorem State.GlobalDue.ahead (h : s.GlobalDue c address k) (ht : s.Ahead c t) :
    t.GlobalDue c address k := by
  intro hmatches
  rcases ht.global hmatches with hs | hcovered
  · exact ht.covered (h hs)
  · exact hcovered

theorem State.Due.ahead (h : s.Due c address k) (ht : s.Ahead c t) : t.Due c address k := by
  refine ⟨h.1.ahead ht, fun hmatches => ?_⟩
  rcases ht.target hmatches with hs | hcovered
  · exact ht.covered (h.2 hs)
  · exact hcovered

theorem State.InsOk.ahead {pc : InsPc} (h : s.InsOk c pc) (ht : s.Ahead c t) : t.InsOk c pc := by
  cases pc with
  | idle => trivial
  | gate address => exact fun k => (h k).ahead ht
  | flag address engines inserted =>
      exact fun k heligible hengines hinserted => (h k heligible hengines hinserted).ahead ht
  | wantsGlobal address k engines inserted =>
      exact fun j heligible hengines hinserted => (h j heligible hengines hinserted).ahead ht
  | wantsPolicy address k engines inserted =>
      exact ⟨h.1.ahead ht, fun j heligible hengines hinserted =>
        (h.2 j heligible hengines hinserted).ahead ht⟩

/-- What is wanted and what is invalidated depends on the engines, the policies
and the two threads. -/
theorem State.Ahead.of_eq (hglobal : t.globalKinds = s.globalKinds)
    (htarget : t.target = s.target) (hflushes : t.query.flushes = s.query.flushes)
    (hranges : t.script.ranges = s.script.ranges) : s.Ahead c t where
  covered h := by
    rwa [State.Covered, hflushes, hranges]
  global h := by
    left
    rwa [State.globalEngineMatches, hglobal] at h
  target h := by
    left
    rwa [State.targetMatches, htarget] at h

theorem Capture.kind_injective {j k : Capture} (h : j.kind = k.kind) : j = k := by
  cases j <;> cases k <;> first | rfl | exact absurd h (by decide)

/-- A rule that matches an instruction uses the kind. -/
theorem usesKind_of_matches {rules : List Rule} {address : UInt64} {kind : UInt32}
    (h : (rules.any fun r => r.matchesInstrumentation address kind) = true) :
    usesKind rules kind = true := by
  obtain ⟨r, hr, hmatches⟩ := List.any_eq_true.mp h
  exact List.any_eq_true.mpr ⟨r, hr, (Bool.and_eq_true_iff.mp hmatches).1⟩

/-! ## The query server -/

/-- A thread that is in no operation has nothing to do. -/
theorem QueryPc.of_idle {pc : QueryPc} (h : pc = .idle) :
    pc.flushes = false ∧ (∀ k, pc.turnsOn k = false) ∧ ∀ k, pc.pending k = false := by
  rw [h]
  exact ⟨rfl, fun _ => rfl, fun _ => rfl⟩

theorem State.Ok.setEngine (h : s.Ok c) (hidle : s.query = .idle) (kind : UInt32) (on : Bool) :
    (s.setEngine kind on).Ok c := by
  rw [State.setEngine]
  split
  next => exact h
  next k _ =>
    obtain ⟨hflushes, hturns, hpending⟩ := QueryPc.of_idle hidle
    have hmem : ∀ j : Capture, j.kind ∈ (if on then insert k.kind s.globalKinds
        else s.globalKinds.erase k.kind) ↔ if j = k then on = true else j.kind ∈ s.globalKinds := by
      intro j
      by_cases hj : j = k
      · cases on <;> simp [hj]
      · have hne : j.kind ≠ k.kind := fun heq => hj (Capture.kind_injective heq)
        cases on <;> simp [hj, hne]
    have hahead : s.Ahead c { s with
        globalKinds := if on then insert k.kind s.globalKinds else s.globalKinds.erase k.kind
        query := .changed k on s.globalKinds } := by
      refine ⟨fun hcovered => .inr (hcovered.resolve_left ?_), fun {address j} hmatches => ?_, .inl⟩
      · rintro ⟨hflush, -⟩
        rw [hflushes] at hflush
        cases hflush
      · obtain ⟨hkind, hrange⟩ := Bool.and_eq_true_iff.mp hmatches
        have hkind := (hmem j).mp (of_decide_eq_true hkind)
        by_cases hon : j.kind ∈ s.globalKinds
        · exact .inl (Bool.and_eq_true_iff.mpr ⟨decide_eq_true hon, hrange⟩)
        · split at hkind
          next hj =>
            refine .inr (.inl ⟨?_, hrange⟩)
            show (decide (k.kind ∈ s.globalKinds) != on) = true
            rw [← hj, hkind, decide_eq_false hon]
            rfl
          next => exact absurd hkind hon
    refine ⟨fun j hj => ?_, h.policy, fun j hj => ?_, ?_, h.script,
      fun hcache j heligible hinserted => (h.cache hcache j heligible hinserted).ahead hahead,
      h.ins.ahead hahead⟩
    · have hj := (hmem j).mp hj
      split at hj
      next heq =>
        by_cases hon : j.kind ∈ s.globalKinds
        · exact .inl ((h.global j hon).resolve_right (by rw [hturns]; exact Bool.false_ne_true))
        · right
          show (k = j && on && j.kind ∉ s.globalKinds) = true
          simp [heq.symm, hj, hon]
      next => exact .inl ((h.global j hj).resolve_right (by rw [hturns]; exact Bool.false_ne_true))
    · by_cases heq : j = k
      · exact .inr (.inr (.inl (decide_eq_true heq.symm)))
      · rcases h.enabled j hj with hon | huses | hquery | hscript
        · exact .inl ((hmem j).mpr (by rwa [if_neg heq]))
        · exact .inr (.inl huses)
        · rw [hpending] at hquery
          cases hquery
        · exact .inr (.inr (.inr hscript))
    · exact (hmem k).trans (by rw [if_pos rfl])

/-- The query server looks the kind up. -/
theorem State.Ok.look (h : s.Ok c) {on : Bool} {previous : Kinds}
    (hpc : s.query = .changed k on previous) :
    State.Ok c { s with query := .looked k on previous (usesKind s.policy k.kind) } := by
  have hahead : s.Ahead c { s with
      query := .looked k on previous (usesKind s.policy k.kind) } :=
    .of_eq rfl rfl (by rw [hpc]; rfl) rfl
  have hglobal := h.global
  have henabled := h.enabled
  have hquery := h.query
  rw [hpc] at hglobal henabled hquery
  exact ⟨hglobal, h.policy, henabled, hquery, h.script,
    fun hcache j heligible hinserted => (h.cache hcache j heligible hinserted).ahead hahead,
    h.ins.ahead hahead⟩

/-- The query server stores the flag. -/
theorem State.Ok.storeQuery (h : s.Ok c) {on : Bool} {previous : Kinds} {policyUsesKind : Bool}
    (hpc : s.query = .looked k on previous policyUsesKind) (hfresh : s.Fresh .query) :
    State.Ok c { s with
      enable := Function.update s.enable k (on || policyUsesKind)
      query := if decide (k.kind ∈ previous) ≠ on then .stored else .idle } := by
  have hglobal := h.global
  have henabled := h.enabled
  have hquery := h.query
  rw [hpc] at hglobal henabled hquery
  have hflushes : (if decide (k.kind ∈ previous) ≠ on then QueryPc.stored else .idle).flushes =
      s.query.flushes := by
    rw [hpc]
    show _ = (decide (k.kind ∈ previous) != on)
    cases decide (k.kind ∈ previous) <;> cases on <;> rfl
  have hnone : ∀ j, (if decide (k.kind ∈ previous) ≠ on then QueryPc.stored else .idle).pending j =
      false := by
    intro j
    split <;> rfl
  have hahead : s.Ahead c { s with
      enable := Function.update s.enable k (on || policyUsesKind)
      query := if decide (k.kind ∈ previous) ≠ on then .stored else .idle } :=
    .of_eq rfl rfl hflushes rfl
  have hlate : on = false → policyUsesKind = usesKind s.target k.kind ∨
      s.script.pending k = true := by
    rintro rfl
    rw [State.Fresh, hpc] at hfresh
    exact hfresh
  refine ⟨fun j hj => ?_, fun j hj => ?_, fun j hj => ?_, ?_, h.script,
    fun hcache j heligible hinserted => (h.cache hcache j heligible hinserted).ahead hahead,
    h.ins.ahead hahead⟩
  · left
    show Function.update s.enable k _ j = true
    by_cases heq : j = k
    · rw [heq, Function.update_self, (hquery.mp (heq ▸ hj) : on = true), Bool.true_or]
    · rw [Function.update_of_ne heq]
      refine (hglobal j hj).resolve_right fun hturns => ?_
      have hturns : (k = j && on && j.kind ∉ previous) = true := hturns
      simp [Ne.symm heq] at hturns
  · show Function.update s.enable k _ j = true ∨ _
    by_cases heq : j = k
    · rw [heq, Function.update_self]
      cases on with
      | true => exact .inl rfl
      | false =>
          refine (hlate rfl).imp (fun huses => ?_) id
          rw [huses, Bool.false_or]
          exact heq ▸ hj
    · rw [Function.update_of_ne heq]
      exact h.policy j hj
  · have hj : Function.update s.enable k (on || policyUsesKind) j = true := hj
    by_cases heq : j = k
    · rw [heq, Function.update_self] at hj
      cases on with
      | true => exact .inl (heq ▸ hquery.mpr rfl)
      | false =>
          rcases hlate rfl with huses | hscript
          · right
            left
            show usesKind s.target j.kind = true
            rw [heq, ← huses]
            exact hj
          · exact .inr (.inr (.inr (heq ▸ hscript)))
    · rw [Function.update_of_ne heq] at hj
      rcases henabled j hj with hon | huses | hquery | hscript
      · exact .inl hon
      · exact .inr (.inl huses)
      · exact absurd (of_decide_eq_true hquery).symm heq
      · exact .inr (.inr (.inr hscript))
  · show State.QueryOk _ (if _ then _ else _)
    split <;> trivial

/-- The query server invalidates the trace range. -/
theorem State.Ok.flushQuery (h : s.Ok c) (hpc : s.query = .stored) (hins : s.ins = .idle) :
    State.Ok c { s.removeInstrumentation c.traceRange with query := .idle } := by
  have hglobal := h.global
  have henabled := h.enabled
  rw [hpc] at hglobal henabled
  refine ⟨hglobal, h.policy, henabled, trivial, h.script, fun {address inserted} hcache k heligible
    hinserted => ?_, by rw [State.removeInstrumentation, hins]; trivial⟩
  have hcache : (if c.traceRange.has address = true then none else s.cache address) =
      some inserted := hcache
  split at hcache
  next => cases hcache
  next hrange =>
    have hdue := h.cache hcache k heligible hinserted
    refine ⟨fun hmatches => absurd (Bool.and_eq_true_iff.mp hmatches).2 hrange, fun hmatches => ?_⟩
    exact .inr ((hdue.2 hmatches).resolve_left fun hq => hrange hq.2)

/-! ## The scripting thread -/

theorem mem_foldl_kinds {rules : List Rule} {kinds : Kinds} {kind : UInt32} :
    kind ∈ rules.foldl (fun kinds r => kinds ∪ r.kinds) kinds ↔
      kind ∈ kinds ∨ usesKind rules kind = true := by
  induction rules generalizing kinds with
  | nil => simp [usesKind]
  | cons r rules ih =>
      rw [List.foldl_cons, ih, Finset.mem_union, or_assoc]
      simp [usesKind]

/-- Every flag is going to be stored. -/
theorem mem_captures (k : Capture) : k ∈ captures := by
  cases k <;> decide

/-- The scripting thread starts to replace the rules. -/
theorem State.Ok.startPolicies (h : s.Ok c) (hidle : s.script = .idle) {kinds : Kinds}
    {rules : List Rule} {flushRanges : List Range}
    (hkinds : ∀ k : Capture, usesKind rules k.kind = true → k.kind ∈ kinds)
    (hranges : ∀ r ∈ rules, r.range ∈ flushRanges) :
    State.Ok c { s with script := .storing captures kinds rules flushRanges } := by
  have hahead : s.Ahead c { s with script := .storing captures kinds rules flushRanges } := by
    refine ⟨fun hcovered => .inl (hcovered.resolve_right ?_), .inl, fun {address k} hmatches => ?_⟩
    · rintro ⟨r, hr, -⟩
      rw [hidle] at hr
      cases hr
    · obtain ⟨r, hr, hmatches⟩ := List.any_eq_true.mp hmatches
      exact .inr (.inr ⟨r.range, hranges r hr, (Bool.and_eq_true_iff.mp hmatches).2⟩)
  exact ⟨h.global, fun k _ => .inr (decide_eq_true (mem_captures k)),
    fun k _ => .inr (.inr (.inr (decide_eq_true (mem_captures k)))), h.query, ⟨hkinds, hranges⟩,
    fun hcache j heligible hinserted => (h.cache hcache j heligible hinserted).ahead hahead,
    h.ins.ahead hahead⟩

theorem State.Ok.setPolicies (h : s.Ok c) (hidle : s.script = .idle) (configs : List PolicyConfig) :
    (s.setPolicies configs).Ok c := by
  rw [State.setPolicies]
  split
  next => exact h.startPolicies hidle nofun nofun
  next =>
    split
    next => exact h
    next rules _ =>
      refine h.startPolicies hidle (fun k huses => mem_foldl_kinds.mpr (.inr huses)) fun r hr => ?_
      exact List.mem_dedup.mpr (List.mem_map_of_mem hr)

/-- The scripting thread stores a flag. -/
theorem State.Ok.storeScript (h : s.Ok c) {flags : List Capture} {kinds : Kinds}
    {rules : List Rule} {flushRanges : List Range}
    (hpc : s.script = .storing (k :: flags) kinds rules flushRanges) (hfresh : s.Fresh .script) :
    State.Ok c { s with
      enable := Function.update s.enable k (k.kind ∈ kinds)
      script := .storing flags kinds rules flushRanges } := by
  have htarget : s.target = rules := by rw [State.target, hpc]
  have hpolicy := h.policy
  have henabled := h.enabled
  have hscript := h.script
  rw [htarget] at hpolicy henabled
  rw [hpc] at hpolicy henabled hscript
  have hahead : s.Ahead c { s with
      enable := Function.update s.enable k (k.kind ∈ kinds)
      script := .storing flags kinds rules flushRanges } :=
    .of_eq rfl htarget.symm rfl (by rw [hpc]; rfl)
  have hlate : usesKind rules k.kind = true ∨ (k.kind ∈ kinds ↔ k.kind ∈ s.globalKinds) ∨
      (s.query.pending k = true ∧ (k.kind ∈ s.globalKinds → s.query.turnsOn k = true)) := by
    rw [State.Fresh, hpc] at hfresh
    exact hfresh
  have hrest : ∀ {j}, j ≠ k → (ScriptPc.storing (k :: flags) kinds rules flushRanges).pending j =
      true → (ScriptPc.storing flags kinds rules flushRanges).pending j = true := by
    intro j hne hj
    exact decide_eq_true ((List.mem_cons.mp (of_decide_eq_true hj)).resolve_left hne)
  refine ⟨fun j hj => ?_, fun j hj => ?_, fun j hj => ?_, h.query, hscript,
    fun hcache j heligible hinserted => (h.cache hcache j heligible hinserted).ahead hahead,
    h.ins.ahead hahead⟩
  · show Function.update s.enable k _ j = true ∨ _
    by_cases heq : j = k
    · rw [heq, Function.update_self, decide_eq_true_eq]
      rw [heq] at hj
      rcases hlate with huses | hsame | ⟨-, hturns⟩
      · exact .inl (hscript.1 k huses)
      · exact .inl (hsame.mpr hj)
      · exact .inr (hturns hj)
    · rw [Function.update_of_ne heq]
      exact h.global j hj
  · show Function.update s.enable k _ j = true ∨ _
    by_cases heq : j = k
    · rw [heq, Function.update_self, decide_eq_true_eq]
      exact .inl (hscript.1 k (heq ▸ hj))
    · rw [Function.update_of_ne heq]
      exact (hpolicy j hj).imp_right (hrest heq)
  · have hj : Function.update s.enable k _ j = true := hj
    by_cases heq : j = k
    · rw [heq, Function.update_self, decide_eq_true_eq] at hj
      rw [heq]
      rcases hlate with huses | hsame | ⟨hquery, -⟩
      · exact .inr (.inl huses)
      · exact .inl (hsame.mp hj)
      · exact .inr (.inr (.inl hquery))
    · rw [Function.update_of_ne heq] at hj
      rcases henabled j hj with hon | huses | hquery | hpending
      · exact .inl hon
      · exact .inr (.inl huses)
      · exact .inr (.inr (.inl hquery))
      · exact .inr (.inr (.inr (hrest heq hpending)))

/-- The scripting thread publishes the rules. -/
theorem State.Ok.publish (h : s.Ok c) {kinds : Kinds} {rules : List Rule}
    {flushRanges : List Range} (hpc : s.script = .storing [] kinds rules flushRanges) :
    State.Ok c { s with policy := rules, script := .flushing flushRanges } := by
  have htarget : s.target = rules := by rw [State.target, hpc]
  have hahead : s.Ahead c { s with policy := rules, script := .flushing flushRanges } :=
    .of_eq rfl htarget.symm rfl (by rw [hpc]; rfl)
  have hpolicy := h.policy
  have henabled := h.enabled
  rw [htarget, hpc] at hpolicy henabled
  exact ⟨h.global, hpolicy, henabled, h.query, trivial,
    fun hcache j heligible hinserted => (h.cache hcache j heligible hinserted).ahead hahead,
    h.ins.ahead hahead⟩

/-- The scripting thread invalidates a range. -/
theorem State.Ok.flushScript (h : s.Ok c) {r : Range} {flushRanges : List Range}
    (hpc : s.script = .flushing (r :: flushRanges)) (hins : s.ins = .idle) :
    State.Ok c { s.removeInstrumentation r with script := .flushing flushRanges } := by
  have htarget : s.target = s.policy := by rw [State.target, hpc]
  have hpolicy := h.policy
  have henabled := h.enabled
  rw [htarget, hpc] at hpolicy henabled
  refine ⟨h.global, hpolicy, henabled, h.query, trivial, fun {address inserted} hcache k heligible
    hinserted => ?_, by rw [State.removeInstrumentation, hins]; trivial⟩
  have hcache : (if r.has address = true then none else s.cache address) = some inserted := hcache
  split at hcache
  next => cases hcache
  next hrange =>
    have hdue := h.cache hcache k heligible hinserted
    have hcovered : s.Covered c address → State.Covered c
        { s.removeInstrumentation r with script := .flushing flushRanges } address := by
      refine Or.imp id ?_
      rintro ⟨r', hr', hhas⟩
      rw [hpc] at hr'
      rcases List.mem_cons.mp hr' with rfl | hr'
      · exact absurd hhas hrange
      · exact ⟨r', hr', hhas⟩
    refine ⟨fun hmatches => hcovered (hdue.1 hmatches), fun hmatches => hcovered (hdue.2 ?_)⟩
    rw [State.targetMatches, htarget]
    exact hmatches

/-- The scripting thread is done. -/
theorem State.Ok.finishScript (h : s.Ok c) (hpc : s.script = .flushing []) :
    State.Ok c { s with script := .idle } := by
  have htarget : s.target = s.policy := by rw [State.target, hpc]
  have hahead : s.Ahead c { s with script := .idle } :=
    .of_eq rfl htarget.symm rfl (by rw [hpc]; rfl)
  have hpolicy := h.policy
  have henabled := h.enabled
  rw [htarget, hpc] at hpolicy henabled
  exact ⟨h.global, hpolicy, henabled, h.query, trivial,
    fun hcache j heligible hinserted => (h.cache hcache j heligible hinserted).ahead hahead,
    h.ins.ahead hahead⟩

/-! ## The callback -/

/-- A rule that is not there yet is going to be published, and its range to be
invalidated. -/
theorem State.Ok.target_due (h : s.Ok c)
    (hpolicy : (s.policy.any fun r => r.matchesInstrumentation address k.kind) = false)
    (hmatches : s.targetMatches address k.kind = true) : s.Covered c address := by
  have hscript := h.script
  rw [State.targetMatches, State.target] at hmatches
  cases hpc : s.script with
  | idle | flushing =>
      rw [hpc] at hmatches
      exact absurd (hpolicy.symm.trans hmatches) Bool.false_ne_true
  | storing flags kinds rules flushRanges =>
      rw [hpc] at hmatches hscript
      obtain ⟨r, hr, hmatches⟩ := List.any_eq_true.mp hmatches
      refine .inr ⟨r.range, ?_, (Bool.and_eq_true_iff.mp hmatches).2⟩
      rw [hpc]
      exact hscript.2 r hr

/-- The query server invalidates the trace range after it has turned an engine
on. -/
theorem QueryPc.flushes_of_turnsOn {pc : QueryPc} (h : pc.turnsOn k = true) :
    pc.flushes = true := by
  cases pc with
  | idle | stored => cases h
  | changed j on previous | looked j on previous =>
      have h : (j = k && on && k.kind ∉ previous) = true := h
      rw [Bool.and_eq_true, Bool.and_eq_true, decide_eq_true_eq, decide_eq_true_eq] at h
      obtain ⟨⟨rfl, rfl⟩, hnew⟩ := h
      show (decide (j.kind ∈ previous) != true) = true
      rw [decide_eq_false hnew]
      rfl

/-- An engine whose flag is not set wants nothing, or what it wants is going to
be invalidated. -/
theorem State.Ok.due_of_disabled (h : s.Ok c) (henable : s.enable k = false) :
    s.Due c address k := by
  have hnot : ¬ s.enable k = true := by
    rw [henable]
    exact Bool.false_ne_true
  refine ⟨fun hmatches => ?_, fun hmatches => ?_⟩
  · obtain ⟨hkind, hrange⟩ := Bool.and_eq_true_iff.mp hmatches
    have hturns := (h.global k (of_decide_eq_true hkind)).resolve_left hnot
    exact .inl ⟨QueryPc.flushes_of_turnsOn hturns, hrange⟩
  · have hpending := (h.policy k (usesKind_of_matches hmatches)).resolve_left hnot
    have hscript := h.script
    rw [State.targetMatches, State.target] at hmatches
    cases hpc : s.script with
    | idle | flushing =>
        rw [hpc] at hpending
        cases hpending
    | storing flags kinds rules flushRanges =>
        rw [hpc] at hmatches hscript
        obtain ⟨r, hr, hmatches⟩ := List.any_eq_true.mp hmatches
        refine .inr ⟨r.range, ?_, (Bool.and_eq_true_iff.mp hmatches).2⟩
        rw [hpc]
        exact hscript.2 r hr

/-- The callback goes on without touching anything else. -/
theorem State.Ok.moveIns (h : s.Ok c) {pc : InsPc} (hpc : s.InsOk c pc) :
    State.Ok c { s with ins := pc } := by
  have hahead : s.Ahead c { s with ins := pc } := .of_eq rfl rfl rfl rfl
  exact ⟨h.global, h.policy, h.enabled, h.query, h.script,
    fun hcache j heligible hinserted => (h.cache hcache j heligible hinserted).ahead hahead,
    hpc.ahead hahead⟩

/-- The callback is done with an instruction. -/
theorem State.Ok.finish (h : s.Ok c) {inserted : List Capture}
    (hdue : ∀ k, Eligible c address k → k ∉ inserted → s.Due c address k) :
    (s.finish address inserted).Ok c := by
  have hahead : s.Ahead c (s.finish address inserted) := .of_eq rfl rfl rfl rfl
  refine ⟨h.global, h.policy, h.enabled, h.query, h.script,
    fun {address' inserted'} hcache j heligible hinserted => ?_, trivial⟩
  have hcache : Function.update s.cache address (some inserted) address' = some inserted' := hcache
  by_cases heq : address' = address
  · subst heq
    rw [Function.update_self] at hcache
    cases hcache
    exact (hdue j heligible hinserted).ahead hahead
  · rw [Function.update_of_ne heq] at hcache
    exact (h.cache hcache j heligible hinserted).ahead hahead

theorem State.Ok.onIns (h : s.Ok c) (address : UInt64) : (s.onIns c address).Ok c := by
  rw [State.onIns]
  split
  next => exact h.moveIns fun k _ hengines => absurd (mem_captures k) hengines
  next hgate =>
    refine h.moveIns fun k hmatches => ?_
    obtain ⟨hkind, hrange⟩ := Bool.and_eq_true_iff.mp hmatches
    exact absurd ⟨Finset.ne_empty_of_mem (of_decide_eq_true hkind), hrange⟩ hgate

/-- The call of an engine that an instruction can have is inserted. -/
theorem mem_insertCall {inserted : List Capture} (h : Eligible c address k) :
    k ∈ insertCall c address k inserted := by
  rw [insertCall, if_pos (show (c.instruction address).has k = true from h)]
  exact List.mem_cons_self

theorem mem_insertCall_of_mem {inserted : List Capture} {j : Capture} (h : j ∈ inserted) :
    j ∈ insertCall c address k inserted := by
  rw [insertCall]
  split
  next => exact List.mem_cons_of_mem k h
  next => exact h

/-- The call of an engine is inserted. -/
theorem State.Ok.insert (h : s.Ok c) {engines inserted : List Capture}
    (hdue : ∀ j, Eligible c address j → j ∉ k :: engines → j ∉ inserted → s.Due c address j) :
    State.Ok c { s with ins := .flag address engines (insertCall c address k inserted) } := by
  refine h.moveIns fun j heligible hengines hinserted => ?_
  by_cases heq : j = k
  · subst heq
    exact absurd (mem_insertCall heligible) hinserted
  · exact hdue j heligible (List.not_mem_cons_of_ne_of_not_mem heq hengines) fun hj =>
      hinserted (mem_insertCall_of_mem hj)

/-- The call of an engine is not inserted. -/
theorem State.Ok.skip (h : s.Ok c) {engines inserted : List Capture} (hk : s.Due c address k)
    (hdue : ∀ j, Eligible c address j → j ∉ k :: engines → j ∉ inserted → s.Due c address j) :
    State.Ok c { s with ins := .flag address engines inserted } := by
  refine h.moveIns fun j heligible hengines hinserted => ?_
  by_cases heq : j = k
  · exact heq ▸ hk
  · exact hdue j heligible (List.not_mem_cons_of_ne_of_not_mem heq hengines) hinserted

theorem State.Ok.insStep (h : s.Ok c) : (s.insStep c s.ins).Ok c := by
  have hins := h.ins
  cases hpc : s.ins with
  | idle => exact h
  | gate address =>
      rw [hpc] at hins
      rw [State.insStep]
      split
      next => exact h.moveIns fun k _ hengines => absurd (mem_captures k) hengines
      next hgate =>
        refine h.finish fun k _ _ => ⟨hins k, h.target_due ?_⟩
        rw [Bool.eq_false_iff]
        intro hmatches
        obtain ⟨r, hr, hmatches⟩ := List.any_eq_true.mp hmatches
        exact hgate (List.any_eq_true.mpr ⟨r, hr, (Bool.and_eq_true_iff.mp hmatches).2⟩)
  | flag address engines inserted =>
      rw [hpc] at hins
      cases engines with
      | nil => exact h.finish fun k heligible hinserted => hins k heligible nofun hinserted
      | cons k engines =>
          rw [State.insStep]
          split
          next => exact h.moveIns hins
          next henable => exact h.skip (h.due_of_disabled (Bool.eq_false_iff.mpr henable)) hins
  | wantsGlobal address k engines inserted =>
      rw [hpc] at hins
      rw [State.insStep]
      split
      next => exact h.insert hins
      next hmatches => exact h.moveIns ⟨fun hglobal => absurd hglobal hmatches, hins⟩
  | wantsPolicy address k engines inserted =>
      rw [hpc] at hins
      rw [State.insStep]
      split
      next => exact h.insert hins.2
      next hmatches =>
        exact h.skip ⟨hins.1, h.target_due (Bool.eq_false_iff.mpr hmatches)⟩ hins.2

/-! ## What is inserted -/

/-- The engines whose calls the callback has inserted so far. -/
def InsPc.progress : InsPc → Option (UInt64 × List Capture)
  | .idle | .gate _ => none
  | .flag address _ inserted | .wantsGlobal address _ _ inserted
  | .wantsPolicy address _ _ inserted => some (address, inserted)

variable (c) in
/-- Only calls that an instruction can have are inserted. -/
structure State.Sound (s : State) : Prop where
  /-- In the code cache. -/
  cache : ∀ {address inserted}, s.cache address = some inserted →
    ∀ k ∈ inserted, Eligible c address k
  /-- In the callback. -/
  ins : ∀ {address inserted}, s.ins.progress = some (address, inserted) →
    ∀ k ∈ inserted, Eligible c address k

theorem State.Sound.removeInstrumentation (h : s.Sound c) (r : Range) :
    (s.removeInstrumentation r).Sound c := by
  refine ⟨fun {address inserted} hcache => ?_, h.ins⟩
  have hcache : (if r.has address then none else s.cache address) = some inserted := hcache
  split at hcache
  · cases hcache
  · exact h.cache hcache

theorem State.Sound.moveIns (h : s.Sound c) {pc : InsPc}
    (hpc : ∀ {address inserted}, pc.progress = some (address, inserted) →
      ∀ k ∈ inserted, Eligible c address k) : State.Sound c { s with ins := pc } :=
  ⟨h.cache, hpc⟩

theorem State.Sound.finish (h : s.Sound c) {inserted : List Capture}
    (hinserted : ∀ k ∈ inserted, Eligible c address k) : (s.finish address inserted).Sound c := by
  refine ⟨fun {address' inserted'} hcache => ?_, nofun⟩
  have hcache : Function.update s.cache address (some inserted) address' = some inserted' := hcache
  by_cases heq : address' = address
  · subst heq
    rw [Function.update_self] at hcache
    cases hcache
    exact hinserted
  · rw [Function.update_of_ne heq] at hcache
    exact h.cache hcache

theorem eligible_insertCall {inserted : List Capture}
    (h : ∀ j ∈ inserted, Eligible c address j) :
    ∀ j ∈ insertCall c address k inserted, Eligible c address j := by
  rw [insertCall]
  split
  next hk => exact List.forall_mem_cons.mpr ⟨hk, h⟩
  next => exact h

theorem State.Sound.insStep (h : s.Sound c) : (s.insStep c s.ins).Sound c := by
  have hins : ∀ {address inserted}, s.ins.progress = some (address, inserted) →
      ∀ k ∈ inserted, Eligible c address k := h.ins
  cases hpc : s.ins with
  | idle => exact h
  | gate address =>
      rw [State.insStep]
      split
      next => exact h.moveIns fun hprogress => by cases hprogress; exact nofun
      next => exact h.finish nofun
  | flag address engines inserted =>
      rw [hpc] at hins
      have hinserted := hins rfl
      cases engines with
      | nil => exact h.finish hinserted
      | cons k engines =>
          rw [State.insStep]
          split <;> exact h.moveIns fun hprogress => by cases hprogress; exact hinserted
  | wantsGlobal address k engines inserted | wantsPolicy address k engines inserted =>
      rw [hpc] at hins
      have hinserted := hins rfl
      rw [State.insStep]
      split
      next =>
        exact h.moveIns fun hprogress => by cases hprogress; exact eligible_insertCall hinserted
      next => exact h.moveIns fun hprogress => by cases hprogress; exact hinserted

/-- A step of either thread changes the code cache only by invalidations. -/
theorem State.Sound.step (h : s.Sound c) {a : Action} (ht : s.step c a = some t) : t.Sound c := by
  cases a with
  | setEngine kind on =>
      simp only [State.step] at ht
      split at ht
      next =>
        cases ht
        rw [State.setEngine]
        split <;> exact ⟨h.cache, h.ins⟩
      next => cases ht
  | query =>
      simp only [State.step] at ht
      cases hpc : s.query with
      | idle =>
          rw [hpc] at ht
          cases ht
      | changed k on previous | looked k on previous policyUsesKind =>
          rw [hpc] at ht
          cases ht
          exact ⟨h.cache, h.ins⟩
      | stored =>
          rw [hpc] at ht
          simp only [State.queryStep] at ht
          split at ht
          next =>
            cases ht
            have hremoved := h.removeInstrumentation c.traceRange
            exact ⟨hremoved.cache, hremoved.ins⟩
          next => cases ht
  | setPolicies configs =>
      simp only [State.step] at ht
      split at ht
      next =>
        cases ht
        rw [State.setPolicies]
        split
        next => exact ⟨h.cache, h.ins⟩
        next => split <;> exact ⟨h.cache, h.ins⟩
      next => cases ht
  | script =>
      simp only [State.step] at ht
      cases hpc : s.script with
      | idle =>
          rw [hpc] at ht
          cases ht
      | storing flags kinds rules flushRanges =>
          rw [hpc] at ht
          cases flags <;> cases ht <;> exact ⟨h.cache, h.ins⟩
      | flushing flushRanges =>
          rw [hpc] at ht
          cases flushRanges with
          | nil =>
              cases ht
              exact ⟨h.cache, h.ins⟩
          | cons r flushRanges =>
              simp only [State.scriptStep] at ht
              split at ht
              next =>
                cases ht
                have hremoved := h.removeInstrumentation r
                exact ⟨hremoved.cache, hremoved.ins⟩
              next => cases ht
  | onIns address =>
      simp only [State.step] at ht
      split at ht
      next =>
        cases ht
        rw [State.onIns]
        split
        next => exact h.moveIns fun hprogress => by cases hprogress; exact nofun
        next => exact h.moveIns nofun
      next => cases ht
  | ins =>
      simp only [State.step] at ht
      split at ht
      next => cases ht
      next =>
        cases ht
        exact h.insStep

/-! ## Runs -/

theorem State.ok_init : (State.init c).Ok c where
  global _ hk := .inl (decide_eq_true hk)
  policy _ huses := by cases huses
  enabled _ hk := .inl (of_decide_eq_true hk)
  query := trivial
  script := trivial
  cache hcache := by cases hcache
  ins := trivial

/-- A step that stores no flag late keeps what holds in every state. -/
theorem State.Ok.step (h : s.Ok c) {a : Action} (hfresh : s.Fresh a) (ht : s.step c a = some t) :
    t.Ok c := by
  cases a with
  | setEngine kind on =>
      simp only [State.step] at ht
      split at ht
      next hidle =>
        cases ht
        exact h.setEngine hidle kind on
      next => cases ht
  | query =>
      simp only [State.step] at ht
      cases hpc : s.query with
      | idle =>
          rw [hpc] at ht
          cases ht
      | changed k on previous =>
          rw [hpc] at ht
          cases ht
          exact h.look hpc
      | looked k on previous policyUsesKind =>
          rw [hpc] at ht
          cases ht
          have hstore := h.storeQuery hpc hfresh
          simpa only [decide_eq_true_eq] using hstore
      | stored =>
          rw [hpc] at ht
          simp only [State.queryStep] at ht
          split at ht
          next hins =>
            cases ht
            exact h.flushQuery hpc hins
          next => cases ht
  | setPolicies configs =>
      simp only [State.step] at ht
      split at ht
      next hidle =>
        cases ht
        exact h.setPolicies hidle configs
      next => cases ht
  | script =>
      simp only [State.step] at ht
      cases hpc : s.script with
      | idle =>
          rw [hpc] at ht
          cases ht
      | storing flags kinds rules flushRanges =>
          rw [hpc] at ht
          cases flags with
          | nil =>
              cases ht
              exact h.publish hpc
          | cons k flags =>
              cases ht
              exact h.storeScript hpc hfresh
      | flushing flushRanges =>
          rw [hpc] at ht
          cases flushRanges with
          | nil =>
              cases ht
              exact h.finishScript hpc
          | cons r flushRanges =>
              simp only [State.scriptStep] at ht
              split at ht
              next hins =>
                cases ht
                exact h.flushScript hpc hins
              next => cases ht
  | onIns address =>
      simp only [State.step] at ht
      split at ht
      next =>
        cases ht
        exact h.onIns address
      next => cases ht
  | ins =>
      simp only [State.step] at ht
      split at ht
      next => cases ht
      next =>
        cases ht
        exact h.insStep

/-- Nothing is going to be invalidated when both threads are idle. -/
theorem State.not_covered (hquery : s.query = .idle) (hscript : s.script = .idle) :
    ¬ s.Covered c address := by
  rintro (⟨hflushes, -⟩ | ⟨r, hr, -⟩)
  · rw [hquery] at hflushes
    cases hflushes
  · rw [hscript] at hr
    cases hr

variable (c) in
/-- The engines and the policies agree whenever both threads are idle. -/
def State.Settled (s : State) : Prop := s.query = .idle → s.script = .idle → s.Agrees c

theorem State.Ok.settled (h : s.Ok c) (hsound : s.Sound c) : s.Settled c := by
  intro hquery hscript
  obtain ⟨-, hturns, hpending⟩ := QueryPc.of_idle hquery
  have hwaits : ∀ k, s.script.pending k = false := fun k => by rw [hscript]; rfl
  have htarget : s.target = s.policy := by rw [State.target, hscript]
  have hflag : ∀ k : Capture, k.kind ∈ s.globalKinds ∨ usesKind s.policy k.kind = true →
      s.enable k = true := by
    rintro k (hon | huses)
    · exact (h.global k hon).resolve_right (by rw [hturns]; exact Bool.false_ne_true)
    · refine (h.policy k (htarget ▸ huses)).resolve_right ?_
      rw [hwaits]
      exact Bool.false_ne_true
  refine ⟨fun k => ?_, fun address inserted hcache e k => ?_⟩
  · rw [Bool.eq_iff_iff, Bool.or_eq_true, decide_eq_true_eq]
    refine ⟨fun henable => ?_, hflag k⟩
    rcases h.enabled k henable with hon | huses | hquery | hscript
    · exact .inl hon
    · exact .inr (htarget ▸ huses)
    · rw [hpending] at hquery
      cases hquery
    · rw [hwaits] at hscript
      cases hscript
  · rw [Bool.eq_iff_iff, State.submits]
    simp only [Bool.and_eq_true, decide_eq_true_eq]
    refine ⟨fun ⟨⟨⟨hinserted, hcomes⟩, _⟩, hmatches⟩ =>
      ⟨⟨hsound.cache hcache k hinserted, hcomes⟩, hmatches⟩, ?_⟩
    rintro ⟨⟨heligible, hcomes⟩, hmatches⟩
    -- the instruction is wanted for every thread
    have hwanted : s.globalEngineMatches c address k.kind = true ∨
        (s.policy.any fun r => r.matchesInstrumentation address k.kind) = true := by
      refine (Bool.or_eq_true_iff.mp hmatches).imp_right fun hrule => ?_
      obtain ⟨r, hr, hrule⟩ := List.any_eq_true.mp hrule
      exact List.any_eq_true.mpr ⟨r, hr, (Bool.and_eq_true_iff.mp hrule).1⟩
    have henable : s.enable k = true := by
      refine hflag k (hwanted.imp (fun hglobal => ?_) usesKind_of_matches)
      exact of_decide_eq_true (Bool.and_eq_true_iff.mp hglobal).1
    have hinserted : k ∈ inserted := by
      by_contra hnot
      have hdue := h.cache hcache k heligible hnot
      refine State.not_covered hquery hscript (hwanted.elim hdue.1 fun hrule => hdue.2 ?_)
      rw [State.targetMatches, htarget]
      exact hrule
    exact ⟨⟨⟨hinserted, hcomes⟩, henable⟩, hmatches⟩

/-- In a run in which no flag is stored late, the engines and the policies agree
whenever both threads are idle. -/
theorem settled_when_fresh (c : Startup) {as : List Action}
    (h : Guarded (State.step c) State.Fresh (State.init c) as) :
    Always (State.step c) (State.Settled c) (State.init c) as := by
  have hok := Guarded.always (fun hs hfresh ht => State.Ok.step hs hfresh ht) h State.ok_init
  intro pre t hpre hrun
  have hsound : t.Sound c := Transition.run_invariant (fun hs ht => State.Sound.step hs ht)
    (s := State.init c) ⟨nofun, nofun⟩ hrun
  exact (hok pre t hpre hrun).settled hsound

/-! ## A flag that is stored late -/

/-- Nothing is on from the start, and all of the address space is traced. -/
def plainStartup : Startup where
  traceRange := ⟨4096, 18446744073709551615⟩
  engines := ∅
  instruction _ := ⟨false, [(true, false)]⟩

/-- A script wants the execution of one page. -/
def pagePolicy : List PolicyConfig := [⟨{eventExec}, [⟨4194304, 4198400⟩], []⟩]

/-- The query server turns the engine off and looks the kind up, the scripting
thread replaces the rules, and the query server stores the flag. -/
def lateStore : List Action :=
  [.setEngine eventExec false, .query, .setPolicies pagePolicy, .script, .script, .script, .script,
    .script, .script, .query]

/-- The flag is not set although a rule uses the kind. -/
theorem flag_stored_late : ¬ ∀ (c : Startup) (as : List Action),
    Always (State.step c) (State.Settled c) (State.init c) as := by
  intro h
  have hagrees := (h plainStartup lateStore).last rfl rfl rfl
  exact absurd (hagrees.enable .exec) (by decide)

/-- The scripting thread replaces the rules while an instruction is instrumented.
The instruction is invalidated and comes again, and the query server turns the
engine on. -/
def inTurn : List Action :=
  [.setPolicies pagePolicy, .script, .onIns 4194304, .ins, .script, .script, .script, .script,
    .script, .onIns 4194304, .ins, .ins, .ins, .ins, .ins, .ins, .ins, .setEngine eventExec true,
    .query, .query, .query]

/-- The flags and the events agree. -/
theorem settled_in_turn :
    Always (State.step plainStartup) (State.Settled plainStartup) (State.init plainStartup)
      inTurn :=
  settled_when_fresh plainStartup (by decide)

end PinBridge.Engines
