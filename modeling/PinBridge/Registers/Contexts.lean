import Mathlib.Data.List.FinRange
import PinBridge.Registers.Deltas
import PinBridge.Registers.Reading

/-!
# What the reader gets of an attempt

`Attempt.context` is the context that the reader builds from the records of an attempt that were
not dropped.  Without the header there is none.  The components are distinct, and the masks of the
header count the registers among them.  So the reader finds a context complete if and only if
nothing of the attempt was dropped (`Attempt.ok_context`), and then it has the registers of the
attempt with their data (`Attempt.changes_context`).
-/

namespace PinBridge.Registers

variable {m : Machine} {a : Attempt} {t : ThreadId} {i : Index}

/-! ## Masks -/

theorem testBit_maskOf (p : Nat → Bool) (n j : Nat) :
    (maskOf p n).testBit j = (decide (j < n) && p j) := by
  induction n with
  | zero => simp [maskOf]
  | succ n ih =>
      have hsucc : maskOf p (n + 1) = if p n then maskOf p n ||| 2 ^ n else maskOf p n := by
        simp [maskOf, List.range_succ]
      rw [hsucc]
      by_cases hj : j = n
      · subst hj
        split
        next hp => simp [ih, hp]
        next hp => simp [ih, hp]
      · have hlt : j < n + 1 ↔ j < n := by omega
        split
        next => simp [ih, hlt, Ne.symm hj]
        next => simp [ih, hlt]

/-- A mask counts the indices that it was made of. -/
theorem popCount_maskOf (p : Nat → Bool) {n : Nat} (hn : n ≤ 64) :
    popCount (UInt64.ofNat (maskOf p n)).toNat = (List.range n).countP p := by
  obtain ⟨k, hk⟩ := Nat.exists_eq_add_of_le hn
  rw [popCount, UInt64.toNat_ofNat', hk, List.range_add, List.countP_append, List.countP_map,
    ← hk]
  have hlow : (List.range n).countP (maskOf p n % 2 ^ 64).testBit = (List.range n).countP p := by
    refine List.countP_congr fun j hj => ?_
    have hj := List.mem_range.mp hj
    rw [Nat.testBit_mod_two_pow, testBit_maskOf]
    simp [hj, hj.trans_le hn]
  have hhigh : (List.range k).countP ((maskOf p n % 2 ^ 64).testBit ∘ (n + ·)) = 0 := by
    rw [List.countP_eq_zero]
    intro j _
    rw [Function.comp_apply, Nat.testBit_mod_two_pow, testBit_maskOf]
    simp
  rw [hlow, hhigh, Nat.add_zero]

/-- The masks of a header count the registers that are sent. -/
theorem Attempt.popCount_masks (a : Attempt) :
    popCount (UInt64.ofNat a.maskLo).toNat + popCount (UInt64.ofNat a.maskHi).toNat =
      (List.finRange contextRegCount).countP a.changed := by
  have hsplit : List.range contextRegCount = List.range 64 ++ (List.range 50).map (64 + ·) :=
    List.range_add (n := 64) (m := 50)
  have hval : (List.finRange contextRegCount).map Fin.val = List.range contextRegCount :=
    List.map_coe_finRange_eq_range
  have hchanged : (List.finRange contextRegCount).countP a.changed =
      (List.range contextRegCount).countP a.changedAt := by
    rw [← hval, List.countP_map]
    refine List.countP_congr fun i _ => ?_
    rw [Function.comp_apply, Attempt.changedAt, dif_pos i.isLt]
  rw [Attempt.maskLo, Attempt.maskHi, popCount_maskOf _ (by decide), popCount_maskOf _ (by decide),
    hchanged, hsplit, List.countP_append, List.countP_map]
  rfl

/-! ## Components -/

/-- A component as the reader keeps it. -/
def Attempt.part (m : Machine) (a : Attempt) (i : Index) (k : Nat) : ContextPart :=
  Record.contextPart (a.component m i k).toRecord

/-- The components of an attempt as the reader keeps them. -/
def Attempt.parts (m : Machine) (a : Attempt) : List ContextPart :=
  (a.components m).map fun e => Record.contextPart e.toRecord

theorem contextReg_lt (is64 : Bool) (i : Index) : contextReg is64 i < 2 ^ 64 := by
  revert is64 i
  decide

theorem contextWidth_cases {is64 : Bool} {i : Index} (hi : contextWidth is64 i ≠ 0) :
    contextWidth is64 i = 8 ∨ contextWidth is64 i = 16 ∨ contextWidth is64 i = 32 ∨
      contextWidth is64 i = 64 := by
  revert is64 i
  decide

theorem contextWidth_lt (is64 : Bool) (i : Index) : contextWidth is64 i < 2 ^ 64 := by
  revert is64 i
  decide

theorem partCount_lt (is64 : Bool) (i : Index) : partCount (contextWidth is64 i) < 2 ^ 64 := by
  revert is64 i
  decide

@[simp] theorem Attempt.part_reg (a : Attempt) (i : Index) (k : Nat) :
    (a.part m i k).reg = contextReg m.is64 i :=
  Nat.mod_eq_of_lt (contextReg_lt m.is64 i)

@[simp] theorem Attempt.part_width (a : Attempt) (i : Index) (k : Nat) :
    (a.part m i k).width = contextWidth m.is64 i :=
  Nat.mod_eq_of_lt (contextWidth_lt m.is64 i)

theorem Attempt.part_part (a : Attempt) {k : Nat} (hk : k < partCount (contextWidth m.is64 i)) :
    (a.part m i k).part = k :=
  Nat.mod_eq_of_lt (hk.trans (partCount_lt m.is64 i))

theorem Attempt.parts_eq (m : Machine) (a : Attempt) :
    a.parts m = (List.finRange contextRegCount).flatMap fun i =>
      if a.changed i then (List.range (partCount (contextWidth m.is64 i))).map (a.part m i)
      else [] := by
  rw [Attempt.parts, Attempt.components, List.map_flatMap]
  refine List.flatMap_congr fun i _ => ?_
  split
  · rw [List.map_map]
    rfl
  · rfl

theorem Attempt.mem_parts {p : ContextPart} :
    p ∈ a.parts m ↔
      ∃ i, a.changed i = true ∧ ∃ k < partCount (contextWidth m.is64 i), p = a.part m i k := by
  rw [Attempt.parts_eq, List.mem_flatMap]
  constructor
  · rintro ⟨i, -, hp⟩
    split at hp
    next hi =>
      obtain ⟨k, hk, rfl⟩ := List.mem_map.mp hp
      exact ⟨i, hi, k, List.mem_range.mp hk, rfl⟩
    next => exact absurd hp List.not_mem_nil
  · rintro ⟨i, hi, k, hk, rfl⟩
    refine ⟨i, List.mem_finRange i, ?_⟩
    rw [if_pos hi]
    exact List.mem_map_of_mem (List.mem_range.mpr hk)

theorem Attempt.Ok.width (h : a.Ok m t) (hi : a.changed i = true) : contextWidth m.is64 i ≠ 0 :=
  m.width_of_available (h.changed i hi)

/-- No component is sent twice. -/
theorem Attempt.Ok.nodup_parts (h : a.Ok m t) : (a.parts m).Nodup := by
  rw [Attempt.parts_eq, List.nodup_flatMap]
  refine ⟨fun i _ => ?_, (List.nodup_finRange _).imp_of_mem fun {i j} _ _ hne => ?_⟩
  · split
    · refine List.Nodup.map_on (fun k hk k' hk' heq => ?_) List.nodup_range
      have hpart := congrArg ContextPart.part heq
      rwa [a.part_part (List.mem_range.mp hk), a.part_part (List.mem_range.mp hk')] at hpart
    · exact List.nodup_nil
  · intro p hp hp'
    dsimp only at hp hp'
    split at hp
    next hi =>
      split at hp'
      next hj =>
        obtain ⟨k, -, rfl⟩ := List.mem_map.mp hp
        obtain ⟨k', -, heq⟩ := List.mem_map.mp hp'
        have hreg := congrArg ContextPart.reg heq
        rw [Attempt.part_reg, Attempt.part_reg] at hreg
        exact hne (contextReg_injective (h.width hi) (h.width hj) hreg.symm)
      next => exact absurd hp' List.not_mem_nil
    next => exact absurd hp List.not_mem_nil

/-! ## Survivors -/

/-- The elements of a list that were not dropped. -/
def survivors {α : Type*} : List α → List Bool → List α
  | p :: ps, ok :: oks => if ok then p :: survivors ps oks else survivors ps oks
  | _, _ => []

variable {α : Type*} {ps : List α} {oks : List Bool}

@[simp] theorem survivors_nil (ps : List α) : survivors ps [] = [] := by
  cases ps with
  | nil => rfl
  | cons p ps => rfl

theorem survivors_sublist (ps : List α) (oks : List Bool) : (survivors ps oks).Sublist ps := by
  induction ps generalizing oks with
  | nil =>
      cases oks with
      | nil => exact List.Sublist.refl _
      | cons ok oks => exact List.Sublist.refl _
  | cons p ps ih =>
      cases oks with
      | nil => exact List.nil_sublist _
      | cons ok oks =>
          rw [survivors]
          split
          · exact (ih oks).cons_cons p
          · exact (ih oks).cons p

/-- The next element survives or not. -/
theorem survivors_concat {p : α} (hp : ps[oks.length]? = some p) (ok : Bool) :
    survivors ps (oks ++ [ok]) = survivors ps oks ++ if ok then [p] else [] := by
  induction oks generalizing ps with
  | nil =>
      cases ps with
      | nil => exact absurd hp nofun
      | cons q ps =>
          obtain rfl : q = p := Option.some.inj hp
          rw [List.nil_append, survivors, survivors_nil, survivors_nil, List.nil_append]
  | cons o oks ih =>
      cases ps with
      | nil => exact absurd hp nofun
      | cons q ps =>
          rw [List.cons_append, survivors, survivors, ih hp]
          split
          · rfl
          · rfl

/-- All elements survive if and only if all outcomes are there and good. -/
theorem survivors_eq_self (h : oks.length ≤ ps.length) :
    survivors ps oks = ps ↔ oks.length = ps.length ∧ oks.all id = true := by
  induction ps generalizing oks with
  | nil =>
      obtain rfl := List.length_eq_zero_iff.mp (Nat.le_zero.mp h)
      exact iff_of_true rfl ⟨rfl, rfl⟩
  | cons p ps ih =>
      cases oks with
      | nil => exact iff_of_false nofun fun h => absurd h.1 nofun
      | cons ok oks =>
          have hle : oks.length ≤ ps.length := Nat.le_of_succ_le_succ h
          rw [survivors]
          cases ok with
          | true =>
              rw [if_pos rfl, List.cons.injEq, and_iff_right rfl, ih hle]
              simp
          | false =>
              rw [if_neg Bool.false_ne_true]
              refine iff_of_false (fun heq => ?_) (by simp)
              have hlength := (survivors_sublist ps oks).length_le
              rw [heq, List.length_cons] at hlength
              exact absurd hlength (Nat.not_succ_le_self _)

/-! ## Contexts -/

/-- What the reader has of the submits of an attempt so far. -/
def Attempt.context (m : Machine) (a : Attempt) : Option Context :=
  match a.outcomes with
  | true :: oks =>
      some { Record.headerContext a.header.toRecord with parts := survivors (a.parts m) oks }
  | _ => Option.none

/-! ## Complete contexts -/

/-- A context whose parts are some of those of an attempt. -/
structure Attempt.Gives (m : Machine) (a : Attempt) (c : Context) : Prop where
  parts : c.parts.Sublist (a.parts m)
  masks : popCount c.masks.1 + popCount c.masks.2 =
    (List.finRange contextRegCount).countP a.changed

variable {c : Context}

theorem Attempt.gives_context (hc : a.context m = some c) : a.Gives m c := by
  rw [Attempt.context] at hc
  split at hc
  next oks _ =>
    obtain rfl := Option.some.inj hc
    exact ⟨survivors_sublist _ _, a.popCount_masks⟩
  next => exact absurd hc nofun

/-- A part that is received is one of a register that is sent. -/
theorem Attempt.Gives.exists_part (h : a.Gives m c) {p : ContextPart} (hp : p ∈ c.parts) :
    ∃ i, a.changed i = true ∧ ∃ k < partCount (contextWidth m.is64 i), p = a.part m i k :=
  Attempt.mem_parts.mp (h.parts.subset hp)

/-- A part with the id of a register is a part of it. -/
theorem Attempt.Gives.part_of_reg (h : a.Gives m c) (hok : a.Ok m t) (hi : a.changed i = true)
    {p : ContextPart} (hp : p ∈ c.parts) (hreg : p.reg = contextReg m.is64 i) :
    ∃ k < partCount (contextWidth m.is64 i), p = a.part m i k := by
  obtain ⟨j, hj, k, hk, rfl⟩ := h.exists_part hp
  rw [Attempt.part_reg] at hreg
  obtain rfl := contextReg_injective (hok.width hj) (hok.width hi) hreg
  exact ⟨k, hk, rfl⟩

/-- The ids of the registers that are sent. -/
def Attempt.sentRegs (m : Machine) (a : Attempt) : Finset Nat :=
  (((List.finRange contextRegCount).filter a.changed).map (contextReg m.is64)).toFinset

theorem Attempt.mem_sentRegs {id : Nat} :
    id ∈ a.sentRegs m ↔ ∃ i, a.changed i = true ∧ contextReg m.is64 i = id := by
  simp [Attempt.sentRegs]

theorem Attempt.Ok.card_sentRegs (h : a.Ok m t) :
    (a.sentRegs m).card = (List.finRange contextRegCount).countP a.changed := by
  rw [Attempt.sentRegs, List.toFinset_card_of_nodup, List.length_map, List.countP_eq_length_filter]
  refine List.Nodup.map_on (fun i hi j hj heq => ?_) ((List.nodup_finRange _).filter _)
  exact contextReg_injective (h.width (List.mem_filter.mp hi).2) (h.width (List.mem_filter.mp hj).2)
    heq

theorem Context.mem_regs {id : Nat} : id ∈ c.regs ↔ ∃ p ∈ c.parts, p.reg = id := by
  simp [Context.regs]

theorem Context.mem_partsOf {id k : Nat} :
    k ∈ c.partsOf id ↔ ∃ p ∈ c.parts, p.reg = id ∧ p.part = k := by
  simp [Context.partsOf, and_assoc]

theorem Attempt.Gives.regs_subset (h : a.Gives m c) : c.regs ⊆ a.sentRegs m := by
  intro id hid
  obtain ⟨p, hp, rfl⟩ := Context.mem_regs.mp hid
  obtain ⟨i, hi, k, -, rfl⟩ := h.exists_part hp
  exact Attempt.mem_sentRegs.mpr ⟨i, hi, (a.part_reg i k).symm⟩

theorem Attempt.Gives.width_eq (h : a.Gives m c) (hok : a.Ok m t) (hi : a.changed i = true)
    (hmem : contextReg m.is64 i ∈ c.regs) :
    c.width (contextReg m.is64 i) = contextWidth m.is64 i := by
  obtain ⟨p, hp, hreg⟩ := Context.mem_regs.mp hmem
  rw [Context.width]
  cases hfind : c.parts.reverse.find? fun p => p.reg = contextReg m.is64 i with
  | none =>
      have hnot := List.find?_eq_none.mp hfind p (List.mem_reverse.mpr hp)
      exact absurd hreg (by simpa using hnot)
  | some q =>
      have hq : q.reg = contextReg m.is64 i := by simpa using List.find?_some hfind
      obtain ⟨k, -, rfl⟩ := h.part_of_reg hok hi
        (List.mem_reverse.mp (List.mem_of_find?_eq_some hfind)) hq
      exact a.part_width i k

theorem expectedParts_contextWidth {is64 : Bool} (hi : contextWidth is64 i ≠ 0) :
    Context.expectedParts (contextWidth is64 i) = partCount (contextWidth is64 i) ∧
      partCount (contextWidth is64 i) ≠ 0 := by
  rcases contextWidth_cases hi with h | h | h | h
  · rw [h]
    decide
  · rw [h]
    decide
  · rw [h]
    decide
  · rw [h]
    decide

/-- A complete context has all components. -/
theorem Attempt.Gives.parts_of_ok (h : a.Gives m c) (hok : a.Ok m t) (hc : c.Ok) :
    c.parts = a.parts m := by
  have hregs : c.regs = a.sentRegs m := by
    refine Finset.eq_of_subset_of_card_le h.regs_subset ?_
    rw [hok.card_sentRegs, hc.1, h.masks]
  refine h.parts.eq_of_length_le (List.Nodup.subperm hok.nodup_parts fun p hp => ?_).length_le
  obtain ⟨i, hi, k, hk, rfl⟩ := Attempt.mem_parts.mp hp
  have hmem : contextReg m.is64 i ∈ c.regs := by
    rw [hregs]
    exact Attempt.mem_sentRegs.mpr ⟨i, hi, rfl⟩
  have hparts := (hc.2 _ hmem).2
  rw [h.width_eq hok hi hmem, (expectedParts_contextWidth (hok.width hi)).1] at hparts
  have hin : k ∈ c.partsOf (contextReg m.is64 i) := by
    rw [hparts]
    exact Finset.mem_range.mpr hk
  obtain ⟨q, hq, hreg, hpart⟩ := Context.mem_partsOf.mp hin
  obtain ⟨k', hk', rfl⟩ := h.part_of_reg hok hi hq hreg
  rw [a.part_part hk'] at hpart
  rwa [← hpart]

/-- A context with all components is complete. -/
theorem Attempt.Gives.ok_of_parts (h : a.Gives m c) (hok : a.Ok m t) (hc : c.parts = a.parts m) :
    c.Ok := by
  have hpart : ∀ i, a.changed i = true → ∀ k < partCount (contextWidth m.is64 i),
      a.part m i k ∈ c.parts := by
    intro i hi k hk
    rw [hc]
    exact Attempt.mem_parts.mpr ⟨i, hi, k, hk, rfl⟩
  have hregs : c.regs = a.sentRegs m := by
    refine h.regs_subset.antisymm fun id hid => ?_
    obtain ⟨i, hi, rfl⟩ := Attempt.mem_sentRegs.mp hid
    have hpos := Nat.pos_of_ne_zero (expectedParts_contextWidth (hok.width hi)).2
    exact Context.mem_regs.mpr ⟨_, hpart i hi 0 hpos, a.part_reg i 0⟩
  refine ⟨by rw [hregs, hok.card_sentRegs, h.masks], fun id hid => ?_⟩
  have hid' := hid
  rw [hregs] at hid
  obtain ⟨i, hi, rfl⟩ := Attempt.mem_sentRegs.mp hid
  obtain ⟨hexpected, hpos⟩ := expectedParts_contextWidth (hok.width hi)
  rw [h.width_eq hok hi hid', hexpected]
  refine ⟨hpos, Finset.ext fun k => ?_⟩
  rw [Context.mem_partsOf, Finset.mem_range]
  constructor
  · rintro ⟨p, hp, hreg, rfl⟩
    obtain ⟨k, hk, rfl⟩ := h.part_of_reg hok hi hp hreg
    rwa [a.part_part hk]
  · intro hk
    exact ⟨_, hpart i hi k hk, a.part_reg i k, a.part_part hk⟩

/-- The reader finds a context complete if and only if nothing was dropped. -/
theorem Attempt.ok_context (hok : a.Ok m t) (hlength : a.outcomes.length ≤ (a.events m).length)
    (hc : a.context m = some c) : c.Ok ↔ a.complete m = true := by
  have hgives := Attempt.gives_context hc
  have hiff : c.Ok ↔ c.parts = a.parts m :=
    ⟨hgives.parts_of_ok hok, hgives.ok_of_parts hok⟩
  rw [hiff]
  rw [Attempt.context] at hc
  split at hc
  next oks houtcomes =>
    obtain rfl := Option.some.inj hc
    have hparts : (a.parts m).length = (a.components m).length := List.length_map _
    rw [houtcomes, Attempt.events, List.length_cons, List.length_cons, ← hparts] at hlength
    rw [survivors_eq_self (Nat.le_of_succ_le_succ hlength), Attempt.complete, houtcomes,
      Attempt.events, hparts]
    simp
  next => exact absurd hc nofun

/-! ## Data -/

theorem Attempt.part_payload (a : Attempt) (i : Index) (k : Nat) :
    (a.part m i k).payload = if contextWidth m.is64 i ≤ 8 then
        (LittleEndian.encode 8 (a.values i (k * 2)).toNat).take (contextWidth m.is64 i)
      else LittleEndian.encode 8 (a.values i (k * 2)).toNat ++
        LittleEndian.encode 8 (a.values i (k * 2 + 1)).toNat := by
  have hwidth : (a.component m i k).toRecord.arg3 = contextWidth m.is64 i :=
    Nat.mod_eq_of_lt (contextWidth_lt m.is64 i)
  rw [Attempt.part, Record.contextPart]
  dsimp only
  rw [hwidth]
  rfl

/-- The payloads of a register are its data. -/
theorem Attempt.flatMap_payload (hi : contextWidth m.is64 i ≠ 0) :
    ((List.range (partCount (contextWidth m.is64 i))).flatMap fun k => (a.part m i k).payload) =
      m.data a.values i := by
  simp only [Attempt.part_payload, Machine.data]
  rcases contextWidth_cases hi with h | h | h | h
  · rw [h]
    simp [partCount, List.range_succ, List.take_of_length_le]
  · rw [h]
    simp [partCount, List.range_succ]
  · rw [h]
    simp [partCount, List.range_succ]
  · rw [h]
    simp [partCount, List.range_succ]

theorem Attempt.Gives.payload_eq (h : a.Gives m c) (hok : a.Ok m t) (hc : c.parts = a.parts m)
    (hi : a.changed i = true) {k : Nat} (hk : k < partCount (contextWidth m.is64 i)) :
    c.payload (contextReg m.is64 i) k = (a.part m i k).payload := by
  have hmem : a.part m i k ∈ c.parts := by
    rw [hc]
    exact Attempt.mem_parts.mpr ⟨i, hi, k, hk, rfl⟩
  rw [Context.payload]
  cases hfind : c.parts.reverse.find? fun p => p.reg = contextReg m.is64 i ∧ p.part = k with
  | none =>
      have hnot := List.find?_eq_none.mp hfind _ (List.mem_reverse.mpr hmem)
      simp [a.part_part hk] at hnot
  | some q =>
      have hq : q.reg = contextReg m.is64 i ∧ q.part = k := by simpa using List.find?_some hfind
      obtain ⟨k', hk', rfl⟩ := h.part_of_reg hok hi
        (List.mem_reverse.mp (List.mem_of_find?_eq_some hfind)) hq.1
      rw [a.part_part hk'] at hq
      rw [hq.2]

/-- A complete context has the data of the registers that are sent. -/
theorem Attempt.changes_context (hok : a.Ok m t)
    (hlength : a.outcomes.length ≤ (a.events m).length) (hc : a.context m = some c)
    (hcomplete : a.complete m = true) : c.changes = m.lookup a.changed a.values := by
  have hgives := Attempt.gives_context hc
  have hcok := (Attempt.ok_context hok hlength hc).mpr hcomplete
  have hparts := hgives.parts_of_ok hok hcok
  funext id
  rw [Context.changes]
  split
  next hid =>
    obtain ⟨i, hi, rfl⟩ := Attempt.mem_sentRegs.mp (hgives.regs_subset hid)
    rw [eq_comm, Machine.lookup_eq_some fun i hi => hok.width hi]
    refine ⟨i, hi, rfl, ?_⟩
    rw [(hcok.2 _ hid).2, hgives.width_eq hok hi hid,
      (expectedParts_contextWidth (hok.width hi)).1, Finset.sort_range,
      ← Attempt.flatMap_payload (hok.width hi)]
    exact List.flatMap_congr fun k hk =>
      hgives.payload_eq hok hparts hi (List.mem_range.mp hk)
  next hid =>
    rw [eq_comm, Machine.lookup_eq_none]
    intro i hi heq
    refine hid (Context.mem_regs.mpr ⟨a.part m i 0, ?_, (a.part_reg i 0).trans heq⟩)
    rw [hparts]
    exact Attempt.mem_parts.mpr ⟨i, hi, 0,
      Nat.pos_of_ne_zero (expectedParts_contextWidth (hok.width hi)).2, rfl⟩

end PinBridge.Registers
