import Mathlib.Data.List.Basic

/-!
# Unions of partial maps

A family of cells, some of which have a value.  A list of such families is consistent if no two
of them give one cell different values, and then they have a union (`IsUnion`).  The union is
unique and does not depend on the order of the list.

`Cells` is a state with cells that are set one at a time, where a cell that has a value can only
be set to it again.  `copy` sets the cells of one state in another, up to the first conflict
(`get_of_copy`, `conflict_of_copy`).
-/

namespace PartialMaps

variable {ι σ ε : Type*} {β : ι → Type*}

/-! ## Unions -/

/-- A value for some of the cells. -/
abbrev PartialMap (β : ι → Type*) : Type _ := (i : ι) → Option (β i)

/-- No two maps give a cell different values. -/
def Consistent (maps : List (PartialMap β)) : Prop :=
  ∀ f ∈ maps, ∀ g ∈ maps, ∀ i a b, f i = some a → g i = some b → a = b

/-- A map has the values of all the maps. -/
def IsUnion (maps : List (PartialMap β)) (u : PartialMap β) : Prop :=
  ∀ i a, u i = some a ↔ ∃ f ∈ maps, f i = some a

variable {maps maps' : List (PartialMap β)} {u v f : PartialMap β}

theorem IsUnion.consistent (h : IsUnion maps u) : Consistent maps := by
  intro f hf g hg i a b ha hb
  have hua := (h i a).mpr ⟨f, hf, ha⟩
  have hub := (h i b).mpr ⟨g, hg, hb⟩
  exact Option.some.inj (hua.symm.trans hub)

theorem IsUnion.unique (h : IsUnion maps u) (h' : IsUnion maps v) : u = v := by
  funext i
  exact Option.ext fun a => (h i a).trans (h' i a).symm

theorem IsUnion.perm (hperm : maps.Perm maps') (h : IsUnion maps u) : IsUnion maps' u := by
  intro i a
  rw [h i a]
  simp only [hperm.mem_iff]

theorem Consistent.perm (hperm : maps.Perm maps') (h : Consistent maps) : Consistent maps' :=
  fun f hf g hg => h f (hperm.mem_iff.mpr hf) g (hperm.mem_iff.mpr hg)

theorem Consistent.of_cons (h : Consistent (f :: maps)) : Consistent maps :=
  fun g hg k hk => h g (List.mem_cons_of_mem f hg) k (List.mem_cons_of_mem f hk)

theorem isUnion_nil : IsUnion [] (fun i => (none : Option (β i))) := by
  intro i a
  exact iff_of_false (Option.some_ne_none a ∘ Eq.symm)
    fun ⟨_, hf, _⟩ => absurd hf List.not_mem_nil

/-- A map that adds the values of another one to a union. -/
theorem IsUnion.append (h : IsUnion maps u)
    (hv : ∀ i a, v i = some a ↔ u i = some a ∨ f i = some a) : IsUnion (maps ++ [f]) v := by
  intro i a
  rw [hv, h i a]
  constructor
  · rintro (⟨g, hg, ha⟩ | ha)
    · exact ⟨g, List.mem_append_left _ hg, ha⟩
    · exact ⟨f, List.mem_append_right _ (List.mem_singleton_self f), ha⟩
  · rintro ⟨g, hg, ha⟩
    obtain hg | hg := List.mem_append.mp hg
    · exact .inl ⟨g, hg, ha⟩
    · exact .inr (List.mem_singleton.mp hg ▸ ha)

/-! ## Cells -/

/-- A state whose cells are read and set. -/
structure Cells (σ ε : Type*) (β : ι → Type*) where
  /-- The value of a cell. -/
  get : σ → PartialMap β
  /-- Set a cell. -/
  set : σ → (i : ι) → β i → Except ε σ

/-- Setting a cell changes it alone, and fails only if it has another value. -/
structure Lawful (c : Cells σ ε β) : Prop where
  set_ok : ∀ {s t : σ} {i : ι} {a : β i}, c.set s i a = .ok t →
    c.get t i = some a ∧ (∀ b, c.get s i = some b → b = a) ∧ ∀ j, j ≠ i → c.get t j = c.get s j
  set_error : ∀ {s : σ} {i : ι} {a : β i} {e : ε}, c.set s i a = .error e →
    ∃ b, c.get s i = some b ∧ b ≠ a

/-- Set cells of a state as they are in another one, up to the first conflict. -/
def copy (c : Cells σ ε β) (source : σ) : List ι → σ → σ × Option ε
  | [], s => (s, none)
  | i :: cells, s =>
      match c.get source i with
      | none => copy c source cells s
      | some a =>
          match c.set s i a with
          | .ok s => copy c source cells s
          | .error e => (s, some e)

variable {c : Cells σ ε β}

theorem Lawful.get_iff (hc : Lawful c) {s t : σ} {i : ι} {a : β i} (h : c.set s i a = .ok t)
    (j : ι) (b : β j) :
    c.get t j = some b ↔ c.get s j = some b ∨ (⟨j, b⟩ : (j : ι) × β j) = ⟨i, a⟩ := by
  obtain ⟨hset, hsame, hother⟩ := hc.set_ok h
  by_cases hj : j = i
  · subst hj
    rw [hset]
    constructor
    · exact fun hb => .inr (by rw [Option.some.inj hb])
    · rintro (hb | hb)
      · rw [hsame b hb]
      · cases hb
        rfl
  · rw [hother j hj]
    exact ⟨.inl, fun hb => hb.elim id fun heq => absurd (congrArg Sigma.fst heq) hj⟩

/-- A copy without a conflict adds the values of the cells. -/
theorem get_of_copy (hc : Lawful c) {source : σ} {cells : List ι} {s t : σ}
    (h : copy c source cells s = (t, none)) (i : ι) (a : β i) :
    c.get t i = some a ↔ c.get s i = some a ∨ i ∈ cells ∧ c.get source i = some a := by
  induction cells generalizing s with
  | nil =>
      cases h
      exact ⟨.inl, fun h => h.elim id fun h => absurd h.1 List.not_mem_nil⟩
  | cons j cells ih =>
      rw [copy] at h
      split at h
      next hnone =>
        rw [ih h, List.mem_cons]
        refine or_congr_right ⟨fun ⟨hi, ha⟩ => ⟨.inr hi, ha⟩, fun ⟨hi, ha⟩ => ⟨?_, ha⟩⟩
        refine hi.resolve_left fun hij => ?_
        subst hij
        rw [hnone] at ha
        exact nomatch ha
      next b hb =>
        split at h
        next u hu =>
          rw [ih h, hc.get_iff hu, List.mem_cons, or_assoc]
          refine or_congr_right ⟨?_, ?_⟩
          · rintro (heq | ⟨hi, ha⟩)
            · cases heq
              exact ⟨.inl rfl, hb⟩
            · exact ⟨.inr hi, ha⟩
          · rintro ⟨hi | hi, ha⟩
            · subst hi
              rw [hb] at ha
              exact .inl (by rw [Option.some.inj ha])
            · exact .inr ⟨hi, ha⟩
        next => exact nomatch h

/-- A copy with a conflict has two values for a cell. -/
theorem conflict_of_copy (hc : Lawful c) {source : σ} {cells : List ι} {s t : σ} {e : ε}
    (h : copy c source cells s = (t, some e)) :
    ∃ i a b, c.get s i = some a ∧ c.get source i = some b ∧ a ≠ b := by
  induction cells generalizing s with
  | nil => exact nomatch h
  | cons j cells ih =>
      rw [copy] at h
      split at h
      next => exact ih h
      next b hb =>
        split at h
        next u hu =>
          obtain ⟨i, a, a', ha, ha', hne⟩ := ih h
          refine ⟨i, a, a', ((hc.get_iff hu i a).mp ha).resolve_right fun heq => hne ?_, ha', hne⟩
          cases heq
          exact Option.some.inj (hb.symm.trans ha')
        next hu =>
          obtain ⟨a, ha, hne⟩ := hc.set_error hu
          exact ⟨j, a, b, ha, hb, hne⟩

/-- What holds of a state and is kept by every cell that is set holds after a copy. -/
theorem copy_preserves {P : σ → Prop} {source : σ} {cells : List ι} {s : σ}
    (hset : ∀ s t i a, P s → c.set s i a = .ok t → P t) (hs : P s) :
    P (copy c source cells s).1 := by
  induction cells generalizing s with
  | nil => exact hs
  | cons i cells ih =>
      rw [copy]
      split
      next => exact ih hs
      next a _ =>
        split
        next t ht => exact ih (hset s t i a hs ht)
        next => exact hs

end PartialMaps
