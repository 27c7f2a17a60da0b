import Mathlib.Data.Nat.Basic
import Mathlib.Data.List.Basic
import Mathlib.Logic.Function.Basic

/-!
# Rings with published slots

A bounded ring with many writers and one reader.  A writer reserves the next
index, writes the slot of that index and then publishes the index in the tag of
the slot.  The reader takes an index once its tag is published and advances.

Indices grow without bound, and index `k` lives in slot `k % cap`.  `log` keeps
what was reserved, in order.  The invariant `Ok` says that the indices which are
reserved and not consumed lie in a window of at most `cap`, and that each of them
is either published with its logged value or still held by exactly one writer.

`Ok.slots_eq` is the point of the structure: when the reader finds the tag of its
index, the slot holds the logged value.
-/

namespace TaggedRing

variable {ι α : Type*}

/-- What a writer holds. -/
inductive Holder (α : Type*) where
  | free
  /-- Index `k` is reserved for `e`, and its slot is not written yet. -/
  | reserved (e : α) (k : Nat)
  /-- The slot of `k` holds `e`, and `k` is not published yet. -/
  | written (e : α) (k : Nat)

/-- The reserved value and its index. -/
def Holder.held : Holder α → Option (α × Nat)
  | free => none
  | reserved e k | written e k => some (e, k)

/-- A ring and its writers. -/
structure Ring (ι α : Type*) where
  cap : Nat
  claim : Nat
  drained : Nat
  tags : Nat → Nat
  slots : Nat → α
  log : List α
  holders : ι → Holder α

namespace Ring

section Operations

variable [DecidableEq ι] (r : Ring ι α) (i : ι) (e : α) (k : Nat)

/-- Writer `i` reserves the next index for `e`. -/
def reserve : Ring ι α :=
  { r with
    claim := r.claim + 1
    log := r.log ++ [e]
    holders := Function.update r.holders i (.reserved e r.claim) }

/-- Writer `i` writes the slot of its index. -/
def write : Ring ι α :=
  { r with
    slots := Function.update r.slots (k % r.cap) e
    holders := Function.update r.holders i (.written e k) }

/-- Writer `i` publishes its index. -/
def publish : Ring ι α :=
  { r with
    tags := Function.update r.tags (k % r.cap) (k + 1)
    holders := Function.update r.holders i .free }

/-- The reader is done with its index. -/
def advance : Ring ι α := { r with drained := r.drained + 1 }

end Operations

/-- The invariant of a ring. -/
structure Ok (r : Ring ι α) : Prop where
  cap_pos : 0 < r.cap
  drained_le : r.drained ≤ r.claim
  window : r.claim ≤ r.drained + r.cap
  log_length : r.log.length = r.claim
  held : ∀ i e k, (r.holders i).held = some (e, k) → r.drained ≤ k ∧ r.log[k]? = some e
  held_inj : ∀ i j e f k, (r.holders i).held = some (e, k) → (r.holders j).held = some (f, k) →
    i = j
  written : ∀ i e k, r.holders i = .written e k → r.slots (k % r.cap) = e
  published : ∀ k, r.drained ≤ k → k < r.claim →
    (r.tags (k % r.cap) = k + 1 ∧ r.log[k]? = some (r.slots (k % r.cap))) ∨
      ∃ i e, (r.holders i).held = some (e, k)
  tagged : ∀ slot k, slot < r.cap → r.tags slot = k + 1 →
    k < r.claim ∧ ∀ i e, (r.holders i).held ≠ some (e, k)

variable {r : Ring ι α}

theorem Ok.held_lt (h : r.Ok) {i : ι} {e : α} {k : Nat} (hi : (r.holders i).held = some (e, k)) :
    k < r.claim := by
  rw [← h.log_length]
  exact (List.getElem?_eq_some_iff.mp (h.held i e k hi).2).1

/-- Two indices of the window share a slot only when they are equal. -/
theorem Ok.index_inj (h : r.Ok) {k l : Nat} (hk : r.drained ≤ k ∧ k < r.claim)
    (hl : r.drained ≤ l ∧ l < r.claim) (heq : k % r.cap = l % r.cap) : k = l := by
  have hw := h.window
  rcases Nat.le_total k l with hkl | hkl
  · have hdvd : r.cap ∣ l - k := Nat.dvd_of_mod_eq_zero (Nat.sub_mod_eq_zero_of_mod_eq heq.symm)
    have := Nat.eq_zero_of_dvd_of_lt hdvd (by omega)
    omega
  · have hdvd : r.cap ∣ k - l := Nat.dvd_of_mod_eq_zero (Nat.sub_mod_eq_zero_of_mod_eq heq)
    have := Nat.eq_zero_of_dvd_of_lt hdvd (by omega)
    omega

/-- An empty ring with cleared tags. -/
theorem Ok.of_empty (hcap : 0 < r.cap) (hclaim : r.claim = 0) (hdrained : r.drained = 0)
    (hlog : r.log = []) (htags : ∀ slot, slot < r.cap → r.tags slot = 0)
    (hfree : ∀ i, (r.holders i).held = none) : r.Ok where
  cap_pos := hcap
  drained_le := by omega
  window := by omega
  log_length := by rw [hlog, hclaim, List.length_nil]
  held i e k hi := by simp [hfree] at hi
  held_inj i j e f k hi := by simp [hfree] at hi
  written i e k hi := by
    have := hfree i
    rw [hi] at this
    cases this
  published k _ hk := by omega
  tagged slot k hslot htag := by
    have := htags slot hslot
    omega

/-! ## What the reader sees -/

/-- A published index holds its logged value. -/
theorem Ok.slots_eq (h : r.Ok) (htag : r.tags (r.drained % r.cap) = r.drained + 1) :
    r.log[r.drained]? = some (r.slots (r.drained % r.cap)) := by
  obtain ⟨hlt, hfree⟩ := h.tagged _ _ (Nat.mod_lt _ h.cap_pos) htag
  obtain ⟨-, hslot⟩ | ⟨i, e, hi⟩ := h.published r.drained (Nat.le_refl _) hlt
  · exact hslot
  · exact absurd hi (hfree i e)

/-- When no writer holds an index, every index of the window is published. -/
theorem Ok.tags_eq_of_free (h : r.Ok) (hfree : ∀ i, (r.holders i).held = none) {k : Nat}
    (hk : r.drained ≤ k) (hlt : k < r.claim) : r.tags (k % r.cap) = k + 1 := by
  obtain ⟨htag, -⟩ | ⟨i, e, hi⟩ := h.published k hk hlt
  · exact htag
  · rw [hfree i] at hi
    cases hi

theorem Ok.advance (h : r.Ok) (htag : r.tags (r.drained % r.cap) = r.drained + 1) :
    r.advance.Ok := by
  obtain ⟨hlt, hfree⟩ := h.tagged _ _ (Nat.mod_lt _ h.cap_pos) htag
  have hw := h.window
  exact {
    cap_pos := h.cap_pos
    drained_le := hlt
    window := by
      change r.claim ≤ r.drained + 1 + r.cap
      omega
    log_length := h.log_length
    held := by
      intro i e k hi
      obtain ⟨hk, hlog⟩ := h.held i e k hi
      refine ⟨Nat.lt_of_le_of_ne hk ?_, hlog⟩
      rintro rfl
      exact hfree i e hi
    held_inj := h.held_inj
    written := h.written
    published := fun k hk hlt => h.published k (Nat.le_of_succ_le hk) hlt
    tagged := h.tagged }

/-! ## What a writer does -/

section Writers

variable [DecidableEq ι] {i : ι} {e : α} {k : Nat}

/-- The holders after writer `i` has moved. -/
theorem held_update (holders : ι → Holder α) (x : Holder α) (j : ι) :
    (Function.update holders i x j).held = if j = i then x.held else (holders j).held := by
  rw [Function.update_apply]
  split <;> rfl

theorem Ok.reserve (h : r.Ok) (hfree : (r.holders i).held = none)
    (hroom : r.claim < r.drained + r.cap) (e : α) : (r.reserve i e).Ok where
  cap_pos := h.cap_pos
  drained_le := Nat.le_succ_of_le h.drained_le
  window := hroom
  log_length := by simp [Ring.reserve, h.log_length]
  held j f k hj := by
    simp only [Ring.reserve, held_update] at hj ⊢
    split at hj
    · cases hj
      refine ⟨h.drained_le, ?_⟩
      rw [← h.log_length, List.getElem?_concat_length]
    · obtain ⟨hk, hlog⟩ := h.held j f k hj
      refine ⟨hk, ?_⟩
      rw [List.getElem?_append_left (by rw [h.log_length]; exact h.held_lt hj), hlog]
  held_inj j l f g k hj hl := by
    simp only [Ring.reserve, held_update] at hj hl
    split at hj <;> split at hl
    · rw [‹j = i›, ‹l = i›]
    · cases hj
      exact absurd (h.held_lt hl) (Nat.lt_irrefl _)
    · cases hl
      exact absurd (h.held_lt hj) (Nat.lt_irrefl _)
    · exact h.held_inj j l f g k hj hl
  written j f k hj := by
    simp only [Ring.reserve, Function.update_apply] at hj ⊢
    split at hj
    · cases hj
    · exact h.written j f k hj
  published k hk hlt := by
    simp only [Ring.reserve, held_update] at hk hlt ⊢
    rcases Nat.lt_succ_iff_lt_or_eq.mp hlt with hlt | rfl
    · obtain ⟨htag, hlog⟩ | ⟨j, f, hj⟩ := h.published k hk hlt
      · left
        refine ⟨htag, ?_⟩
        rw [List.getElem?_append_left (by rw [h.log_length]; exact hlt), hlog]
      · right
        refine ⟨j, f, ?_⟩
        rw [if_neg]
        · exact hj
        · rintro rfl
          rw [hfree] at hj
          cases hj
    · exact .inr ⟨i, e, by rw [if_pos rfl]; rfl⟩
  tagged slot k hslot htag := by
    obtain ⟨hlt, hnone⟩ := h.tagged slot k hslot htag
    refine ⟨Nat.lt_succ_of_lt hlt, fun j f hj => ?_⟩
    simp only [Ring.reserve, held_update] at hj
    split at hj
    · cases hj
      exact absurd hlt (Nat.lt_irrefl _)
    · exact hnone j f hj

theorem Ok.write (h : r.Ok) (hi : r.holders i = .reserved e k) : (r.write i e k).Ok := by
  have hheld : (r.holders i).held = some (e, k) := by rw [hi]; rfl
  have hsame : ∀ j, (Function.update r.holders i (.written e k) j).held = (r.holders j).held := by
    intro j
    rw [held_update]
    split
    · rw [‹j = i›, hheld]
      rfl
    · rfl
  have hk := (h.held i e k hheld).1
  have hlt := h.held_lt hheld
  exact {
    cap_pos := h.cap_pos
    drained_le := h.drained_le
    window := h.window
    log_length := h.log_length
    held := fun j f l hj => h.held j f l (by rw [← hsame]; exact hj)
    held_inj := fun j m f g l hj hm =>
      h.held_inj j m f g l (by rw [← hsame]; exact hj) (by rw [← hsame]; exact hm)
    written := by
      intro j f l hj
      simp only [Ring.write, Function.update_apply] at hj ⊢
      split at hj
      · cases hj
        exact if_pos rfl
      · have hj' : (r.holders j).held = some (f, l) := by rw [hj]; rfl
        rw [if_neg]
        · exact h.written j f l hj
        · intro heq
          obtain rfl := h.index_inj ⟨(h.held j f l hj').1, h.held_lt hj'⟩ ⟨hk, hlt⟩ heq
          exact ‹¬ j = i› (h.held_inj j i f e l hj' hheld)
    published := by
      intro l hl hll
      simp only [Ring.write, hsame] at hl hll ⊢
      by_cases hlk : l = k
      · subst hlk
        exact .inr ⟨i, e, hheld⟩
      · obtain ⟨htag, hlog⟩ | hj := h.published l hl hll
        · left
          rw [Function.update_of_ne fun heq => hlk (h.index_inj ⟨hl, hll⟩ ⟨hk, hlt⟩ heq)]
          exact ⟨htag, hlog⟩
        · exact .inr hj
    tagged := by
      intro slot l hslot htag
      simp only [Ring.write, hsame]
      exact h.tagged slot l hslot htag }

theorem Ok.publish (h : r.Ok) (hi : r.holders i = .written e k) : (r.publish i k).Ok := by
  have hheld : (r.holders i).held = some (e, k) := by rw [hi]; rfl
  have hk := (h.held i e k hheld).1
  have hlt := h.held_lt hheld
  have hold : ∀ {j f l}, (Function.update r.holders i .free j).held = some (f, l) →
      j ≠ i ∧ (r.holders j).held = some (f, l) := by
    intro j f l hj
    rw [held_update] at hj
    split at hj
    · cases hj
    · exact ⟨‹¬ j = i›, hj⟩
  exact {
    cap_pos := h.cap_pos
    drained_le := h.drained_le
    window := h.window
    log_length := h.log_length
    held := fun j f l hj => h.held j f l (hold hj).2
    held_inj := fun j m f g l hj hm => h.held_inj j m f g l (hold hj).2 (hold hm).2
    written := by
      intro j f l hj
      simp only [Ring.publish, Function.update_apply] at hj ⊢
      split at hj
      · cases hj
      · exact h.written j f l hj
    published := by
      intro l hl hll
      simp only [Ring.publish] at hl hll ⊢
      by_cases hlk : l = k
      · subst hlk
        left
        rw [Function.update_self, h.written i e l hi]
        exact ⟨rfl, (h.held i e l hheld).2⟩
      · obtain ⟨htag, hlog⟩ | ⟨j, f, hj⟩ := h.published l hl hll
        · left
          rw [Function.update_of_ne fun heq => hlk (h.index_inj ⟨hl, hll⟩ ⟨hk, hlt⟩ heq)]
          exact ⟨htag, hlog⟩
        · right
          refine ⟨j, f, ?_⟩
          rw [held_update, if_neg]
          · exact hj
          · rintro rfl
            rw [hheld] at hj
            cases hj
            exact hlk rfl
    tagged := by
      intro slot l hslot htag
      simp only [Ring.publish] at hslot htag ⊢
      by_cases hsk : slot = k % r.cap
      · rw [hsk, Function.update_self] at htag
        obtain rfl : k = l := by omega
        refine ⟨hlt, fun j f hj => ?_⟩
        obtain ⟨hne, hj⟩ := hold hj
        exact hne (h.held_inj j i f e k hj hheld)
      · rw [Function.update_of_ne hsk] at htag
        obtain ⟨hll, hnone⟩ := h.tagged slot l hslot htag
        exact ⟨hll, fun j f hj => hnone j f (hold hj).2⟩ }

/-- A publication leaves the tag of the reader's index alone. -/
theorem Ok.publish_tags (h : r.Ok) (hi : r.holders i = .written e k)
    (htag : r.tags (r.drained % r.cap) = r.drained + 1) :
    (r.publish i k).tags (r.drained % r.cap) = r.drained + 1 := by
  have hheld : (r.holders i).held = some (e, k) := by rw [hi]; rfl
  have hk := (h.held i e k hheld).1
  have hlt := h.held_lt hheld
  by_cases hslot : r.drained % r.cap = k % r.cap
  · obtain rfl := h.index_inj ⟨Nat.le_refl _, Nat.lt_of_le_of_lt hk hlt⟩ ⟨hk, hlt⟩ hslot
    exact Function.update_self _ _ _
  · exact (Function.update_of_ne hslot _ _).trans htag

end Writers

end Ring

end TaggedRing
