import Mathlib.Data.List.Infix
import Mathlib.Data.List.Forall2

/-!
# Patterns with a star

A value is cut into pieces, one for each character of a pattern.  `Cuts takes`
lets `takes c w v` decide whether the character `c` may take the piece `w` from
what is left of the value, `v`.  A glob (`Matches`) lets the star take any piece,
the joker any single element, and every other character itself.  An eager glob
(`EagerMatches`) agrees with it, except that a star standing at a star of the
value takes that star and nothing else.

A segment that was laid over the value element by element (`Aligned`) holds any
later eager reading of it back: a reading that starts no earlier cannot leave the
segment before the end of what it was laid over (`EagerMatches.not_ahead`).  This
is why a matcher may forget all stars but the last one.
-/

namespace Glob

variable {α : Type*}

/-- The value is cut into pieces, each taken by its character of the pattern. -/
def Cuts (takes : α → List α → List α → Prop) : List α → List α → Prop
  | [], v => v = []
  | c :: p, v => ∃ w rest, v = w ++ rest ∧ takes c w v ∧ Cuts takes p rest

theorem Cuts.mono {takes takes' : α → List α → List α → Prop}
    (h : ∀ c w v, takes c w v → takes' c w v) {p v : List α} (hc : Cuts takes p v) :
    Cuts takes' p v := by
  induction p generalizing v with
  | nil => exact hc
  | cons c p ih =>
      obtain ⟨w, rest, hv, ht, hr⟩ := hc
      exact ⟨w, rest, hv, h _ _ _ ht, ih hr⟩

variable (star joker : α)

/-- What a character of a glob stands for. -/
def Piece (c : α) (w : List α) : Prop :=
  c = star ∨ (c = joker ∧ w.length = 1) ∨ w = [c]

/-- The value is an instance of the glob. -/
def Matches : List α → List α → Prop := Cuts fun c w _ => Piece star joker c w

/-- The value is an instance of the glob in which every star that stands at a star
of the value takes exactly that star. -/
def EagerMatches : List α → List α → Prop :=
  Cuts fun c w v => Piece star joker c w ∧ (c = star → v.head? = some star → w = [star])

variable {star joker}

theorem EagerMatches.matches {p v : List α} (h : EagerMatches star joker p v) :
    Matches star joker p v :=
  Cuts.mono (fun _ _ _ h => h.1) h

@[simp] theorem eager_nil {v : List α} : EagerMatches star joker [] v ↔ v = [] := Iff.rfl

theorem matches_nil : Matches star joker ([] : List α) [] := rfl

/-- An ordinary character matches itself. -/
theorem Matches.cons {c : α} {p v : List α} (h : Matches star joker p v) :
    Matches star joker (c :: p) (c :: v) :=
  ⟨[c], v, rfl, .inr (.inr rfl), h⟩

/-- A star matches any piece. -/
theorem Matches.star_append {p v : List α} (w : List α) (h : Matches star joker p v) :
    Matches star joker (star :: p) (w ++ v) :=
  ⟨w, v, rfl, .inl rfl, h⟩

/-! ## One character -/

/-- A character that is no star takes one element. -/
theorem eager_cons_of_ne {c : α} {p v : List α} (hc : c ≠ star) :
    EagerMatches star joker (c :: p) v ↔
      ∃ b rest, v = b :: rest ∧ (c = joker ∨ c = b) ∧ EagerMatches star joker p rest := by
  constructor
  · rintro ⟨w, rest, hv, ⟨hw, -⟩, hr⟩
    obtain h | ⟨hj, hlen⟩ | rfl := hw
    · exact absurd h hc
    · obtain ⟨b, rfl⟩ := List.length_eq_one_iff.mp hlen
      exact ⟨b, rest, hv, .inl hj, hr⟩
    · exact ⟨c, rest, hv, .inr rfl, hr⟩
  · rintro ⟨b, rest, hv, hcb, hr⟩
    refine ⟨[b], rest, hv, ⟨.inr ?_, fun h => absurd h hc⟩, hr⟩
    obtain h | rfl := hcb
    · exact .inl ⟨h, rfl⟩
    · exact .inr rfl

/-- A star at a star of the value takes it. -/
theorem eager_star_star {p v : List α} :
    EagerMatches star joker (star :: p) (star :: v) ↔ EagerMatches star joker p v := by
  constructor
  · rintro ⟨w, rest, hv, ⟨-, hw⟩, hr⟩
    obtain rfl := hw rfl rfl
    cases hv
    exact hr
  · intro h
    exact ⟨[star], v, rfl, ⟨.inl rfl, fun _ _ => rfl⟩, h⟩

/-- Elsewhere a star takes any piece. -/
theorem eager_star_of_ne {p v : List α} (hv : v.head? ≠ some star) :
    EagerMatches star joker (star :: p) v ↔ ∃ rest, rest <:+ v ∧ EagerMatches star joker p rest := by
  constructor
  · rintro ⟨w, rest, rfl, -, hr⟩
    exact ⟨rest, List.suffix_append w rest, hr⟩
  · rintro ⟨rest, ⟨w, rfl⟩, hr⟩
    exact ⟨w, rest, rfl, ⟨.inl rfl, fun _ h => absurd h hv⟩, hr⟩

/-- Whatever a star takes, the rest of the pattern reads a suffix. -/
theorem EagerMatches.rest_suffix {p v : List α} (h : EagerMatches star joker (star :: p) v) :
    ∃ rest, rest <:+ v ∧ EagerMatches star joker p rest := by
  obtain ⟨w, rest, rfl, -, hr⟩ := h
  exact ⟨rest, List.suffix_append w rest, hr⟩

/-- Nothing but stars reads the empty value. -/
theorem eager_nil_right {p : List α} :
    EagerMatches star joker p [] ↔ ∀ c ∈ p, c = star := by
  induction p with
  | nil => simp
  | cons c p ih =>
      rw [List.forall_mem_cons]
      constructor
      · rintro ⟨w, rest, hv, ⟨hw, -⟩, hr⟩
        obtain ⟨rfl, rfl⟩ := List.nil_eq_append_iff.mp hv
        obtain h | ⟨-, h⟩ | h := hw
        · exact ⟨h, ih.mp hr⟩
        · cases h
        · cases h
      · rintro ⟨rfl, hp⟩
        exact (eager_star_of_ne (by simp)).mpr ⟨[], List.suffix_rfl, ih.mpr hp⟩

/-! ## Segments laid over the value -/

variable (joker) in
/-- The segment of a pattern lies over the elements, one character on each. -/
def Aligned : List α → List α → Prop := List.Forall₂ fun c b => c = joker ∨ c = b

/-- An eager reading that starts inside the elements a segment was laid over, or at
their first one, reads what follows the segment in what follows the elements. -/
theorem EagerMatches.not_ahead (hne : star ≠ joker) {seg u p t v : List α}
    (ha : Aligned joker seg u) (hv : v <:+ u ++ t)
    (h : EagerMatches star joker (seg ++ p) v) :
    ∃ v', v' <:+ t ∧ EagerMatches star joker p v' := by
  induction ha generalizing v with
  | nil => exact ⟨v, hv, h⟩
  | @cons c b seg u hcb _ ih =>
      rw [List.cons_append] at h hv
      by_cases hc : c = star
      · subst hc
        rw [or_iff_right hne] at hcb
        subst hcb
        obtain rfl | hv := List.suffix_cons_iff.mp hv
        · exact ih List.suffix_rfl (eager_star_star.mp h)
        · obtain ⟨rest, hrest, hr⟩ := h.rest_suffix
          exact ih (hrest.trans hv) hr
      · obtain ⟨b', rest, rfl, -, hr⟩ := (eager_cons_of_ne hc).mp h
        have hrest : rest <:+ u ++ t := by
          obtain heq | hv := List.suffix_cons_iff.mp hv
          · cases heq
            exact List.suffix_rfl
          · exact (List.suffix_cons b' rest).trans hv
        exact ih hrest hr

/-! ## Values without a star -/

/-- On a value without a star an eager glob is a glob. -/
theorem Matches.eager {p v : List α} (hv : star ∉ v) (h : Matches star joker p v) :
    EagerMatches star joker p v := by
  induction p generalizing v with
  | nil => exact h
  | cons c p ih =>
      obtain ⟨w, rest, rfl, hw, hr⟩ := h
      rw [List.mem_append, not_or] at hv
      refine ⟨w, rest, rfl, ⟨hw, fun _ hhead => ?_⟩, ih hv.2 hr⟩
      have hmem : star ∈ w ++ rest := List.mem_of_head? hhead
      rw [List.mem_append] at hmem
      exact absurd hmem (not_or.mpr hv)

end Glob
