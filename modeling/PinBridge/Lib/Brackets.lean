import Mathlib.Data.List.Infix
import Mathlib.Algebra.BigOperators.Group.List.Basic
import Mathlib.Tactic.Ring

/-!
# Brackets among other elements

`side` says which elements of a list open a bracket, which close one and which do
neither.  The height of a list is the number of opening minus the number of closing
elements.  A list is balanced if its height is zero and no prefix is below zero.

An opening element is *closed* by what follows it if what follows is a balanced
list, a closing element and any rest (`Closed`).  A list is *settled* if all its
opening elements are closed in it.  `Nested w os` says that `os` are the opening
elements of `w` that are still open, outermost first.  It is kept by a matcher with
a stack: an opening element is pushed (`Nested.push`), a closing one removes the
last (`Nested.pop`), a balanced list changes nothing (`Nested.append`).
-/

namespace Brackets

/-- What an element does. -/
inductive Side where
  | opens
  | closes
  | other
deriving DecidableEq, Repr

/-- By how much an element changes the height. -/
def Side.weight : Side → Int
  | .opens => 1
  | .closes => -1
  | .other => 0

variable {α : Type*} (side : α → Side)

/-- Opening minus closing elements. -/
def height (w : List α) : Int := (w.map fun a => (side a).weight).sum

@[simp] theorem height_nil : height side [] = 0 := rfl

@[simp] theorem height_cons (a : α) (w : List α) :
    height side (a :: w) = (side a).weight + height side w := by
  simp [height]

@[simp] theorem height_append (v w : List α) :
    height side (v ++ w) = height side v + height side w := by
  simp [height]

/-- No prefix closes more than it opens, and in the end everything is closed. -/
structure Balanced (w : List α) : Prop where
  nonneg : ∀ p q, w = p ++ q → 0 ≤ height side p
  level : height side w = 0

/-- An opening element in front of the list is closed in it. -/
def Closed (w : List α) : Prop :=
  ∃ mid b rest, w = mid ++ b :: rest ∧ Balanced side mid ∧ side b = .closes

/-- Every opening element of the list is closed in it. -/
def Settled (w : List α) : Prop :=
  ∀ pre a rest, w = pre ++ a :: rest → side a = .opens → Closed side rest

/-- The opening elements of a list that are still open, outermost first. -/
inductive Nested : List α → List α → Prop where
  | settled {w : List α} (h : Settled side w) : Nested w []
  | push {w m os : List α} {a : α} (h : Nested w os) (ha : side a = .opens)
      (hm : Balanced side m) : Nested (w ++ a :: m) (os ++ [a])

variable {side}

/-! ## Balanced lists -/

theorem Balanced.nil : Balanced side [] where
  nonneg p q hpq := by simp [(List.nil_eq_append_iff.mp hpq).1]
  level := rfl

theorem Balanced.append {v w : List α} (hv : Balanced side v) (hw : Balanced side w) :
    Balanced side (v ++ w) where
  nonneg p q hpq := by
    obtain ⟨r, rfl, hr⟩ | ⟨r, hr, -⟩ := List.append_eq_append_iff.mp hpq
    · rw [height_append, hv.level, zero_add]
      exact hw.nonneg r q hr
    · exact hv.nonneg p r hr
  level := by rw [height_append, hv.level, hw.level, add_zero]

/-- The prefixes of a list with one more element in front. -/
theorem nonneg_cons {a : α} {w : List α}
    (h : ∀ p q, w = p ++ q → 0 ≤ (side a).weight + height side p) :
    ∀ p q, a :: w = p ++ q → 0 ≤ height side p := by
  intro p q hpq
  cases p with
  | nil => exact le_rfl
  | cons b p =>
      cases hpq
      rw [height_cons]
      exact h p q rfl

/-- An element that is no bracket is balanced by itself. -/
theorem Balanced.other {a : α} (ha : side a = .other) : Balanced side [a] where
  nonneg := nonneg_cons fun p q hpq => by
    simp [(List.nil_eq_append_iff.mp hpq).1, ha, Side.weight]
  level := by simp [ha, Side.weight]

/-- A pair around a balanced list. -/
theorem Balanced.wrap {m : List α} {a b : α} (hm : Balanced side m) (ha : side a = .opens)
    (hb : side b = .closes) : Balanced side (a :: (m ++ [b])) where
  nonneg := nonneg_cons fun p q hpq => by
    rw [ha, Side.weight]
    obtain ⟨r, rfl, hr⟩ | ⟨r, hr, -⟩ := List.append_eq_append_iff.mp hpq
    · rw [height_append, hm.level]
      obtain ⟨rfl, -⟩ | ⟨rfl, -⟩ := List.singleton_eq_append_iff.mp hr
      · simp
      · simp [hb, Side.weight]
    · have := hm.nonneg p r hr
      omega
  level := by simp [ha, hb, hm.level, Side.weight]

/-! ## Closed and settled lists -/

theorem Closed.append {w : List α} (h : Closed side w) (v : List α) : Closed side (w ++ v) := by
  obtain ⟨mid, b, rest, rfl, hmid, hb⟩ := h
  exact ⟨mid, b, rest ++ v, by simp, hmid, hb⟩

/-- An opening element is closed where the height first falls below its own. -/
theorem closed_of_neg {w : List α} (h : ∃ p q, w = p ++ q ∧ height side p < 0) :
    Closed side w := by
  induction w using List.reverseRecOn with
  | nil =>
      obtain ⟨p, q, hpq, hlow⟩ := h
      simp [(List.nil_eq_append_iff.mp hpq).1] at hlow
  | append_singleton w b ih =>
      by_cases hw : ∃ p q, w = p ++ q ∧ height side p < 0
      · exact (ih hw).append [b]
      · have hnonneg : ∀ p q, w = p ++ q → 0 ≤ height side p := by
          intro p q hpq
          by_contra hlow
          exact hw ⟨p, q, hpq, not_le.mp hlow⟩
        have hall := hnonneg w [] (List.append_nil w).symm
        obtain ⟨p, q, hpq, hlow⟩ := h
        obtain ⟨r, rfl, hr⟩ | ⟨r, hr, -⟩ := List.append_eq_append_iff.mp hpq
        · rw [height_append] at hlow
          obtain ⟨rfl, -⟩ | ⟨rfl, -⟩ := List.singleton_eq_append_iff.mp hr
          · simp only [height_nil, add_zero] at hlow
            omega
          · simp only [height_cons, height_nil, add_zero] at hlow
            cases hb : side b with
            | opens => simp only [hb, Side.weight] at hlow; omega
            | other => simp only [hb, Side.weight] at hlow; omega
            | closes =>
                simp only [hb, Side.weight] at hlow
                exact ⟨w, b, [], rfl, ⟨hnonneg, by omega⟩, hb⟩
        · exact absurd hlow (not_lt.mpr (hnonneg p r hr))

theorem Closed.neg {w : List α} (h : Closed side w) : ∃ p q, w = p ++ q ∧ height side p < 0 := by
  obtain ⟨mid, b, rest, rfl, hmid, hb⟩ := h
  refine ⟨mid ++ [b], rest, by simp, ?_⟩
  simp [hmid.level, hb, Side.weight]

theorem Balanced.not_closed {w : List α} (hw : Balanced side w) : ¬Closed side w := by
  intro h
  obtain ⟨p, q, hpq, hlow⟩ := h.neg
  exact absurd hlow (not_lt.mpr (hw.nonneg p q hpq))

/-- What follows an opening element that stays open may be followed by another one. -/
theorem not_closed_push {v w : List α} {a : α} (hv : ¬Closed side v) (ha : side a = .opens)
    (hw : Balanced side w) : ¬Closed side (v ++ a :: w) := by
  intro h
  obtain ⟨p, q, hpq, hlow⟩ := h.neg
  obtain ⟨r, rfl, hr⟩ | ⟨r, hr, -⟩ := List.append_eq_append_iff.mp hpq
  · have hlevel : 0 ≤ height side v := by
      by_contra hneg
      exact hv (closed_of_neg ⟨v, [], (List.append_nil v).symm, not_le.mp hneg⟩)
    have hrest : 0 ≤ height side r := by
      refine nonneg_cons (fun p q hpq => ?_) r q hr
      have := hw.nonneg p q hpq
      rw [ha, Side.weight]
      omega
    rw [height_append] at hlow
    omega
  · exact hv (closed_of_neg ⟨p, r, hr, hlow⟩)

/-- A balanced list closes what it opens. -/
theorem Balanced.settled {w : List α} (hw : Balanced side w) : Settled side w := by
  rintro pre a rest rfl ha
  have hpre := hw.nonneg pre (a :: rest) rfl
  have hall := hw.level
  rw [height_append, height_cons, ha, Side.weight] at hall
  exact closed_of_neg ⟨rest, [], (List.append_nil rest).symm, by omega⟩

theorem Settled.nil : Settled side [] := by
  intro pre a rest h
  cases (List.nil_eq_append_iff.mp h).2

theorem Settled.append {v w : List α} (hv : Settled side v) (hw : Settled side w) :
    Settled side (v ++ w) := by
  intro pre a rest h ha
  obtain ⟨r, rfl, hr⟩ | ⟨r, hr, heq⟩ := List.append_eq_append_iff.mp h
  · exact hw r a rest hr ha
  · cases r with
    | nil => exact hw [] a rest heq.symm ha
    | cons c r =>
        cases heq
        exact (hv pre a r hr ha).append w

/-- A closing element opens nothing. -/
theorem Settled.closing {b : α} (hb : side b = .closes) : Settled side [b] := by
  intro pre a rest h ha
  obtain ⟨-, h⟩ | ⟨-, h⟩ := List.singleton_eq_append_iff.mp h
  · cases h
    rw [ha] at hb
    cases hb
  · cases h

/-! ## What is still open -/

/-- A balanced list leaves the open elements as they are. -/
theorem Nested.append {w os m : List α} (h : Nested side w os) (hm : Balanced side m) :
    Nested side (w ++ m) os := by
  cases h with
  | settled h => exact .settled (h.append hm.settled)
  | push h ha hm' =>
      rw [List.append_assoc, List.cons_append]
      exact .push h ha (hm'.append hm)

/-- An opening element is the innermost. -/
theorem Nested.opening {w os : List α} {a : α} (h : Nested side w os) (ha : side a = .opens) :
    Nested side (w ++ [a]) (os ++ [a]) :=
  .push h ha .nil

theorem Nested.nil_settled {w : List α} (h : Nested side w []) : Settled side w := by
  generalize hos : ([] : List α) = os at h
  cases h with
  | settled h => exact h
  | push _ _ _ => cases (List.nil_eq_append_iff.mp hos).2

/-- A closing element with nothing open. -/
theorem Nested.lone_closing {w : List α} {b : α} (h : Nested side w [])
    (hb : side b = .closes) : Nested side (w ++ [b]) [] :=
  .settled (h.nil_settled.append (.closing hb))

/-- A closing element closes the innermost open one. -/
theorem Nested.pop {w os : List α} {a b : α} (h : Nested side w (os ++ [a]))
    (hb : side b = .closes) :
    ∃ pre m, w = pre ++ a :: m ∧ side a = .opens ∧ Balanced side m ∧
      Nested side (w ++ [b]) os := by
  generalize hos : os ++ [a] = os' at h
  cases h with
  | settled _ => cases (List.append_eq_nil_iff.mp hos).2
  | @push pre m os₁ a₁ h ha hm =>
      obtain ⟨rfl, heq⟩ := List.append_inj' hos rfl
      cases heq
      refine ⟨pre, m, rfl, ha, hm, ?_⟩
      rw [List.append_assoc, List.cons_append]
      exact h.append (hm.wrap ha hb)

/-- What is still open is closed by nothing that follows it. -/
theorem Nested.not_closed {w os : List α} {a : α} (h : Nested side w os) (ha : a ∈ os) :
    ∃ pre post, w = pre ++ a :: post ∧ side a = .opens ∧ ¬Closed side post := by
  induction h with
  | settled _ => cases ha
  | @push w m os a' h ha' hm ih =>
      obtain ha | ha := List.mem_append.mp ha
      · obtain ⟨pre, post, rfl, hside, hnot⟩ := ih ha
        exact ⟨pre, post ++ a' :: m, by simp, hside, not_closed_push hnot ha' hm⟩
      · obtain rfl := List.mem_singleton.mp ha
        exact ⟨w, m, rfl, ha', hm.not_closed⟩

end Brackets
