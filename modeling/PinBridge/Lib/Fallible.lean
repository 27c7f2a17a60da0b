import Mathlib.Init

/-!
# Fallible computations

A computation in steps succeeds if and only if every step does.  A loop that pushes what its rounds
give succeeds if and only if every round does, with all that they give (`foldlM_push`,
`foldlM_push_of_none`).
-/

namespace Fallible

variable {ε α β : Type*} {x : Except ε α} {b : β}

theorem bind_eq_ok {f : α → Except ε β} :
    x.bind f = .ok b ↔ ∃ a, x = .ok a ∧ f a = .ok b := by
  cases x with
  | error e => exact iff_of_false (fun h => nomatch h) fun ⟨_, h, _⟩ => nomatch h
  | ok a => exact ⟨fun h => ⟨a, rfl, h⟩, fun ⟨_, ha, h⟩ => by cases ha; exact h⟩

theorem map_eq_ok {f : α → β} : x.map f = .ok b ↔ ∃ a, x = .ok a ∧ f a = b := by
  cases x with
  | error e => exact iff_of_false (fun h => nomatch h) fun ⟨_, h, _⟩ => nomatch h
  | ok a =>
      constructor
      · intro h
        cases h
        exact ⟨a, rfl, rfl⟩
      · rintro ⟨_, ha, rfl⟩
        cases ha
        rfl

/-! ## Loops that push -/

variable {f : α → Option (List β)} {g : α → List β} {l : List α} {out : List β}

/-- A loop whose rounds all succeed pushes what they give. -/
theorem foldlM_push (h : ∀ a ∈ l, f a = some (g a)) (out : List β) :
    l.foldlM (fun out a => (f a).map (out ++ ·)) out = some (out ++ l.flatMap g) := by
  induction l generalizing out with
  | nil => simp
  | cons a l ih =>
      rw [List.foldlM_cons, h a List.mem_cons_self, Option.map_some, Option.bind_eq_bind,
        Option.bind_some, ih fun b hb => h b (List.mem_cons_of_mem a hb), List.flatMap_cons,
        List.append_assoc]

/-- A loop fails if a round does. -/
theorem foldlM_push_of_none {a : α} (ha : a ∈ l) (h : f a = none) (out : List β) :
    l.foldlM (fun out a => (f a).map (out ++ ·)) out = none := by
  induction l generalizing out with
  | nil => exact absurd ha List.not_mem_nil
  | cons b l ih =>
      rw [List.foldlM_cons]
      cases hb : f b with
      | none => rfl
      | some c =>
          rw [Option.map_some, Option.bind_eq_bind, Option.bind_some]
          refine ih ?_ _
          rcases List.mem_cons.mp ha with rfl | ha
          · rw [h] at hb
            exact absurd hb nofun
          · exact ha

/-- A loop over the places of a list is a loop over its elements. -/
theorem flatMap_range (f : α → Option β) (l : List α) :
    ((List.range l.length).flatMap fun i => (l[i]?.bind f).toList) = l.filterMap f := by
  induction l with
  | nil => rfl
  | cons a l ih =>
      rw [List.length_cons, List.range_succ_eq_map, List.flatMap_cons, List.flatMap_map]
      simp only [List.getElem?_cons_zero, List.getElem?_cons_succ, Option.bind_some, ih,
        List.filterMap_cons]
      cases f a with
      | none => rfl
      | some b => rfl

end Fallible
