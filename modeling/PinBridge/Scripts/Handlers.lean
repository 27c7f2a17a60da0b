import Mathlib.Data.List.Sort

/-!
# Loops over handlers

The handlers of the plugins are called in two ways.  Those of a question are
sorted first, by their plugin and then by their place in it (`sortHandlers`).
Those of a plugin are offered a record one by one in their order, until a call
fails (`routeHandlers`).  What a handler remembers of the records is its own, so
accepting a record changes it.
-/

namespace PinBridge.Handlers

variable {η ρ : Type*}

/-! ## The order of a question -/

/-- `sort_handlers`. -/
def sortHandlers (plugin : η → String) (order : η → Nat) (hs : List η) : List η :=
  hs.insertionSort fun left right =>
    plugin left < plugin right ∨ plugin left = plugin right ∧ order left ≤ order right

theorem sortHandlers_perm (plugin : η → String) (order : η → Nat) (hs : List η) :
    (sortHandlers plugin order hs).Perm hs :=
  List.perm_insertionSort _ _

/-! ## The offer of a record -/

section

variable (accept : ρ → η → Option η) (call : η → ρ → ρ) (failed : ρ → Bool)

/-- `route_named_handlers`: the dispatch after the offer and what has become of
the handlers. -/
def routeHandlers : ρ → List η → ρ × List η
  | r, [] => (r, [])
  | r, h :: hs =>
      match accept r h with
      | none =>
          let (r, hs) := routeHandlers r hs
          (r, h :: hs)
      | some h =>
          let r := call h r
          if failed r then (r, h :: hs)
          else
            let (r, hs) := routeHandlers r hs
            (r, h :: hs)

variable {accept call failed}

/-- What each call keeps is kept by the offer.  `Q` holds whenever no call has
failed, so a call may use it. -/
theorem routeHandlers_induct {P Q : ρ → Prop} {hs : List η} {r : ρ}
    (hready : ∀ r, failed r = false → Q r)
    (hcall : ∀ h ∈ hs, ∀ r h', P r → Q r → accept r h = some h' → P (call h' r))
    (hP : P r) (hQ : Q r) : P (routeHandlers accept call failed r hs).1 := by
  induction hs generalizing r with
  | nil => exact hP
  | cons h hs ih =>
      have hrest := fun g hg => hcall g (List.mem_cons_of_mem h hg)
      rw [routeHandlers]
      cases ha : accept r h with
      | none => exact ih hrest hP hQ
      | some h' =>
          have hP' : P (call h' r) := hcall h List.mem_cons_self r h' hP hQ ha
          simp only
          split
          next => exact hP'
          next hf => exact ih hrest hP' (hready _ (by simpa using hf))

end

end PinBridge.Handlers
