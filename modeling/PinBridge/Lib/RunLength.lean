import Mathlib.Data.List.Basic

/-!
# Run-length segmentation

A run stands for `base, nth base 1, …, nth base repeats`.  The encoder holds one
pending run.  An element that continues the pending run is counted, any other
element closes the run and becomes the base of the next one (`Pending.push`).
At the end of the input the pending run is closed (`Pending.close`).

`continues base k e` says that the encoder accepts `e` as the successor of the
run with base `base` and `k` repeats.  The segmentation is lossless as soon as
such an `e` is `nth base (k + 1)` (`expand_runs`).  Two encoders whose tests
agree along a map of the elements produce the same segmentation (`runs_map`).
-/

namespace RunLength

variable {α : Type*}

/-- A base element and how many further elements repeat it. -/
structure Run (α : Type*) where
  base : α
  repeats : Nat
deriving DecidableEq, Repr

/-- The encoder's memory: the runs closed so far, oldest first, and the pending
one. -/
structure Pending (α : Type*) where
  closed : List (Run α)
  pending : Option (Run α)

/-- The encoder before any input. -/
def Pending.empty : Pending α := ⟨[], none⟩

variable (continues : α → Nat → α → Bool)

/-- Feed one element to the encoder. -/
def Pending.push (p : Pending α) (e : α) : Pending α :=
  match p.pending with
  | none => { p with pending := some ⟨e, 0⟩ }
  | some r =>
      if continues r.base r.repeats e then { p with pending := some ⟨r.base, r.repeats + 1⟩ }
      else ⟨p.closed ++ [r], some ⟨e, 0⟩⟩

/-- All runs once the input has ended. -/
def Pending.close (p : Pending α) : List (Run α) := p.closed ++ p.pending.toList

/-- The runs of a list. -/
def runs (es : List α) : List (Run α) := (es.foldl (Pending.push continues) Pending.empty).close

variable (nth : α → Nat → α)

/-- The elements a run stands for. -/
def Run.expand (r : Run α) : List α := (List.range (r.repeats + 1)).map (nth r.base)

/-- The elements a list of runs stands for. -/
def expand (rs : List (Run α)) : List α := rs.flatMap (Run.expand nth)

@[simp] theorem expand_nil : expand nth [] = [] := rfl

@[simp] theorem expand_cons (r : Run α) (rs : List (Run α)) :
    expand nth (r :: rs) = r.expand nth ++ expand nth rs := rfl

theorem expand_append (rs ss : List (Run α)) :
    expand nth (rs ++ ss) = expand nth rs ++ expand nth ss := List.flatMap_append

/-! ## Losslessness -/

section Lossless

variable {continues : α → Nat → α → Bool} {nth : α → Nat → α}
variable (hzero : ∀ e, nth e 0 = e)
variable (hsucc : ∀ {b k e}, continues b k e = true → e = nth b (k + 1))

include hzero in
theorem Run.expand_single (e : α) : (Run.mk e 0).expand nth = [e] := by
  simp [Run.expand, hzero]

theorem Run.expand_succ (b : α) (k : Nat) :
    (Run.mk b (k + 1)).expand nth = (Run.mk b k).expand nth ++ [nth b (k + 1)] := by
  simp [Run.expand, List.range_succ]

include hzero hsucc in
/-- One step of the encoder appends the element to what its runs stand for. -/
theorem Pending.expand_push (p : Pending α) (e : α) :
    expand nth (p.push continues e).close = expand nth p.close ++ [e] := by
  unfold Pending.push
  cases hp : p.pending with
  | none => simp [Pending.close, hp, expand_append, Run.expand_single hzero]
  | some r =>
      obtain ⟨b, k⟩ := r
      by_cases hc : continues b k e = true
      · obtain rfl := hsucc hc
        simp [Pending.close, hp, hc, expand_append, Run.expand_succ]
      · simp [Pending.close, hp, hc, expand_append, Run.expand_single hzero]

include hzero hsucc in
/-- The runs of a list stand for the list. -/
theorem expand_runs (es : List α) : expand nth (runs continues es) = es := by
  suffices h : ∀ p : Pending α,
      expand nth (es.foldl (Pending.push continues) p).close = expand nth p.close ++ es by
    simpa [runs, Pending.empty, Pending.close] using h Pending.empty
  induction es with
  | nil => simp
  | cons e es ih =>
      intro p
      rw [List.foldl_cons, ih, Pending.expand_push hzero hsucc, List.append_assoc]
      rfl

end Lossless

/-! ## Encoders with the same test -/

section Map

variable {β : Type*} (f : α → β)

/-- The image of a run. -/
def Run.map (r : Run α) : Run β := ⟨f r.base, r.repeats⟩

/-- The image of an encoder's memory. -/
def Pending.map (p : Pending α) : Pending β := ⟨p.closed.map (Run.map f), p.pending.map (Run.map f)⟩

variable {continues : α → Nat → α → Bool} {continues' : β → Nat → β → Bool} {f}
variable (h : ∀ b k e, continues' (f b) k (f e) = continues b k e)

include h in
theorem Pending.map_push (p : Pending α) (e : α) :
    (p.push continues e).map f = (p.map f).push continues' (f e) := by
  unfold Pending.push
  cases hp : p.pending with
  | none => simp [Pending.map, hp, Run.map]
  | some r =>
      by_cases hc : continues r.base r.repeats e = true
      · simp [Pending.map, hp, Run.map, h, hc]
      · simp [Pending.map, hp, Run.map, h, hc]

include h in
/-- A map that preserves the test commutes with the segmentation. -/
theorem runs_map (es : List α) : runs continues' (es.map f) = (runs continues es).map (Run.map f) := by
  suffices hfold : ∀ p : Pending α,
      (es.map f).foldl (Pending.push continues') (p.map f) =
        (es.foldl (Pending.push continues) p).map f by
    have hempty : (Pending.empty : Pending β) = (Pending.empty : Pending α).map f := rfl
    unfold runs
    rw [hempty, hfold]
    simp [Pending.close, Pending.map, Option.toList_map]
  induction es with
  | nil => exact fun _ => rfl
  | cons e es ih =>
      intro p
      rw [List.map_cons, List.foldl_cons, List.foldl_cons, ← Pending.map_push h, ih]

end Map

end RunLength
