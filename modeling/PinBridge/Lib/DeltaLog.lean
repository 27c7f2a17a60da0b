import Mathlib.Data.List.Induction

/-!
# Logs of full and delta entries that may be lost

A writer captures the content of a table again and again.  It writes an entry in full or
only what has changed since the last entry that it knows to be complete.  A reader replays
the complete entries and skips the others.

`Chained` is what the writer has to keep: a delta is taken against the last complete
entry.  Then the replayed content is the captured one (`replay_eq_content`), whatever is
lost, and a complete entry writes every key whose value is new (`Follows.changes_of_ne`).
-/

namespace DeltaLog

/-- An entry of the log. -/
structure Entry (κ ν : Type*) where
  /-- What was captured. -/
  content : κ → Option ν
  /-- Written in full. -/
  full : Bool
  /-- What was written. -/
  changes : κ → Option ν
  /-- Nothing of the entry was lost. -/
  complete : Bool

variable {κ ν : Type*}

/-- The reader's table after an entry. -/
def replayEntry (table : κ → Option ν) (e : Entry κ ν) : κ → Option ν :=
  if e.complete then fun k => (e.changes k).or (if e.full then none else table k) else table

/-- The reader's table after a list of entries. -/
def replay (table : κ → Option ν) (es : List (Entry κ ν)) : κ → Option ν :=
  es.foldl replayEntry table

/-- The last complete entry. -/
def lastComplete (es : List (Entry κ ν)) : Option (Entry κ ν) :=
  (es.filter (·.complete)).getLast?

@[simp] theorem lastComplete_nil : lastComplete ([] : List (Entry κ ν)) = none := rfl

theorem lastComplete_concat (es : List (Entry κ ν)) (e : Entry κ ν) :
    lastComplete (es ++ [e]) = if e.complete then some e else lastComplete es := by
  unfold lastComplete
  rw [List.filter_append]
  by_cases h : e.complete <;> simp [h]

/-- The entry is written against the entry `prev`. -/
structure Follows (prev : Option (Entry κ ν)) (e : Entry κ ν) : Prop where
  full : e.full = true → ∀ k, e.changes k = e.content k
  delta : e.full = false → ∃ p, prev = some p ∧
    ∀ k, e.content k = (e.changes k).or (p.content k)

/-- Every entry is written against the last complete one before it. -/
inductive Chained : List (Entry κ ν) → Prop
  | nil : Chained []
  | concat {es : List (Entry κ ν)} {e : Entry κ ν} :
      Chained es → Follows (lastComplete es) e → Chained (es ++ [e])

theorem Chained.left {es fs : List (Entry κ ν)} (h : Chained (es ++ fs)) : Chained es := by
  induction fs using List.reverseRecOn with
  | nil => rwa [List.append_nil] at h
  | append_singleton fs f ih =>
      rw [← List.append_assoc] at h
      generalize hgs : es ++ fs ++ [f] = gs at h
      cases h with
      | nil => simp at hgs
      | concat h _ =>
          obtain ⟨hes, -⟩ := List.append_inj' hgs rfl
          exact ih (hes ▸ h)

theorem Chained.follows {es fs : List (Entry κ ν)} {e : Entry κ ν} (h : Chained (es ++ e :: fs)) :
    Follows (lastComplete es) e := by
  have h' : Chained (es ++ [e]) := by
    rw [List.append_cons] at h
    exact h.left
  generalize hgs : es ++ [e] = gs at h'
  cases h' with
  | nil => simp at hgs
  | concat _ hf =>
      obtain ⟨rfl, he⟩ := List.append_inj' hgs rfl
      cases he
      exact hf

/-- A complete entry restores its content. -/
theorem Follows.replayEntry_eq {prev : Option (Entry κ ν)} {e : Entry κ ν} (h : Follows prev e)
    (hcomplete : e.complete = true) {table : κ → Option ν}
    (htable : ∀ p, prev = some p → table = p.content) : replayEntry table e = e.content := by
  funext k
  rw [replayEntry, if_pos hcomplete]
  cases hfull : e.full with
  | true => rw [if_pos rfl, Option.or_none, h.full hfull k]
  | false =>
      obtain ⟨p, hp, hk⟩ := h.delta hfull
      rw [if_neg Bool.false_ne_true, htable p hp, hk k]

/-- The replayed table is the content of the last complete entry. -/
theorem replay_eq_content {es : List (Entry κ ν)} (h : Chained es) (table : κ → Option ν)
    {p : Entry κ ν} (hp : lastComplete es = some p) : replay table es = p.content := by
  induction h generalizing p with
  | nil => cases hp
  | @concat es e _ hf ih =>
      rw [lastComplete_concat] at hp
      rw [replay, List.foldl_append]
      change replayEntry (replay table es) e = p.content
      split at hp
      case isTrue hcomplete =>
        cases hp
        exact hf.replayEntry_eq hcomplete fun q hq => ih hq
      case isFalse hcomplete =>
        rw [replayEntry, if_neg hcomplete]
        exact ih hp

/-- A complete entry that follows a log restores its content after the log. -/
theorem replay_concat {es : List (Entry κ ν)} {e : Entry κ ν} (h : Chained es)
    (hf : Follows (lastComplete es) e) (hcomplete : e.complete = true) (table : κ → Option ν) :
    replayEntry (replay table es) e = e.content :=
  hf.replayEntry_eq hcomplete fun _ hp => replay_eq_content h table hp

/-- What is new against the last complete entry is written. -/
theorem Follows.changes_of_ne {prev : Option (Entry κ ν)} {e : Entry κ ν} (h : Follows prev e)
    {k : κ} {v : ν} (hk : e.content k = some v) (hne : (prev.bind (·.content k)) ≠ some v) :
    e.changes k = some v := by
  cases hfull : e.full with
  | true => rw [h.full hfull k, hk]
  | false =>
      obtain ⟨p, rfl, hcontent⟩ := h.delta hfull
      rw [hcontent k] at hk
      cases hchanges : e.changes k with
      | none =>
          rw [hchanges] at hk
          exact absurd hk hne
      | some w =>
          rw [hchanges] at hk
          exact hk

end DeltaLog
