import Mathlib.Data.Set.Basic
import Mathlib.Data.List.Count

/-!
# Handles that are used once

A ledger posts handles at places.  A handle is issued before it is posted, and
some handles may be used once only.  `calls` lists the uses.

A system withdraws a handle that may be used once after using it, and rarely at
the same instant: it first takes a copy of what is posted and uses the handles
of the copy.  Between the two it can post new handles and withdraw others.
`Sound.transact` is the rule for all of it.  It asks for two things.  Handles
are posted only when they are new (`Grows`), and a handle that may be used once
and was used in between was used once and is not posted any more.
-/

variable {π κ : Type*}

/-- What is posted, what was issued and what was used. -/
structure Ledger (π κ : Type*) where
  /-- The handle at a place, and whether it may be used once only. -/
  posted : π → Option (κ × Bool)
  /-- The handles issued so far. -/
  issued : Set κ
  /-- The ones that may be used once only. -/
  onces : Set κ
  /-- The uses. -/
  calls : List κ

namespace Ledger

/-- Only issued handles are posted. -/
structure Filed (L : Ledger π κ) : Prop where
  /-- A posted handle was issued. -/
  posted_issued : ∀ {x : π} {k : κ} {b : Bool}, L.posted x = some (k, b) → k ∈ L.issued
  /-- Handles for one use were issued. -/
  onces_issued : L.onces ⊆ L.issued

/-- A handle that may be used once is used once, and not while it is posted. -/
structure Sound [DecidableEq κ] (L : Ledger π κ) : Prop extends L.Filed where
  /-- A handle is posted at one place. -/
  unique : ∀ {x y : π} {k : κ} {b b' : Bool}, L.posted x = some (k, b) →
    L.posted y = some (k, b') → x = y
  /-- The handle knows whether it may be used once. -/
  posted_once : ∀ {x : π} {k : κ} {b : Bool}, L.posted x = some (k, b) → (b = true ↔ k ∈ L.onces)
  /-- Only issued handles are used. -/
  calls_issued : ∀ {k : κ}, k ∈ L.calls → k ∈ L.issued
  /-- A posted handle for one use is unused. -/
  unused : ∀ {x : π} {k : κ}, L.posted x = some (k, true) → L.calls.count k = 0
  /-- A handle for one use is used once. -/
  once : ∀ {k : κ}, k ∈ L.onces → L.calls.count k ≤ 1

/-- Handles are withdrawn, and new ones issued and posted. -/
structure Grows (L L' : Ledger π κ) : Prop where
  /-- A handle posted now was there before or is new. -/
  posted : ∀ {x : π} {k : κ} {b : Bool}, L'.posted x = some (k, b) →
    L.posted x = some (k, b) ∨ k ∉ L.issued ∧ k ∈ L'.issued ∧ (b = true ↔ k ∈ L'.onces)
  /-- A new handle is posted at one place. -/
  unique : ∀ {x y : π} {k : κ} {b b' : Bool}, k ∉ L.issued → L'.posted x = some (k, b) →
    L'.posted y = some (k, b') → x = y
  /-- The issued handles stay issued. -/
  issued : L.issued ⊆ L'.issued
  /-- The issued handles keep their kind. -/
  onces : ∀ {k : κ}, k ∈ L.issued → (k ∈ L'.onces ↔ k ∈ L.onces)
  /-- Handles for one use were issued. -/
  onces_issued : L'.onces ⊆ L'.issued

variable {L L' M : Ledger π κ}

theorem Filed.grows_refl (h : L.Filed) : L.Grows L where
  posted := .inl
  unique hk hx _ := absurd (h.posted_issued hx) hk
  issued := subset_rfl
  onces _ := Iff.rfl
  onces_issued := h.onces_issued

/-- What is posted after a change was issued. -/
theorem Grows.filed (h : L.Grows L') (hf : L.Filed) : L'.Filed where
  posted_issued hx := by
    rcases h.posted hx with hx | ⟨-, hissued, -⟩
    · exact h.issued (hf.posted_issued hx)
    · exact hissued
  onces_issued := h.onces_issued

theorem Grows.trans (h : L.Grows L') (h' : L'.Grows M) : L.Grows M where
  posted hx := by
    rcases h'.posted hx with hx | ⟨hnew, hissued, honce⟩
    · rcases h.posted hx with hx | ⟨hnew, hissued, honce⟩
      · exact .inl hx
      · exact .inr ⟨hnew, h'.issued hissued, honce.trans (h'.onces hissued).symm⟩
    · exact .inr ⟨fun hk => hnew (h.issued hk), hissued, honce⟩
  unique hk hx hy := by
    rcases h'.posted hx with hx' | ⟨hnew, -, -⟩
    · rcases h'.posted hy with hy' | ⟨hnew, -, -⟩
      · exact h.unique hk hx' hy'
      · rcases h.posted hx' with hx'' | ⟨-, hissued, -⟩
        · exact h'.unique hnew hx hy
        · exact absurd hissued hnew
    · exact h'.unique hnew hx hy
  issued := h.issued.trans h'.issued
  onces hk := (h'.onces (h.issued hk)).trans (h.onces hk)
  onces_issued := h'.onces_issued

/-- Withdraw handles afterwards. -/
theorem Grows.withdraw (h : L.Grows L') (hissued : M.issued = L'.issued)
    (honces : M.onces = L'.onces)
    (hposted : ∀ {x : π} {p : κ × Bool}, M.posted x = some p → L'.posted x = some p) :
    L.Grows M where
  posted hx := by
    rw [hissued, honces]
    exact h.posted (hposted hx)
  unique hk hx hy := h.unique hk (hposted hx) (hposted hy)
  issued := hissued ▸ h.issued
  onces hk := by
    rw [honces]
    exact h.onces hk
  onces_issued := by
    rw [honces, hissued]
    exact h.onces_issued

/-- A handle that was issued is where it was, if it is posted at all. -/
theorem Grows.posted_of_issued (h : L.Grows L') {x : π} {k : κ} {b : Bool}
    (hk : k ∈ L.issued) (hx : L'.posted x = some (k, b)) : L.posted x = some (k, b) :=
  (h.posted hx).resolve_right fun hnew => hnew.1 hk

variable [DecidableEq κ]

/-- Use handles, post and withdraw others, and withdraw the used ones. -/
theorem Sound.transact (h : L.Sound) (hg : L.Grows L')
    (hcalls : ∀ {k : κ}, k ∈ L'.calls → k ∈ L.issued)
    (hcount : ∀ {k : κ}, k ∈ L.onces → L'.calls.count k = L.calls.count k ∨
      L'.calls.count k ≤ 1 ∧ ∀ x b, L'.posted x ≠ some (k, b)) : L'.Sound := by
  have hnew : ∀ {k : κ}, k ∉ L.issued → L'.calls.count k = 0 := fun hk =>
    List.count_eq_zero.mpr fun hmem => hk (hcalls hmem)
  refine {
    hg.filed h.toFiled with
    unique := ?_, posted_once := ?_, calls_issued := fun hk => hg.issued (hcalls hk),
    unused := ?_, once := ?_ }
  · intro x y k b b' hx hy
    by_cases hk : k ∈ L.issued
    · exact h.unique (hg.posted_of_issued hk hx) (hg.posted_of_issued hk hy)
    · exact hg.unique hk hx hy
  · intro x k b hx
    rcases hg.posted hx with hx | ⟨-, -, honce⟩
    · exact (h.posted_once hx).trans (hg.onces (h.posted_issued hx)).symm
    · exact honce
  · intro x k hx
    by_cases hk : k ∈ L.issued
    · have hold := hg.posted_of_issued hk hx
      rcases hcount ((h.posted_once hold).mp rfl) with heq | ⟨-, hgone⟩
      · rw [heq]
        exact h.unused hold
      · exact absurd hx (hgone x true)
    · exact hnew hk
  · intro k hk
    by_cases hissued : k ∈ L.issued
    · have honce := (hg.onces hissued).mp hk
      rcases hcount honce with heq | ⟨hle, -⟩
      · rw [heq]
        exact h.once honce
      · exact hle
    · rw [hnew hissued]
      exact Nat.zero_le 1

/-- Post and withdraw handles without using any. -/
theorem Sound.grow (h : L.Sound) (hg : L.Grows L') (hcalls : L'.calls = L.calls) : L'.Sound :=
  h.transact hg (fun hk => h.calls_issued (hcalls ▸ hk)) fun _ => .inl (by rw [hcalls])

/-- Move the posted handles to other places. -/
theorem Sound.move (h : L.Sound) (f : π → π) (hissued : L'.issued = L.issued)
    (honces : L'.onces = L.onces) (hcalls : L'.calls = L.calls)
    (hposted : ∀ {x : π} {p : κ × Bool}, L'.posted x = some p → L.posted (f x) = some p)
    (hf : ∀ {x y : π} {p q : κ × Bool}, L'.posted x = some p → L'.posted y = some q →
      f x = f y → x = y) : L'.Sound where
  unique hx hy := hf hx hy (h.unique (hposted hx) (hposted hy))
  posted_issued hx := hissued ▸ h.posted_issued (hposted hx)
  posted_once hx := honces ▸ h.posted_once (hposted hx)
  onces_issued := by
    rw [honces, hissued]
    exact h.onces_issued
  calls_issued hk := by
    rw [hissued]
    exact h.calls_issued (hcalls ▸ hk)
  unused hx := by
    rw [hcalls]
    exact h.unused (hposted hx)
  once hk := by
    rw [hcalls]
    exact h.once (honces ▸ hk)

end Ledger
