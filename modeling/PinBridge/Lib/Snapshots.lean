import Mathlib.Data.Finset.Card
import Mathlib.Data.List.Perm.Basic
import PinBridge.Lib.Transition

/-!
# Snapshots behind a pointer

One publisher replaces the immutable snapshot that a pointer names.  Readers
take no lock.  A reader first loads some words beside the pointer, its *gate*,
and one of these loads may already give the answer.  Otherwise it counts itself
in, loads the pointer, reads the snapshot and counts itself out.  The publisher
stores to the gate before and after it swaps the pointer.  Then it frees the old
snapshot.  Either it spins until it has seen that nobody is counted in, or it
retires the snapshot and frees all retired ones when it sees nobody.  It can
also adjust the gate alone.  That counts as a publication that has the snapshot
of the one before.

*Laws.*  `Laws` says what each publication answers, and that a load of the gate
which ends a read gives what the publication answers that the gate is about.
While the publisher stores to the gate, that is the old publication or the new
one.

*Safety.*  `Laws.Ok` is the invariant.  A snapshot that a reader holds is not
freed and no snapshot is freed twice (`ReadsPublished.held`, `ReadsPublished.once`).  These need no
guard.  A read answers as a publication of its window does, the one that had
returned when it began or a later one (`ReadsPublished.seen`), as long as every snapshot
that a reader loads answers so (`Laws.Exact`).
-/

namespace Snapshots

open Transition (run Always Guarded)

/-! ## Protocols -/

/-- A table that is published through a pointer. -/
structure Protocol where
  /-- What a snapshot holds. -/
  Content : Type
  /-- What a reader asks. -/
  Query : Type
  /-- What a reader is told. -/
  Answer : Type
  /-- The words beside the pointer. -/
  Gate : Type
  /-- The words at the start. -/
  gate : Gate
  /-- The loads a reader makes before it counts itself in. -/
  loads : Query → List (Gate → Option Answer)
  /-- The stores of a publication before the swap. -/
  before : Option Content → Content → List (Gate → Gate)
  /-- The stores of a publication after the swap. -/
  after : Content → List (Gate → Gate)
  /-- What the publisher can do to the gate alone. -/
  Adjustment : Type
  /-- What it makes of the last publication. -/
  adjusted : Option Content → Adjustment → Content
  /-- Its stores. -/
  adjust : Adjustment → List (Gate → Gate)
  /-- What a reader finds in the snapshot. -/
  lookup : Option Content → Query → Answer
  /-- The publisher waits until nobody is counted in. -/
  spins : Bool

variable (P : Protocol) (τ : Type*)

/-- Where a reader is.  It remembers how many publications had returned when it
began. -/
inductive ReaderPc where
  /-- Between two reads. -/
  | idle
  /-- It is going to make these loads. -/
  | gating (q : P.Query) (since : Nat) (loads : List (P.Gate → Option P.Answer))
  /-- It is counted in and is going to load the pointer. -/
  | loading (q : P.Query) (since : Nat)
  /-- It is going to read the snapshot. -/
  | reading (q : P.Query) (since i : Nat)
  /-- It has read the snapshot and is going to count itself out. -/
  | leaving (q : P.Query) (since i : Nat) (a : P.Answer)
  /-- It has its answer. -/
  | done (q : P.Query) (since : Nat) (a : P.Answer)

/-- Where the publisher is. -/
inductive PublisherPc where
  /-- Between two publications. -/
  | idle
  /-- It is going to make these stores and then to swap the pointer. -/
  | preparing (c : P.Content) (stores : List (P.Gate → P.Gate))
  /-- It has swapped the pointer and is going to make these stores. -/
  | finishing (old : Nat) (stores : List (P.Gate → P.Gate))
  /-- It is going to make these stores, and swaps no pointer. -/
  | adjusting (stores : List (P.Gate → P.Gate))
  /-- It has retired the old snapshot and is going to load the count. -/
  | testing
  /-- It loads the count until it is zero. -/
  | spinning (old : Nat)
  /-- It is going to free these snapshots. -/
  | freeing (rest : List Nat)

/-- The shared words, the snapshots and the parties. -/
structure State where
  /-- The snapshot the pointer names.  The null pointer is 0, and a snapshot has the number of the
  publication that made it. -/
  ptr : Nat
  /-- The last publication. -/
  last : Nat
  /-- What the publications hold. -/
  contents : Nat → Option P.Content
  /-- The snapshots that are retired. -/
  retired : List Nat
  /-- The snapshots that are freed. -/
  freed : List Nat
  /-- How many readers are counted in. -/
  readers : Nat
  /-- The words beside the pointer. -/
  gate : P.Gate
  /-- How many publications have returned. -/
  returned : Nat
  /-- The readers. -/
  threads : τ → ReaderPc P
  /-- The publisher. -/
  publisher : PublisherPc P

/-- What happens next. -/
inductive Action where
  /-- A reader begins. -/
  | read (t : τ) (q : P.Query)
  /-- A reader goes on. -/
  | reader (t : τ)
  /-- The publisher begins. -/
  | publish (c : P.Content)
  /-- The publisher begins to adjust the gate. -/
  | adjust (x : P.Adjustment)
  /-- The publisher goes on. -/
  | publisher

/-- Nothing is published. -/
def State.init : State P τ where
  ptr := 0
  last := 0
  contents _ := none
  retired := []
  freed := []
  readers := 0
  gate := P.gate
  returned := 0
  threads _ := .idle
  publisher := .idle

variable {P τ}

/-! ## Steps -/

/-- The publication returns. -/
def State.return (s : State P τ) : State P τ :=
  { s with returned := s.last, publisher := .idle }

/-- The next part of a publication. -/
def State.publisherStep (s : State P τ) : PublisherPc P → Option (State P τ)
  | .idle => none
  | .preparing c (store :: stores) =>
      some { s with gate := store s.gate, publisher := .preparing c stores }
  | .preparing c [] =>
      some { s with
        ptr := s.last + 1
        last := s.last + 1
        contents := Function.update s.contents (s.last + 1) (some c)
        publisher := .finishing s.ptr (P.after c) }
  | .finishing old (store :: stores) =>
      some { s with gate := store s.gate, publisher := .finishing old stores }
  | .finishing old [] =>
      if P.spins then some { s with publisher := .spinning old }
      else if old = 0 then some s.return
      else some { s with retired := s.retired ++ [old], publisher := .testing }
  | .adjusting (store :: stores) =>
      some { s with gate := store s.gate, publisher := .adjusting stores }
  | .adjusting [] => some s.return
  | .testing =>
      if s.readers = 0 then some { s with retired := [], publisher := .freeing s.retired }
      else some s.return
  | .spinning old =>
      if s.readers = 0 then
        some { s with publisher := .freeing (if old = 0 then [] else [old]) }
      else some s
  | .freeing (i :: rest) => some { s with freed := i :: s.freed, publisher := .freeing rest }
  | .freeing [] => some s.return

section

variable [DecidableEq τ]

/-- A reader is at another place. -/
def State.goto (s : State P τ) (t : τ) (pc : ReaderPc P) : State P τ :=
  { s with threads := Function.update s.threads t pc }

/-- The next part of a read. -/
def State.readerStep (s : State P τ) (t : τ) : ReaderPc P → Option (State P τ)
  | .idle => none
  | .gating q since (load :: loads) =>
      match load s.gate with
      | some a => some (s.goto t (.done q since a))
      | none => some (s.goto t (.gating q since loads))
  | .gating q since [] => some { s.goto t (.loading q since) with readers := s.readers + 1 }
  | .loading q since => some (s.goto t (.reading q since s.ptr))
  | .reading q since i => some (s.goto t (.leaving q since i (P.lookup (s.contents i) q)))
  | .leaving q since _ a => some { s.goto t (.done q since a) with readers := s.readers - 1 }
  | .done .. => some (s.goto t .idle)

/-- One action. -/
def State.step (s : State P τ) : Action P τ → Option (State P τ)
  | .read t q =>
      match s.threads t with
      | .idle => some (s.goto t (.gating q s.returned (P.loads q)))
      | _ => none
  | .reader t => s.readerStep t (s.threads t)
  | .publish c =>
      match s.publisher with
      | .idle => some { s with publisher := .preparing c (P.before (s.contents s.last) c) }
      | _ => none
  | .adjust x =>
      match s.publisher with
      | .idle =>
          some { s with
            last := s.last + 1
            contents := Function.update s.contents (s.last + 1)
              (some (P.adjusted (s.contents s.last) x))
            publisher := .adjusting (P.adjust x) }
      | _ => none
  | .publisher => s.publisherStep s.publisher

end

/-! ## What a step publishes -/

/-- Nothing is published, and a publication that is being prepared was so
before. -/
def State.Idles (s s' : State P τ) : Prop :=
  s'.last = s.last ∧ s'.contents = s.contents ∧
    ∀ c stores, s'.publisher = .preparing c stores → ∃ stores', s.publisher = .preparing c stores'

/-- The next publication is `c`. -/
def State.Publishes (s s' : State P τ) (c : P.Content) : Prop :=
  s'.last = s.last + 1 ∧ s'.contents = Function.update s.contents (s.last + 1) (some c) ∧
    ∀ c' stores', s'.publisher ≠ .preparing c' stores'

/-- The publication that was being prepared is made. -/
def State.Swaps (s s' : State P τ) : Prop :=
  ∃ c stores, s.publisher = .preparing c stores ∧ s.Publishes s' c

variable {s s' : State P τ} {t : τ}

theorem State.publisherStep_history (hs' : s.publisherStep s.publisher = some s') :
    s.Idles s' ∨ s.Swaps s' := by
  cases hpc : s.publisher with
  | idle =>
      rw [hpc] at hs'
      cases hs'
  | preparing c stores =>
      rw [hpc] at hs'
      cases stores with
      | nil =>
          cases hs'
          exact .inr ⟨c, [], hpc, rfl, rfl, fun c' stores' h => by cases h⟩
      | cons store stores =>
          cases hs'
          exact .inl ⟨rfl, rfl, fun c' stores' h => by cases h; exact ⟨_, hpc⟩⟩
  | finishing old stores =>
      rw [hpc] at hs'
      cases stores with
      | nil =>
          rw [State.publisherStep] at hs'
          split at hs'
          · cases hs'
            exact .inl ⟨rfl, rfl, fun c' stores' h => by cases h⟩
          · split at hs' <;> cases hs' <;> exact .inl ⟨rfl, rfl, fun c' stores' h => by cases h⟩
      | cons store stores =>
          cases hs'
          exact .inl ⟨rfl, rfl, fun c' stores' h => by cases h⟩
  | adjusting stores =>
      rw [hpc] at hs'
      cases stores <;> cases hs' <;> exact .inl ⟨rfl, rfl, fun c' stores' h => by cases h⟩
  | testing =>
      rw [hpc, State.publisherStep] at hs'
      split at hs' <;> cases hs' <;> exact .inl ⟨rfl, rfl, fun c' stores' h => by cases h⟩
  | spinning old =>
      rw [hpc, State.publisherStep] at hs'
      split at hs'
      · cases hs'
        exact .inl ⟨rfl, rfl, fun c' stores' h => by cases h⟩
      · cases hs'
        exact .inl ⟨rfl, rfl, fun c' stores' h => ⟨stores', h⟩⟩
  | freeing rest =>
      rw [hpc] at hs'
      cases rest <;> cases hs' <;> exact .inl ⟨rfl, rfl, fun c' stores' h => by cases h⟩

section

variable [DecidableEq τ]

theorem State.readerStep_idles (hs' : s.readerStep t (s.threads t) = some s') : s.Idles s' := by
  cases hpc : s.threads t with
  | idle =>
      rw [hpc] at hs'
      cases hs'
  | gating q since loads =>
      rw [hpc] at hs'
      cases loads with
      | nil =>
          cases hs'
          exact ⟨rfl, rfl, fun c stores h => ⟨stores, h⟩⟩
      | cons load loads =>
          rw [State.readerStep] at hs'
          split at hs' <;> cases hs' <;> exact ⟨rfl, rfl, fun c stores h => ⟨stores, h⟩⟩
  | _ =>
      rw [hpc] at hs'
      cases hs'
      exact ⟨rfl, rfl, fun c stores h => ⟨stores, h⟩⟩

/-- What one action publishes. -/
theorem State.step_history {a : Action P τ} (hs' : s.step a = some s') :
    s.Idles s' ∨ s.Swaps s' ∨ (∃ x, s.Publishes s' (P.adjusted (s.contents s.last) x)) ∨
      ∃ c stores, a = .publish c ∧ s'.last = s.last ∧ s'.contents = s.contents ∧
        s'.publisher = .preparing c stores := by
  cases a with
  | read t q =>
      rw [State.step] at hs'
      split at hs' <;> cases hs'
      exact .inl ⟨rfl, rfl, fun c stores h => ⟨stores, h⟩⟩
  | reader t => exact .inl (State.readerStep_idles hs')
  | publish c =>
      rw [State.step] at hs'
      split at hs' <;> cases hs'
      exact .inr (.inr (.inr ⟨c, _, rfl, rfl, rfl, rfl⟩))
  | adjust x =>
      rw [State.step] at hs'
      split at hs' <;> cases hs'
      exact .inr (.inr (.inl ⟨x, rfl, rfl, fun c' stores' h => by cases h⟩))
  | publisher => exact (State.publisherStep_history hs').imp_right .inl

end

/-! ## Laws -/

/-- What the publications answer and how the gate follows them. -/
structure Laws (P : Protocol) where
  /-- What a publication answers. -/
  answer : Option P.Content → P.Query → P.Answer
  /-- The gate of this publication lets a reader through. -/
  Open : Option P.Content → P.Query → Prop
  /-- The gate is that of a publication. -/
  Fits : P.Gate → Option P.Content → Prop
  /-- These stores are left before the swap. -/
  Preparing : P.Gate → Option P.Content → P.Content → List (P.Gate → P.Gate) → Prop
  /-- These stores are left after the swap, or of an adjustment. -/
  Finishing : P.Gate → Option P.Content → P.Content → List (P.Gate → P.Gate) → Prop
  fits_gate : Fits P.gate none
  preparing_before : ∀ {g old c}, Fits g old → Preparing g old c (P.before old c)
  preparing_store : ∀ {g old c store stores}, Preparing g old c (store :: stores) →
    Preparing (store g) old c stores
  finishing_after : ∀ {g old c}, Preparing g old c [] → Finishing g old c (P.after c)
  finishing_adjust : ∀ {g old x}, Fits g old → Finishing g old (P.adjusted old x) (P.adjust x)
  finishing_store : ∀ {g old c store stores}, Finishing g old c (store :: stores) →
    Finishing (store g) old c stores
  fits_of_finishing : ∀ {g old c}, Finishing g old c [] → Fits g (some c)
  /-- A load that ends a read answers as the publication does. -/
  early_fits : ∀ {g old q load a}, Fits g old → load ∈ P.loads q → load g = some a →
    answer old q = a
  early_preparing : ∀ {g old c stores q load a}, Preparing g old c stores → load ∈ P.loads q →
    load g = some a → answer old q = a
  early_finishing : ∀ {g old c stores q load a}, Finishing g old c stores → load ∈ P.loads q →
    load g = some a → answer old q = a ∨ answer (some c) q = a
  /-- The last load goes on when the gate is open. -/
  open_fits : ∀ {g old q load}, Fits g old → (P.loads q).getLast? = some load →
    load g = none → Open old q
  open_preparing : ∀ {g old c stores q load}, Preparing g old c stores →
    (P.loads q).getLast? = some load → load g = none → Open old q
  open_finishing : ∀ {g old c stores q load}, Finishing g old c stores →
    (P.loads q).getLast? = some load → load g = none → Open old q ∨ Open (some c) q
  open_of_nil : ∀ {old q}, P.loads q = [] → Open old q
  /-- An adjustment has the snapshot of the publication before. -/
  lookup_adjusted : ∀ {old x q}, P.lookup (some (P.adjusted old x)) q = P.lookup old q

/-! ## What holds -/

/-- The reader is counted in. -/
def ReaderPc.inside : ReaderPc P → Bool
  | .loading .. | .reading .. | .leaving .. => true
  | _ => false

/-- The snapshot a reader holds. -/
def ReaderPc.held : ReaderPc P → Option Nat
  | .reading _ _ i | .leaving _ _ i _ => some i
  | _ => none

/-- A publication that was current since then answers so. -/
def Laws.Seen (L : Laws P) (s : State P τ) (q : P.Query) (since : Nat) (a : P.Answer) : Prop :=
  ∃ k, since ≤ k ∧ k ≤ s.last ∧ L.answer (s.contents k) q = a

/-- Readers hold snapshots that are not freed and answer as publications do. -/
structure Laws.ReadsPublished (L : Laws P) (s : State P τ) : Prop where
  /-- A snapshot that a reader holds is not freed. -/
  held : ∀ t i, (s.threads t).held = some i → i ∉ s.freed
  /-- No snapshot is freed twice. -/
  once : s.freed.Nodup
  /-- A read answers as a publication of its window does. -/
  seen : ∀ t q since a, s.threads t = .done q since a → L.Seen s q since a

/-- The snapshot that a reader loads answers as a publication of its window
does. -/
def Laws.Exact (L : Laws P) (s : State P τ) : Action P τ → Prop
  | .reader t => ∀ q since, s.threads t = .loading q since →
      L.Seen s q since (P.lookup (s.contents s.ptr) q)
  | _ => True

/-! ## The invariant -/

variable (L : Laws P)

/-- The gate of a publication of the window lets a reader through. -/
def Laws.Through (s : State P τ) (q : P.Query) (since : Nat) : Prop :=
  ∃ k, since ≤ k ∧ k ≤ s.last ∧ L.Open (s.contents k) q

/-- What a reader knows. -/
def Laws.Knows (s : State P τ) : ReaderPc P → Prop
  | .idle => True
  | .gating q since loads =>
      since ≤ s.returned ∧ loads <:+ P.loads q ∧ (loads = [] → L.Through s q since)
  | .loading q since => since ≤ s.returned ∧ L.Through s q since
  | .reading q since i => i ≤ s.last ∧ L.Seen s q since (P.lookup (s.contents i) q)
  | .leaving q since i a => i ≤ s.last ∧ L.Seen s q since a
  | .done q since a => L.Seen s q since a

/-- The gate is where the publisher is. -/
def Laws.Gated (s : State P τ) : PublisherPc P → Prop
  | .preparing c stores =>
      s.returned = s.last ∧ L.Preparing s.gate (s.contents s.last) c stores
  | .finishing _ stores | .adjusting stores => s.returned + 1 = s.last ∧ ∃ c,
      s.contents s.last = some c ∧ L.Finishing s.gate (s.contents s.returned) c stores
  | .idle => s.returned = s.last ∧ L.Fits s.gate (s.contents s.last)
  | .testing | .spinning _ | .freeing _ =>
      s.returned + 1 = s.last ∧ L.Fits s.gate (s.contents s.last)

/-- The old snapshots that the publisher has in hand. -/
def PublisherPc.pending : PublisherPc P → List Nat
  | .finishing old _ | .spinning old => [old]
  | .freeing rest => rest
  | _ => []

/-- The snapshots the publisher is going to free. -/
def PublisherPc.doomed : PublisherPc P → List Nat
  | .freeing rest => rest
  | _ => []

/-- The snapshots that are no longer current. -/
def State.past (s : State P τ) : List Nat := s.publisher.pending ++ s.retired ++ s.freed

/-- What holds while every snapshot that is loaded answers exactly. -/
structure Laws.Ok (s : State P τ) : Prop where
  /-- The count is the number of readers inside. -/
  counted : ∃ inside : Finset τ, (∀ t, t ∈ inside ↔ (s.threads t).inside = true) ∧
    inside.card = s.readers
  /-- The gate follows the publisher. -/
  gated : L.Gated s s.publisher
  /-- A snapshot is retired once. -/
  nodup : s.past.Nodup
  /-- The current snapshot is not retired. -/
  past_lt : ∀ i ∈ s.past, i < s.ptr
  /-- The current snapshot is not newer than the last publication. -/
  ptr_le : s.ptr ≤ s.last
  /-- The current snapshot is that of the last publication. -/
  shown : ∀ q, P.lookup (s.contents s.ptr) q = P.lookup (s.contents s.last) q
  /-- Every reader knows its window. -/
  knows : ∀ t, L.Knows s (s.threads t)
  /-- A snapshot that a reader holds is neither freed nor about to be. -/
  kept : ∀ t i, (s.threads t).held = some i → i ∉ s.publisher.doomed ++ s.freed

variable {L}

theorem Laws.Ok.readsPublished (h : L.Ok s) : L.ReadsPublished s where
  held t i ht hi := h.kept t i ht (List.mem_append_right _ hi)
  once := (List.nodup_append.mp h.nodup).2.1
  seen t q since a ht := by
    have hknows := h.knows t
    rwa [ht] at hknows

theorem Laws.ok_init : L.Ok (State.init P τ) where
  counted := ⟨∅, fun t => by simp [State.init, ReaderPc.inside], rfl⟩
  gated := ⟨rfl, L.fits_gate⟩
  nodup := List.nodup_nil
  past_lt i hi := by simp [State.past, State.init, PublisherPc.pending] at hi
  ptr_le := le_rfl
  shown _ := rfl
  knows _ := trivial
  kept t i ht := by cases ht

/-- At most one publication has not returned. -/
theorem Laws.Ok.returned_le (h : L.Ok s) : s.returned ≤ s.last := by
  have hgated := h.gated
  cases hpc : s.publisher <;> rw [hpc] at hgated
  case idle => exact hgated.1.le
  case preparing => exact hgated.1.le
  all_goals
    obtain ⟨hlast, -⟩ := hgated
    omega

/-! ## Readers -/

theorem Laws.Seen.mono {q : P.Query} {since : Nat} {a : P.Answer} (h : L.Seen s q since a)
    (hlast : s.last ≤ s'.last) (hcontents : ∀ k ≤ s.last, s'.contents k = s.contents k) :
    L.Seen s' q since a := by
  obtain ⟨k, hsince, hk, ha⟩ := h
  exact ⟨k, hsince, hk.trans hlast, by rwa [hcontents k hk]⟩

theorem Laws.Through.mono {q : P.Query} {since : Nat} (h : L.Through s q since)
    (hlast : s.last ≤ s'.last) (hcontents : ∀ k ≤ s.last, s'.contents k = s.contents k) :
    L.Through s' q since := by
  obtain ⟨k, hsince, hk, ha⟩ := h
  exact ⟨k, hsince, hk.trans hlast, by rwa [hcontents k hk]⟩

/-- A reader goes on knowing what it knows. -/
theorem Laws.Knows.mono {pc : ReaderPc P} (h : L.Knows s pc) (hreturned : s.returned ≤ s'.returned)
    (hlast : s.last ≤ s'.last) (hcontents : ∀ k ≤ s.last, s'.contents k = s.contents k) :
    L.Knows s' pc := by
  cases pc with
  | idle => trivial
  | gating q since loads =>
      exact ⟨h.1.trans hreturned, h.2.1, fun hnil => (h.2.2 hnil).mono hlast hcontents⟩
  | loading q since => exact ⟨h.1.trans hreturned, h.2.mono hlast hcontents⟩
  | reading q since i =>
      refine ⟨h.1.trans hlast, ?_⟩
      rw [hcontents i h.1]
      exact h.2.mono hlast hcontents
  | leaving q since i a => exact ⟨h.1.trans hlast, h.2.mono hlast hcontents⟩
  | done q since a => exact Laws.Seen.mono h hlast hcontents

/-- The publications that a gate is about. -/
theorem Laws.Ok.explained (h : L.Ok s) {q : P.Query} {since : Nat} (hsince : since ≤ s.returned)
    {load : P.Gate → Option P.Answer} (hload : load ∈ P.loads q) {a : P.Answer}
    (ha : load s.gate = some a) : L.Seen s q since a := by
  have hgated := h.gated
  cases hpc : s.publisher <;> rw [hpc] at hgated
  case idle =>
      exact ⟨s.last, hgated.1 ▸ hsince, le_refl _, L.early_fits hgated.2 hload ha⟩
  case preparing c stores =>
      exact ⟨s.last, hgated.1 ▸ hsince, le_refl _, L.early_preparing hgated.2 hload ha⟩
  case finishing | adjusting =>
      obtain ⟨hlast, c, hc, hfinishing⟩ := hgated
      obtain hold | hnew := L.early_finishing hfinishing hload ha
      · exact ⟨s.returned, hsince, by omega, hold⟩
      · exact ⟨s.last, by omega, le_refl _, hc ▸ hnew⟩
  all_goals
    obtain ⟨hlast, hfits⟩ := hgated
    exact ⟨s.last, by omega, le_refl _, L.early_fits hfits hload ha⟩

/-- The publications whose gate is open. -/
theorem Laws.Ok.through (h : L.Ok s) {q : P.Query} {since : Nat} (hsince : since ≤ s.returned)
    {load : P.Gate → Option P.Answer} (hload : (P.loads q).getLast? = some load)
    (ha : load s.gate = none) : L.Through s q since := by
  have hgated := h.gated
  cases hpc : s.publisher <;> rw [hpc] at hgated
  case idle =>
      exact ⟨s.last, hgated.1 ▸ hsince, le_refl _, L.open_fits hgated.2 hload ha⟩
  case preparing c stores =>
      exact ⟨s.last, hgated.1 ▸ hsince, le_refl _, L.open_preparing hgated.2 hload ha⟩
  case finishing | adjusting =>
      obtain ⟨hlast, c, hc, hfinishing⟩ := hgated
      obtain hold | hnew := L.open_finishing hfinishing hload ha
      · exact ⟨s.returned, hsince, by omega, hold⟩
      · exact ⟨s.last, by omega, le_refl _, hc ▸ hnew⟩
  all_goals
    obtain ⟨hlast, hfits⟩ := hgated
    exact ⟨s.last, by omega, le_refl _, L.open_fits hfits hload ha⟩

/-- The current snapshot is not freed. -/
theorem Laws.Ok.ptr_kept (h : L.Ok s) : s.ptr ∉ s.publisher.doomed ++ s.freed := by
  intro hptr
  refine lt_irrefl s.ptr (h.past_lt s.ptr ?_)
  rw [State.past, List.append_assoc, List.mem_append, List.mem_append]
  obtain hdoomed | hfreed := List.mem_append.mp hptr
  · refine .inl ?_
    cases hpc : s.publisher <;> rw [hpc] at hdoomed
    case freeing rest => exact hdoomed
    all_goals cases hdoomed
  · exact .inr (.inr hfreed)

section

variable [DecidableEq τ]

/-- The count moves with a reader that goes in or out. -/
theorem counted_update {threads : τ → ReaderPc P} {n m : Nat} {pc : ReaderPc P}
    (h : ∃ inside : Finset τ, (∀ u, u ∈ inside ↔ (threads u).inside = true) ∧ inside.card = n)
    (hm : m + (threads t).inside.toNat = n + pc.inside.toNat) :
    ∃ inside : Finset τ, (∀ u, u ∈ inside ↔ (Function.update threads t pc u).inside = true) ∧
      inside.card = m := by
  obtain ⟨inside, hinside, hcard⟩ := h
  have hother : ∀ u, u ≠ t → (u ∈ inside ↔ (Function.update threads t pc u).inside = true) :=
    fun u hu => by rw [Function.update_of_ne hu]; exact hinside u
  cases hpc : pc.inside with
  | true =>
      refine ⟨insert t inside, fun u => ?_, ?_⟩
      · rcases eq_or_ne u t with rfl | hu
        · simp [hpc]
        · rw [Finset.mem_insert, or_iff_right hu]
          exact hother u hu
      · cases ht : (threads t).inside with
        | true =>
            rw [Finset.insert_eq_of_mem ((hinside t).mpr ht)]
            simp only [ht, hpc] at hm
            omega
        | false =>
            rw [Finset.card_insert_of_notMem (fun hmem => by simp [hinside, ht] at hmem)]
            simp only [ht, hpc, Bool.toNat_false, Bool.toNat_true] at hm
            omega
  | false =>
      refine ⟨inside.erase t, fun u => ?_, ?_⟩
      · rcases eq_or_ne u t with rfl | hu
        · simp [hpc]
        · rw [Finset.mem_erase, and_iff_right hu]
          exact hother u hu
      · cases ht : (threads t).inside with
        | true =>
            rw [Finset.card_erase_of_mem ((hinside t).mpr ht)]
            simp only [ht, hpc, Bool.toNat_false, Bool.toNat_true] at hm
            omega
        | false =>
            rw [Finset.erase_eq_of_notMem (fun hmem => by simp [hinside, ht] at hmem)]
            simp only [ht, hpc] at hm
            omega

/-- A reader goes on. -/
theorem Laws.Ok.goto (h : L.Ok s) {pc : ReaderPc P} {n : Nat}
    (hn : n + (s.threads t).inside.toNat = s.readers + pc.inside.toNat) (hknows : L.Knows s pc)
    (hheld : ∀ i, pc.held = some i → i ∉ s.publisher.doomed ++ s.freed) :
    L.Ok { s.goto t pc with readers := n } where
  counted := counted_update h.counted hn
  gated := by
    have hgated := h.gated
    show L.Gated _ s.publisher
    cases hpc : s.publisher <;> rw [hpc] at hgated <;> exact hgated
  nodup := h.nodup
  past_lt := h.past_lt
  ptr_le := h.ptr_le
  shown := h.shown
  knows u := by
    refine Laws.Knows.mono (s := s) ?_ le_rfl le_rfl fun _ _ => rfl
    show L.Knows s (Function.update s.threads t pc u)
    rcases eq_or_ne u t with rfl | hu
    · rwa [Function.update_self]
    · rw [Function.update_of_ne hu]
      exact h.knows u
  kept u i hu := by
    rcases eq_or_ne u t with rfl | hne
    · exact hheld i (by simpa [State.goto] using hu)
    · exact h.kept u i (by simpa [State.goto, Function.update_of_ne hne] using hu)

theorem Laws.Ok.readerStep (h : L.Ok s) (hexact : L.Exact s (.reader t))
    (hs' : s.readerStep t (s.threads t) = some s') : L.Ok s' := by
  have hknows := h.knows t
  have hkept := h.kept t
  cases hpc : s.threads t with
  | idle =>
      rw [hpc] at hs'
      cases hs'
  | gating q since loads =>
      rw [hpc] at hs' hknows
      obtain ⟨hsince, hsuffix, hnil⟩ := hknows
      cases loads with
      | nil =>
          cases hs'
          exact h.goto (by simp [hpc, ReaderPc.inside]) ⟨hsince, hnil rfl⟩ (fun i hi => by cases hi)
      | cons load loads =>
          have hload : load ∈ P.loads q := hsuffix.mem (List.mem_cons_self ..)
          rw [State.readerStep] at hs'
          split at hs'
          next a ha =>
            cases hs'
            exact h.goto (by simp [hpc, ReaderPc.inside]) (h.explained hsince hload ha)
              (fun i hi => by cases hi)
          next ha =>
            cases hs'
            refine h.goto (by simp [hpc, ReaderPc.inside])
              ⟨hsince, (List.suffix_cons load loads).trans hsuffix, fun hlast => ?_⟩
              (fun i hi => by cases hi)
            refine h.through hsince ?_ ha
            obtain ⟨front, hfront⟩ := hsuffix
            rw [← hfront, hlast]
            simp
  | loading q since =>
      rw [hpc] at hs' hknows
      cases hs'
      refine h.goto (by simp [hpc, ReaderPc.inside]) ⟨h.ptr_le, hexact q since hpc⟩ fun i hi => ?_
      cases hi
      exact h.ptr_kept
  | reading q since i =>
      rw [hpc] at hs' hknows hkept
      cases hs'
      exact h.goto (by simp [hpc, ReaderPc.inside]) hknows (fun j hj => hkept j hj)
  | leaving q since i a =>
      rw [hpc] at hs' hknows
      cases hs'
      refine h.goto ?_ hknows.2 (fun i hi => by cases hi)
      obtain ⟨inside, hinside, hcard⟩ := h.counted
      have hpos : 0 < inside.card := Finset.card_pos.mpr ⟨t, (hinside t).mpr (by rw [hpc]; rfl)⟩
      simp only [hpc, ReaderPc.inside, Bool.toNat_true, Bool.toNat_false]
      omega
  | done q since a =>
      rw [hpc] at hs'
      cases hs'
      exact h.goto (by simp [hpc, ReaderPc.inside]) trivial (fun i hi => by cases hi)

end

/-! ## The publisher -/

/-- Nobody is counted in. -/
theorem Laws.Ok.held_of_readers (h : L.Ok s) (hreaders : s.readers = 0) (u : τ) :
    (s.threads u).held = none := by
  obtain ⟨inside, hinside, hcard⟩ := h.counted
  rw [hreaders, Finset.card_eq_zero] at hcard
  have houtside : (s.threads u).inside ≠ true := by simp [← hinside, hcard]
  cases hpc : s.threads u <;> simp [hpc, ReaderPc.inside, ReaderPc.held] at houtside ⊢

/-- The publisher goes on. -/
theorem Laws.Ok.publishes (h : L.Ok s) {pc : PublisherPc P} {g : P.Gate} {n : Nat}
    {retired freed : List Nat} (hn : s.returned ≤ n)
    (hgated : L.Gated { s with gate := g, returned := n, publisher := pc } pc)
    (hpast : (pc.pending ++ retired ++ freed).Subperm s.past)
    (hkept : ∀ t i, (s.threads t).held = some i → i ∉ pc.doomed ++ freed) :
    L.Ok { s with
      gate := g, returned := n, retired := retired, freed := freed, publisher := pc } where
  counted := h.counted
  gated := by
    show L.Gated _ pc
    cases pc <;> exact hgated
  nodup := by
    obtain ⟨past, hperm, hsub⟩ := hpast
    exact hperm.nodup_iff.mp (h.nodup.sublist hsub)
  past_lt i hi := h.past_lt i (hpast.subset hi)
  ptr_le := h.ptr_le
  shown := h.shown
  knows u := (h.knows u).mono hn le_rfl fun _ _ => rfl
  kept := hkept

/-- What was published stays. -/
theorem State.contents_update (s : State P τ) (c : P.Content) {k : Nat} (hk : k ≤ s.last) :
    Function.update s.contents (s.last + 1) (some c) k = s.contents k :=
  Function.update_of_ne (by omega) ..

/-- The publisher swaps the pointer. -/
theorem Laws.Ok.swap (h : L.Ok s) {c : P.Content} (hpc : s.publisher = .preparing c []) :
    L.Ok { s with
      ptr := s.last + 1
      last := s.last + 1
      contents := Function.update s.contents (s.last + 1) (some c)
      publisher := .finishing s.ptr (P.after c) } := by
  obtain ⟨hreturned, hpreparing⟩ : s.returned = s.last ∧
      L.Preparing s.gate (s.contents s.last) c [] := by
    have hgated := h.gated
    rwa [hpc] at hgated
  have hpast : s.past = s.retired ++ s.freed := by rw [State.past, hpc]; rfl
  have hptr := h.ptr_le
  exact {
    counted := h.counted
    gated := by
      refine ⟨congrArg (· + 1) hreturned, c, Function.update_self .., ?_⟩
      show L.Finishing s.gate (Function.update s.contents (s.last + 1) (some c) s.returned) c
        (P.after c)
      rw [s.contents_update c hreturned.le, hreturned]
      exact L.finishing_after hpreparing
    nodup := by
      have hnodup := h.nodup
      have hlt := h.past_lt
      rw [hpast] at hnodup hlt
      exact List.nodup_cons.mpr ⟨fun hmem => lt_irrefl _ (hlt _ hmem), hnodup⟩
    past_lt i hi := by
      have hlt := h.past_lt
      rw [hpast] at hlt
      show i < s.last + 1
      obtain rfl | hi := List.mem_cons.mp hi
      · exact Nat.lt_succ_of_le hptr
      · exact (hlt i hi).trans (Nat.lt_succ_of_le hptr)
    ptr_le := le_rfl
    shown _ := rfl
    knows u := (h.knows u).mono le_rfl (Nat.le_succ _) fun _ hk => s.contents_update c hk
    kept u i hu hi := h.kept u i hu (List.mem_append_right _ hi) }

/-- The publisher begins to adjust the gate. -/
theorem Laws.Ok.adjust (h : L.Ok s) (hpc : s.publisher = .idle) (x : P.Adjustment) :
    L.Ok { s with
      last := s.last + 1
      contents := Function.update s.contents (s.last + 1) (some (P.adjusted (s.contents s.last) x))
      publisher := .adjusting (P.adjust x) } := by
  obtain ⟨hreturned, hfits⟩ : s.returned = s.last ∧ L.Fits s.gate (s.contents s.last) := by
    have hgated := h.gated
    rwa [hpc] at hgated
  have hpast : s.past = s.retired ++ s.freed := by rw [State.past, hpc]; rfl
  exact {
    counted := h.counted
    gated := by
      refine ⟨congrArg (· + 1) hreturned, _, Function.update_self .., ?_⟩
      show L.Finishing s.gate (Function.update s.contents (s.last + 1) _ s.returned) _ (P.adjust x)
      rw [s.contents_update _ hreturned.le, hreturned]
      exact L.finishing_adjust hfits
    nodup := by
      have hnodup := h.nodup
      rwa [hpast] at hnodup
    past_lt i hi := by
      have hlt := h.past_lt
      rw [hpast] at hlt
      exact hlt i hi
    ptr_le := h.ptr_le.trans (Nat.le_succ _)
    shown q := by
      show P.lookup (Function.update s.contents (s.last + 1) _ s.ptr) q =
        P.lookup (Function.update s.contents (s.last + 1) _ (s.last + 1)) q
      rw [s.contents_update _ h.ptr_le, Function.update_self, L.lookup_adjusted]
      exact h.shown q
    knows u := (h.knows u).mono le_rfl (Nat.le_succ _) fun _ hk => s.contents_update _ hk
    kept u i hu hi := h.kept u i hu (List.mem_append_right _ hi) }

/-- The publication returns. -/
theorem Laws.Ok.return (h : L.Ok s) (hgated : L.Fits s.gate (s.contents s.last)) :
    L.Ok s.return := by
  refine h.publishes h.returned_le ⟨rfl, hgated⟩ ?_ (fun u i hu hi => h.kept u i hu ?_)
  · rw [State.past, List.append_assoc s.publisher.pending]
    exact (List.sublist_append_right _ (s.retired ++ s.freed)).subperm
  · exact List.mem_append_right _ hi

theorem Laws.Ok.publisherStep (h : L.Ok s) (hs' : s.publisherStep s.publisher = some s') :
    L.Ok s' := by
  have hgated := h.gated
  have hkept : ∀ u i, (s.threads u).held = some i → i ∉ s.freed := fun u i hu hi =>
    h.kept u i hu (List.mem_append_right _ hi)
  cases hpc : s.publisher with
  | idle =>
      rw [hpc] at hs'
      cases hs'
  | preparing c stores =>
      rw [hpc] at hs' hgated
      cases stores with
      | nil =>
          cases hs'
          exact h.swap hpc
      | cons store stores =>
          cases hs'
          exact h.publishes le_rfl ⟨hgated.1, L.preparing_store hgated.2⟩
            (by rw [State.past, hpc]; rfl) hkept
  | finishing old stores =>
      rw [hpc] at hs' hgated
      obtain ⟨hlast, c, hc, hfinishing⟩ := hgated
      cases stores with
      | nil =>
          have hfits : L.Fits s.gate (s.contents s.last) := hc ▸ L.fits_of_finishing hfinishing
          rw [State.publisherStep] at hs'
          split at hs'
          · cases hs'
            exact h.publishes le_rfl ⟨hlast, hfits⟩ (by rw [State.past, hpc]; rfl) hkept
          · split at hs'
            · cases hs'
              exact h.return hfits
            · cases hs'
              refine h.publishes le_rfl ⟨hlast, hfits⟩ ?_ hkept
              rw [State.past, hpc]
              show (s.retired ++ [old] ++ s.freed).Subperm ([old] ++ s.retired ++ s.freed)
              exact (List.perm_append_comm.append_right _).subperm
      | cons store stores =>
          cases hs'
          exact h.publishes le_rfl ⟨hlast, c, hc, L.finishing_store hfinishing⟩
            (by rw [State.past, hpc]; rfl) hkept
  | adjusting stores =>
      rw [hpc] at hs' hgated
      obtain ⟨hlast, c, hc, hfinishing⟩ := hgated
      cases stores with
      | nil =>
          cases hs'
          exact h.return (hc ▸ L.fits_of_finishing hfinishing)
      | cons store stores =>
          cases hs'
          exact h.publishes le_rfl ⟨hlast, c, hc, L.finishing_store hfinishing⟩
            (by rw [State.past, hpc]; rfl) hkept
  | testing =>
      rw [hpc] at hs' hgated
      rw [State.publisherStep] at hs'
      split at hs'
      next hreaders =>
        cases hs'
        refine h.publishes le_rfl hgated ?_ fun u i hu => ?_
        · rw [State.past, hpc]
          simp only [PublisherPc.pending, List.nil_append, List.append_nil]
          rfl
        · rw [h.held_of_readers hreaders u] at hu
          cases hu
      next =>
        cases hs'
        exact h.return hgated.2
  | spinning old =>
      rw [hpc] at hs' hgated
      rw [State.publisherStep] at hs'
      split at hs'
      next hreaders =>
        cases hs'
        refine h.publishes le_rfl hgated ?_ fun u i hu => ?_
        · rw [State.past, hpc]
          split
          · exact (List.sublist_append_right [old] _).subperm
          · rfl
        · rw [h.held_of_readers hreaders u] at hu
          cases hu
      next =>
        cases hs'
        exact h
  | freeing rest =>
      rw [hpc] at hs' hgated
      cases rest with
      | nil =>
          cases hs'
          exact h.return hgated.2
      | cons i rest =>
          cases hs'
          refine h.publishes le_rfl hgated ?_ fun u j hu hj => h.kept u j hu ?_
          · rw [State.past, hpc]
            show (rest ++ s.retired ++ i :: s.freed).Subperm (i :: rest ++ s.retired ++ s.freed)
            exact List.perm_middle.subperm
          · rw [hpc]
            show j ∈ i :: rest ++ s.freed
            exact List.perm_middle.subset hj

/-! ## Runs -/

variable [DecidableEq τ]

theorem Laws.Ok.step (h : L.Ok s) {a : Action P τ} (hexact : L.Exact s a)
    (hs' : s.step a = some s') : L.Ok s' := by
  cases a with
  | read t q =>
      rw [State.step] at hs'
      split at hs'
      next hpc =>
        cases hs'
        refine h.goto (by simp [hpc, ReaderPc.inside])
          ⟨le_rfl, List.suffix_rfl, fun hnil => ?_⟩ (fun i hi => by cases hi)
        exact ⟨s.last, h.returned_le, le_rfl, L.open_of_nil hnil⟩
      next => cases hs'
  | reader t => exact h.readerStep hexact hs'
  | publish c =>
      rw [State.step] at hs'
      split at hs'
      next hpc =>
        cases hs'
        have hgated := h.gated
        rw [hpc] at hgated
        exact h.publishes le_rfl ⟨hgated.1, L.preparing_before hgated.2⟩
          (by rw [State.past, hpc]; rfl)
          (fun u i hu hi => h.kept u i hu (List.mem_append_right _ hi))
      next => cases hs'
  | adjust x =>
      rw [State.step] at hs'
      split at hs'
      next hpc =>
        cases hs'
        exact h.adjust hpc x
      next => cases hs'
  | publisher => exact h.publisherStep hs'

omit [DecidableEq τ] in
/-- Whatever a reader that came through the gate loads is exact. -/
theorem Laws.Ok.exact (h : L.Ok s)
    (hload : ∀ q since, since ≤ s.last → L.Through s q since →
      L.Seen s q since (P.lookup (s.contents s.last) q)) (a : Action P τ) : L.Exact s a := by
  cases a with
  | reader t =>
      intro q since hpc
      have hknows := h.knows t
      rw [hpc] at hknows
      rw [h.shown]
      exact hload q since (hknows.1.trans h.returned_le) hknows.2
  | read t q => trivial
  | publish c => trivial
  | adjust x => trivial
  | publisher => trivial

omit [DecidableEq τ] in
/-- A snapshot that tells what its publication answers is exact. -/
theorem Laws.Ok.exact_of_lookup (h : L.Ok s) (hlookup : ∀ c q, P.lookup c q = L.answer c q)
    (a : Action P τ) : L.Exact s a :=
  h.exact (fun q _ hsince _ => ⟨s.last, hsince, le_rfl, (hlookup _ q).symm⟩) a

end Snapshots
