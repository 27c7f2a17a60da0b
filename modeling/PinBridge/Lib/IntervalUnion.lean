import Mathlib.Data.List.Sort
import Mathlib.Order.MinMax

/-!
# Unions of half-open intervals

A list of intervals in any order is sorted by starts, and intervals that overlap or touch are
merged.  The result has the same points (`covers_coalesce`), and its intervals stand apart from each
other (`apart_coalesce`).  Lists that stand apart are equal when they have the same points
(`Apart.eq_of_covers`), so the result depends on the set of points alone.
-/

namespace IntervalUnion

variable {α : Type*} [LinearOrder α]

/-- A point is in one of the intervals. -/
def Covers (l : List (α × α)) (x : α) : Prop := ∃ r ∈ l, r.1 ≤ x ∧ x < r.2

/-- Nonempty intervals, each of which ends before the next one starts. -/
structure Apart (l : List (α × α)) : Prop where
  nonempty : ∀ r ∈ l, r.1 < r.2
  before : l.Pairwise fun a b => a.2 < b.1

@[simp] theorem not_covers_nil (x : α) : ¬ Covers [] x := by
  rintro ⟨r, hr, -⟩
  cases hr

@[simp] theorem covers_cons {r : α × α} {l : List (α × α)} {x : α} :
    Covers (r :: l) x ↔ (r.1 ≤ x ∧ x < r.2) ∨ Covers l x := by
  simp [Covers]

theorem covers_congr {l l' : List (α × α)} (h : ∀ r, r ∈ l ↔ r ∈ l') (x : α) :
    Covers l x ↔ Covers l' x := by
  simp only [Covers, h]

/-! ## Merging -/

/-- The next interval extends the last one, or follows it.  The last one is the first of the
list. -/
def absorb : List (α × α) → α × α → List (α × α)
  | [], r => [r]
  | last :: done, r =>
      if r.1 ≤ last.2 then (last.1, max last.2 r.2) :: done else r :: last :: done

/-- The lexicographic order of pairs. -/
def pairLe (a b : α × α) : Bool := a.1 < b.1 || (a.1 = b.1 && a.2 ≤ b.2)

/-- The intervals sorted and merged. -/
def coalesce (l : List (α × α)) : List (α × α) :=
  ((l.mergeSort pairLe).foldl absorb []).reverse

/-- What has been merged, the last interval first. -/
structure Merged (done : List (α × α)) : Prop where
  nonempty : ∀ r ∈ done, r.1 < r.2
  before : done.Pairwise fun b a => a.2 < b.1

variable {l l' done : List (α × α)} {r : α × α} {x : α}

theorem Merged.absorb (h : Merged done) (hr : r.1 < r.2) : Merged (absorb done r) := by
  cases done with
  | nil =>
      refine ⟨?_, List.pairwise_singleton ..⟩
      intro a ha
      rw [List.mem_singleton.mp ha]
      exact hr
  | cons last done =>
      have hlast := h.nonempty last List.mem_cons_self
      have hbefore := List.pairwise_cons.mp h.before
      rw [IntervalUnion.absorb]
      split
      next =>
        refine ⟨?_, List.pairwise_cons.mpr hbefore⟩
        intro a ha
        rcases List.mem_cons.mp ha with rfl | ha
        · exact lt_max_of_lt_left hlast
        · exact h.nonempty a (List.mem_cons_of_mem _ ha)
      next hapart =>
        rw [not_le] at hapart
        refine ⟨?_, List.pairwise_cons.mpr ⟨?_, h.before⟩⟩
        · intro a ha
          rcases List.mem_cons.mp ha with rfl | ha
          · exact hr
          · exact h.nonempty a ha
        · intro a ha
          rcases List.mem_cons.mp ha with rfl | ha
          · exact hapart
          · exact ((hbefore.1 a ha).trans hlast).trans hapart

/-- Merging adds the points of the interval, when it does not start before the last one. -/
theorem covers_absorb (hstart : ∀ last ∈ done.head?, last.1 ≤ r.1) :
    Covers (absorb done r) x ↔ Covers done x ∨ (r.1 ≤ x ∧ x < r.2) := by
  cases done with
  | nil => simp [absorb]
  | cons last done =>
      have hle : last.1 ≤ r.1 := hstart last rfl
      rw [absorb]
      split
      next htouch =>
        rw [covers_cons, covers_cons]
        constructor
        · rintro (⟨hx, hlt⟩ | h)
          · rcases lt_max_iff.mp hlt with hlt | hlt
            · exact .inl (.inl ⟨hx, hlt⟩)
            · rcases lt_or_ge x last.2 with hin | hout
              · exact .inl (.inl ⟨hx, hin⟩)
              · exact .inr ⟨htouch.trans hout, hlt⟩
          · exact .inl (.inr h)
        · rintro ((⟨hx, hlt⟩ | h) | ⟨hx, hlt⟩)
          · exact .inl ⟨hx, lt_max_of_lt_left hlt⟩
          · exact .inr h
          · exact .inl ⟨hle.trans hx, lt_max_of_lt_right hlt⟩
      next => rw [covers_cons, or_comm]

theorem head?_absorb (done : List (α × α)) (r : α × α) : ∃ last, (absorb done r).head? = some last ∧
    (last.1 = r.1 ∨ ∃ b ∈ done.head?, last.1 = b.1) := by
  cases done with
  | nil => exact ⟨r, rfl, .inl rfl⟩
  | cons last done =>
      rw [absorb]
      split
      next => exact ⟨_, rfl, .inr ⟨last, rfl, rfl⟩⟩
      next => exact ⟨r, rfl, .inl rfl⟩

/-- Sorted intervals are merged one by one. -/
theorem merged_foldl (h : Merged done) (hl : ∀ r ∈ l, r.1 < r.2)
    (hsorted : l.Pairwise fun a b => a.1 ≤ b.1)
    (hstart : ∀ last ∈ done.head?, ∀ r ∈ l, last.1 ≤ r.1) :
    Merged (l.foldl absorb done) ∧
      ∀ x, Covers (l.foldl absorb done) x ↔ Covers done x ∨ Covers l x := by
  induction l generalizing done with
  | nil => exact ⟨h, fun x => by simp⟩
  | cons r l ih =>
      rw [List.forall_mem_cons] at hl
      rw [List.pairwise_cons] at hsorted
      have hnext : ∀ last ∈ (absorb done r).head?, ∀ b ∈ l, last.1 ≤ b.1 := by
        intro last hlast b hb
        obtain ⟨last', hlast', heq⟩ := head?_absorb done r
        rw [hlast'] at hlast
        cases hlast
        rcases heq with heq | ⟨c, hc, heq⟩
        · rw [heq]
          exact hsorted.1 b hb
        · rw [heq]
          exact hstart c hc b (List.mem_cons_of_mem _ hb)
      obtain ⟨hmerged, hcovers⟩ := ih (h.absorb hl.1) hl.2 hsorted.2 hnext
      refine ⟨hmerged, fun x => ?_⟩
      have hone := covers_absorb (x := x) fun last hlast => hstart last hlast r List.mem_cons_self
      rw [List.foldl_cons, hcovers x, hone, covers_cons, or_assoc]

theorem mergeSort_sorted (l : List (α × α)) :
    (l.mergeSort pairLe).Pairwise fun a b => a.1 ≤ b.1 := by
  have htrans : ∀ a b c : α × α, pairLe a b = true → pairLe b c = true → pairLe a c = true := by
    intro a b c hab hbc
    simp only [pairLe, Bool.or_eq_true, decide_eq_true_eq, Bool.and_eq_true] at hab hbc ⊢
    rcases hab with hab | ⟨hab, hab'⟩
    · rcases hbc with hbc | ⟨hbc, -⟩
      · exact .inl (hab.trans hbc)
      · exact .inl (hbc ▸ hab)
    · rcases hbc with hbc | ⟨hbc, hbc'⟩
      · exact .inl (hab ▸ hbc)
      · exact .inr ⟨hab.trans hbc, hab'.trans hbc'⟩
  have htotal : ∀ a b : α × α, (pairLe a b || pairLe b a) = true := by
    intro a b
    simp only [pairLe, Bool.or_eq_true, decide_eq_true_eq, Bool.and_eq_true]
    rcases lt_trichotomy a.1 b.1 with h | h | h
    · exact .inl (.inl h)
    · exact (le_total a.2 b.2).imp (fun hle => .inr ⟨h, hle⟩) fun hle => .inr ⟨h.symm, hle⟩
    · exact .inr (.inl h)
  refine (List.pairwise_mergeSort htrans htotal l).imp fun h => ?_
  simp only [pairLe, Bool.or_eq_true, decide_eq_true_eq, Bool.and_eq_true] at h
  rcases h with h | ⟨h, -⟩
  · exact h.le
  · exact h.le

theorem coalesce_spec (hl : ∀ r ∈ l, r.1 < r.2) :
    Apart (coalesce l) ∧ ∀ x, Covers (coalesce l) x ↔ Covers l x := by
  have hmem : ∀ r, r ∈ l.mergeSort pairLe ↔ r ∈ l := fun r => (List.mergeSort_perm l _).mem_iff
  have hnil : Merged ([] : List (α × α)) := ⟨by simp, .nil⟩
  obtain ⟨hmerged, hcovers⟩ := merged_foldl hnil
    (fun r hr => hl r ((hmem r).mp hr)) (mergeSort_sorted l) (by simp)
  refine ⟨⟨?_, ?_⟩, fun x => ?_⟩
  · intro r hr
    exact hmerged.nonempty r (List.mem_reverse.mp hr)
  · rw [coalesce, List.pairwise_reverse]
    exact hmerged.before
  · have hboth := hcovers x
    rw [covers_congr hmem x] at hboth
    rw [coalesce, covers_congr (fun r => List.mem_reverse) x, hboth]
    simp

/-- The merged intervals stand apart. -/
theorem apart_coalesce (hl : ∀ r ∈ l, r.1 < r.2) : Apart (coalesce l) := (coalesce_spec hl).1

/-- They have the same points. -/
theorem covers_coalesce (hl : ∀ r ∈ l, r.1 < r.2) (x : α) : Covers (coalesce l) x ↔ Covers l x :=
  (coalesce_spec hl).2 x

/-- No end is beyond all the ends that were there. -/
theorem snd_le_of_mem_coalesce {b : α} (hl : ∀ r ∈ l, r.1 < r.2) (hb : ∀ r ∈ l, r.2 ≤ b) :
    ∀ r ∈ coalesce l, r.2 ≤ b := by
  intro r hr
  by_contra hlt
  rw [not_le] at hlt
  have hin : Covers (coalesce l) (max r.1 b) :=
    ⟨r, hr, le_max_left .., max_lt ((apart_coalesce hl).nonempty r hr) hlt⟩
  obtain ⟨a, ha, -, hbelow⟩ := (covers_coalesce hl _).mp hin
  exact lt_irrefl _ ((le_max_right r.1 b).trans_lt (hbelow.trans_le (hb a ha)))

theorem length_absorb_le (done : List (α × α)) (r : α × α) :
    (absorb done r).length ≤ done.length + 1 := by
  cases done with
  | nil => simp [absorb]
  | cons last done =>
      rw [absorb]
      split <;> simp

theorem length_foldl_absorb_le (l done : List (α × α)) :
    (l.foldl absorb done).length ≤ done.length + l.length := by
  induction l generalizing done with
  | nil => simp
  | cons r l ih =>
      have hone := length_absorb_le done r
      have hrest := ih (absorb done r)
      rw [List.foldl_cons, List.length_cons]
      omega

/-- Merging does not make the list longer. -/
theorem length_coalesce_le (l : List (α × α)) : (coalesce l).length ≤ l.length := by
  have hle := length_foldl_absorb_le (l.mergeSort pairLe) []
  rw [coalesce, List.length_reverse]
  simpa using hle

/-! ## The set of points decides -/

theorem Apart.tail (h : Apart (r :: l)) : Apart l :=
  ⟨fun a ha => h.nonempty a (List.mem_cons_of_mem _ ha), (List.pairwise_cons.mp h.before).2⟩

/-- The points of the rest lie beyond the first interval. -/
theorem Apart.lt_of_covers (h : Apart (r :: l)) (hx : Covers l x) : r.2 < x := by
  obtain ⟨a, ha, hle, -⟩ := hx
  exact ((List.pairwise_cons.mp h.before).1 a ha).trans_le hle

/-- The first interval starts at the least point. -/
theorem Apart.le_of_covers (h : Apart (r :: l)) (hx : Covers (r :: l) x) : r.1 ≤ x := by
  rcases covers_cons.mp hx with ⟨hle, -⟩ | hx
  · exact hle
  · exact (h.nonempty r List.mem_cons_self).le.trans (h.lt_of_covers hx).le

theorem covers_head (h : Apart (r :: l)) : Covers (r :: l) r.1 :=
  covers_cons.mpr (.inl ⟨le_rfl, h.nonempty r List.mem_cons_self⟩)

/-- The first interval ends before the first gap, so not before that of another list. -/
theorem Apart.snd_le {r' : α × α} (h : Apart (r :: l))
    (hsame : ∀ x, Covers (r :: l) x ↔ Covers (r' :: l') x) (hstart : r.1 = r'.1) : r'.2 ≤ r.2 := by
  by_contra hlt
  rw [not_le] at hlt
  have hin : Covers (r' :: l') r.2 :=
    covers_cons.mpr (.inl ⟨hstart ▸ (h.nonempty r List.mem_cons_self).le, hlt⟩)
  rcases covers_cons.mp ((hsame r.2).mpr hin) with ⟨-, hlt⟩ | hrest
  · exact lt_irrefl _ hlt
  · exact lt_irrefl _ (h.lt_of_covers hrest)

/-- Intervals that stand apart are determined by their points. -/
theorem Apart.eq_of_covers (h : Apart l) (h' : Apart l') (hsame : ∀ x, Covers l x ↔ Covers l' x) :
    l = l' := by
  induction l generalizing l' with
  | nil =>
      cases l' with
      | nil => rfl
      | cons r' l' => exact absurd ((hsame _).mpr (covers_head h')) (not_covers_nil _)
  | cons r l ih =>
      cases l' with
      | nil => exact absurd ((hsame _).mp (covers_head h)) (not_covers_nil _)
      | cons r' l' =>
          have hstart : r.1 = r'.1 := le_antisymm (h.le_of_covers ((hsame _).mpr (covers_head h')))
            (h'.le_of_covers ((hsame _).mp (covers_head h)))
          have hstop : r.2 = r'.2 := le_antisymm
            (h'.snd_le (fun x => (hsame x).symm) hstart.symm) (h.snd_le hsame hstart)
          have hr : r = r' := Prod.ext hstart hstop
          subst hr
          congr 1
          refine ih h.tail h'.tail fun x => ?_
          have hx := hsame x
          rw [covers_cons, covers_cons] at hx
          constructor
          · intro hrest
            exact (hx.mp (.inr hrest)).resolve_left fun hin =>
              lt_asymm hin.2 (h.lt_of_covers hrest)
          · intro hrest
            exact (hx.mpr (.inr hrest)).resolve_left fun hin =>
              lt_asymm hin.2 (h'.lt_of_covers hrest)

end IntervalUnion
