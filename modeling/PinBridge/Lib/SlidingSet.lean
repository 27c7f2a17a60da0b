import Mathlib.Data.List.Range
import Mathlib.Logic.Function.Basic

/-!
# Sliding sets of numbers

A set of numbers is kept in `width` bits, each number at its remainder.  Only the numbers less
than `width` below the highest one are kept, and none up to a floor.  When the highest number
moves up, the bits it passes are cleared, or all of them after a long jump.

Two numbers of the window never share a bit, so a bit that is set belongs to the number of the
window at its place.  `Tracks` says what the bits mean after a list of numbers has been offered,
and `accepts_run` which numbers are then accepted.
-/

namespace SlidingSet

/-- The numbers above `floor` and less than a width below `highest`, as bits. -/
structure Window where
  floor : Nat
  highest : Nat
  bits : Nat → Bool

/-- No number has been seen. -/
def Window.new (floor : Nat) : Window := ⟨floor, floor, fun _ => false⟩

variable {width : Nat}

/-- Clear the bits of the numbers from one on. -/
def clearFrom (width start : Nat) : Nat → (Nat → Bool) → Nat → Bool
  | 0, bits => bits
  | count + 1, bits =>
      clearFrom width (start + 1) count (Function.update bits (start % width) false)

/-- Move the highest number up to `n`. -/
def Window.advance (width : Nat) (w : Window) (n : Nat) : Window :=
  { w with
    highest := n
    bits := if width ≤ n - w.highest then fun _ => false
      else clearFrom width (w.highest + 1) (n - w.highest) w.bits }

/-- Offer a number: whether it is new, and the window after it. -/
def Window.offer (width : Nat) (w : Window) (n : Nat) : Bool × Window :=
  if n ≤ w.floor then (false, w)
  else if n ≤ w.highest ∧ width ≤ w.highest - n then (false, w)
  else
    let w := if w.highest < n then w.advance width n else w
    if w.bits (n % width) then (false, w)
    else (true, { w with bits := Function.update w.bits (n % width) true })

/-- Offer a list of numbers. -/
def Window.run (width : Nat) (w : Window) : List Nat → Window
  | [] => w
  | n :: ns => ((w.offer width n).2).run width ns

/-- The window knows which numbers were offered. -/
structure Tracks (width floor : Nat) (offered : List Nat) (w : Window) : Prop where
  floor_eq : w.floor = floor
  floor_le : floor ≤ w.highest
  le_highest : ∀ n ∈ offered, n ≤ w.highest
  highest_mem : w.highest = floor ∨ w.highest ∈ offered
  bits : ∀ n, floor < n → n ≤ w.highest → w.highest < n + width →
    (w.bits (n % width) = true ↔ n ∈ offered)

/-! ## Bits -/

/-- Less than a width apart, different numbers have different remainders. -/
theorem mod_ne_mod {m n : Nat} (hlt : m < n) (hnear : n < m + width) : m % width ≠ n % width := by
  intro heq
  have hsub : (n - m) % width = 0 := Nat.sub_mod_eq_zero_of_mod_eq heq.symm
  rw [Nat.mod_eq_of_lt (by omega)] at hsub
  omega

theorem clearFrom_of_mem {start count n : Nat} {bits : Nat → Bool} (hlow : start ≤ n)
    (hhigh : n < start + count) (hcount : count < width) :
    clearFrom width start count bits (n % width) = false := by
  induction count generalizing start bits with
  | zero => omega
  | succ count ih =>
      rw [clearFrom]
      obtain rfl | hlow := Nat.eq_or_lt_of_le hlow
      · -- the rest clears other bits
        have hrest : ∀ (k s : Nat) (b : Nat → Bool), start < s → b (start % width) = false →
            s + k ≤ start + 1 + count →
            clearFrom width s k b (start % width) = false := by
          intro k
          induction k with
          | zero => exact fun s b _ hb _ => hb
          | succ k ihk =>
              intro s b hs hb hk
              rw [clearFrom]
              refine ihk (s + 1) _ (by omega) ?_ (by omega)
              rw [Function.update_of_ne (mod_ne_mod hs (by omega))]
              exact hb
        exact hrest count _ _ (Nat.lt_succ_self _) (Function.update_self _ _ _) (Nat.le_refl _)
      · exact ih hlow (by omega) (by omega)

theorem clearFrom_of_lt {start count n : Nat} {bits : Nat → Bool} (hlow : n < start)
    (hnear : start + count ≤ n + width) :
    clearFrom width start count bits (n % width) = bits (n % width) := by
  induction count generalizing start bits with
  | zero => rfl
  | succ count ih =>
      rw [clearFrom, ih (by omega) (by omega),
        Function.update_of_ne (mod_ne_mod hlow (by omega))]

/-! ## One number -/

/-- The numbers passed by the highest one are new, the others keep their bits. -/
theorem Tracks.advance {floor n : Nat} {offered : List Nat} {w : Window}
    (h : Tracks width floor offered w) (hn : w.highest < n) :
    ∀ m, floor < m → m ≤ n → n < m + width →
      ((w.advance width n).bits (m % width) = true ↔ m ∈ offered) := by
  intro m hfloor hle hnear
  have hpassed : w.highest < m → m ∉ offered := fun hm hmem =>
    absurd (h.le_highest m hmem) (Nat.not_le.mpr hm)
  simp only [Window.advance]
  split
  next hlong =>
    exact iff_of_false Bool.false_ne_true (hpassed (by omega))
  next hshort =>
    rcases Nat.lt_or_ge w.highest m with hm | hm
    · rw [clearFrom_of_mem hm (by omega) (by omega)]
      exact iff_of_false Bool.false_ne_true (hpassed hm)
    · rw [clearFrom_of_lt (by omega) (by omega)]
      exact h.bits m hfloor hm (by omega)

/-- In the window of a number that is not refused outright, nothing is lost by an offer. -/
theorem Tracks.move {floor n : Nat} {offered : List Nat} {w : Window}
    (h : Tracks width floor offered w) :
    let w' := if w.highest < n then w.advance width n else w
    w'.floor = floor ∧ w'.highest = max w.highest n ∧
      ∀ m, floor < m → m ≤ max w.highest n → max w.highest n < m + width →
        (w'.bits (m % width) = true ↔ m ∈ offered) := by
  intro w'
  rcases Nat.lt_or_ge w.highest n with hn | hn
  · have hw' : w' = w.advance width n := if_pos hn
    rw [hw', Nat.max_eq_right (Nat.le_of_lt hn)]
    exact ⟨h.floor_eq, rfl, h.advance hn⟩
  · have hw' : w' = w := if_neg (Nat.not_lt.mpr hn)
    rw [hw', Nat.max_eq_left hn]
    exact ⟨h.floor_eq, rfl, h.bits⟩

/-- A refused number changes nothing, and it has no bit in the window. -/
theorem Tracks.refuse {floor n : Nat} {offered : List Nat} {w : Window}
    (h : Tracks width floor offered w) (hle : n ≤ w.highest)
    (hout : n ≤ floor ∨ n + width ≤ w.highest ∨ n ∈ offered) :
    Tracks width floor (n :: offered) w where
  floor_eq := h.floor_eq
  floor_le := h.floor_le
  le_highest := fun m hm => by
    obtain rfl | hm := List.mem_cons.mp hm
    · exact hle
    · exact h.le_highest m hm
  highest_mem := h.highest_mem.imp_right (List.mem_cons_of_mem n)
  bits := fun m hfloor hm hnear => by
    rw [h.bits m hfloor hm hnear, List.mem_cons]
    refine ⟨Or.inr, fun hmem => hmem.elim (fun heq => ?_) id⟩
    subst heq
    obtain hout | hout | hout := hout
    · omega
    · omega
    · exact hout

/-- The number is not refused for its place. -/
theorem Tracks.near_iff {floor n : Nat} {offered : List Nat} {w : Window}
    (h : Tracks width floor offered w) (hwidth : 0 < width) (hn : floor < n) :
    (∀ m ∈ offered, m < n + width) ↔ w.highest < n + width := by
  constructor
  · intro hall
    obtain heq | hmem := h.highest_mem
    · omega
    · exact hall _ hmem
  · exact fun hlt m hm => Nat.lt_of_le_of_lt (h.le_highest m hm) hlt

/-- An offer is accepted if and only if the number is above the floor, in the window and new. -/
theorem Tracks.offer {floor : Nat} {offered : List Nat} {w : Window}
    (h : Tracks width floor offered w) (hwidth : 0 < width) (n : Nat) :
    ((w.offer width n).1 = true ↔
      floor < n ∧ (∀ m ∈ offered, m < n + width) ∧ n ∉ offered) ∧
    Tracks width floor (n :: offered) (w.offer width n).2 := by
  rw [Window.offer, h.floor_eq]
  split
  next hfloor =>
    refine ⟨iff_of_false Bool.false_ne_true fun hn => by omega, ?_⟩
    exact h.refuse (hfloor.trans h.floor_le) (.inl hfloor)
  next hfloor =>
  have hfloor := Nat.not_le.mp hfloor
  rw [h.near_iff hwidth hfloor]
  split
  next hstale =>
    refine ⟨iff_of_false Bool.false_ne_true fun hn => by omega, ?_⟩
    exact h.refuse hstale.1 (.inr (.inl (by omega)))
  next hstale =>
  have hnear : w.highest < n + width := by omega
  obtain ⟨hfloor', hhighest, hbits⟩ := h.move (n := n)
  generalize (if w.highest < n then w.advance width n else w) = w' at hfloor' hhighest hbits ⊢
  have hbit := hbits n hfloor (Nat.le_max_right _ _) (by omega)
  have htracks : ∀ bits : Nat → Bool,
      (∀ m, floor < m → m ≤ max w.highest n → max w.highest n < m + width →
        (bits (m % width) = true ↔ m ∈ n :: offered)) →
      Tracks width floor (n :: offered) { w' with bits := bits } := fun _ hbits' => {
    floor_eq := hfloor'
    floor_le := by
      rw [hhighest]
      exact h.floor_le.trans (Nat.le_max_left _ _)
    le_highest := fun m hm => by
      rw [hhighest]
      obtain rfl | hm := List.mem_cons.mp hm
      · exact Nat.le_max_right _ _
      · exact (h.le_highest m hm).trans (Nat.le_max_left _ _)
    highest_mem := by
      rw [hhighest]
      rcases Nat.le_total w.highest n with hle | hle
      · rw [Nat.max_eq_right hle]
        exact .inr List.mem_cons_self
      · rw [Nat.max_eq_left hle]
        exact h.highest_mem.imp_right (List.mem_cons_of_mem n)
    bits := by
      rw [hhighest]
      exact hbits' }
  dsimp only
  split
  next hset =>
    have hold := hbit.mp hset
    refine ⟨iff_of_false Bool.false_ne_true fun hn => hn.2.2 hold, ?_⟩
    refine htracks w'.bits fun m hm hle hlt => ?_
    rw [hbits m hm hle hlt, List.mem_cons]
    exact ⟨.inr, fun hmem => hmem.elim (fun heq => heq ▸ hold) id⟩
  next hclear =>
    have hnew : n ∉ offered := fun hmem => hclear (hbit.mpr hmem)
    refine ⟨iff_of_true rfl ⟨hfloor, hnear, hnew⟩, ?_⟩
    refine htracks _ fun m hm hle hlt => ?_
    rcases Nat.lt_trichotomy m n with hmn | rfl | hnm
    · rw [Function.update_of_ne (mod_ne_mod hmn (by omega)), hbits m hm hle hlt, List.mem_cons]
      exact ⟨.inr, fun hmem => hmem.elim (fun heq => by omega) id⟩
    · rw [Function.update_self]
      exact iff_of_true rfl List.mem_cons_self
    · rw [Function.update_of_ne (mod_ne_mod hnm (by omega)).symm, hbits m hm hle hlt,
        List.mem_cons]
      exact ⟨.inr, fun hmem => hmem.elim (fun heq => by omega) id⟩

/-! ## Many numbers -/

theorem tracks_new (width floor : Nat) : Tracks width floor [] (Window.new floor) where
  floor_eq := rfl
  floor_le := Nat.le_refl _
  le_highest := fun _ hm => absurd hm List.not_mem_nil
  highest_mem := .inl rfl
  bits := fun _ hfloor hle _ => absurd hfloor (Nat.not_lt.mpr hle)

theorem Tracks.run {floor : Nat} {offered : List Nat} {w : Window}
    (h : Tracks width floor offered w) (hwidth : 0 < width) (ns : List Nat) :
    Tracks width floor (ns.reverse ++ offered) (w.run width ns) := by
  induction ns generalizing offered w with
  | nil => exact h
  | cons n ns ih =>
      rw [List.reverse_cons, List.append_assoc, List.singleton_append]
      exact ih (h.offer hwidth n).2

/-- After any numbers, a number is accepted if and only if it is above the floor, in the window
of all of them and none of them. -/
theorem accepts_run (hwidth : 0 < width) (floor : Nat) (ns : List Nat) (n : Nat) :
    (((Window.new floor).run width ns).offer width n).1 = true ↔
      floor < n ∧ (∀ m ∈ ns, m < n + width) ∧ n ∉ ns := by
  have h := ((tracks_new width floor).run hwidth ns).offer hwidth n
  simpa using h.1

end SlidingSet
