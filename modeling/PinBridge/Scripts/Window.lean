import PinBridge.Lib.SlidingSet
import PinBridge.Scripts.Routing
import Mathlib.Data.Vector.Basic

/-!
# The generation window

`GenerationWindow` of `events.rs` keeps 65536 bits in 1024 words.  A generation is accepted when
it is presented for the first time and is not too old.

The words stand for a sliding set (`GenerationWindow.window`), and `accept` offers a generation
to it (`accept_eq`).
-/

namespace PinBridge.Scripts.Window

/-- The words of the window. -/
abbrev Bits : Type := Vector (BitVec 64) 1024

/-- The place of a bit, `GENERATION_WINDOW_BITS` of them. -/
abbrev Place : Type := Fin 65536

/-- `generation % GENERATION_WINDOW_BITS`. -/
def place (generation : Nat) : Place := ⟨generation % 65536, Nat.mod_lt _ (by decide)⟩

/-- `bit / 64`. -/
def Place.word (b : Place) : Fin 1024 := ⟨b.val / 64, by omega⟩

/-- `1u64 << (bit % 64)`. -/
def Place.mask (b : Place) : BitVec 64 := 1#64 <<< (b.val % 64)

/-- `*word & mask != 0`. -/
def Bits.test (bits : Bits) (b : Place) : Bool := bits[b.word] &&& b.mask != 0#64

/-- `*word |= mask`. -/
def Bits.insert (bits : Bits) (b : Place) : Bits := bits.set b.word (bits[b.word] ||| b.mask)

/-- `bits[bit / 64] &= !(1u64 << (bit % 64))`. -/
def Bits.erase (bits : Bits) (b : Place) : Bits := bits.set b.word (bits[b.word] &&& ~~~b.mask)

/-- Erase the bits of the generations from `value` on. -/
def Bits.eraseFrom (bits : Bits) (value : Nat) : Nat → Bits
  | 0 => bits
  | count + 1 => (bits.erase (place value)).eraseFrom (value + 1) count

/-- `GenerationWindow`. -/
structure GenerationWindow where
  ignoreThrough : UInt64
  highest : UInt64
  bits : Bits

/-- `GenerationWindow::new`. -/
def GenerationWindow.new (ignoreThrough : UInt64) : GenerationWindow :=
  ⟨ignoreThrough, ignoreThrough, Vector.replicate 1024 0#64⟩

/-- The end of `accept`: the first copy of a generation sets its bit. -/
def GenerationWindow.mark (w : GenerationWindow) (generation : UInt64) :
    Bool × GenerationWindow :=
  let bit := place generation.toNat
  if w.bits.test bit then (false, w) else (true, { w with bits := w.bits.insert bit })

/-- `GenerationWindow::accept`. -/
def GenerationWindow.accept (w : GenerationWindow) (generation : UInt64) :
    Bool × GenerationWindow :=
  if generation = 0 ∨ generation ≤ w.ignoreThrough then (false, w)
  else if w.highest < generation then
    let advance := generation - w.highest
    let bits :=
      if 65536 ≤ advance then Vector.replicate 1024 0#64
      else w.bits.eraseFrom (w.highest.toNat + 1) advance.toNat
    { w with highest := generation, bits }.mark generation
  else if 65536 ≤ w.highest - generation then (false, w)
  else w.mark generation

/-! ## Bits -/

theorem Place.getLsbD_mask (b : Place) (i : Nat) :
    b.mask.getLsbD i = decide (b.val % 64 = i) := by
  rw [Place.mask, ← BitVec.twoPow_eq, BitVec.getLsbD_twoPow,
    decide_eq_true (Nat.mod_lt _ (by decide)), Bool.true_and]

/-- The test reads the bit of the place. -/
theorem Bits.test_eq (bits : Bits) (b : Place) :
    bits.test b = bits[b.word].getLsbD (b.val % 64) := by
  have hmask : BitVec.twoPow 64 (b.val % 64) ≠ 0#64 := by
    intro hzero
    have hbit := congrArg (fun x => x.getLsbD (b.val % 64)) hzero
    simp [Nat.mod_lt] at hbit
  rw [Bits.test, Place.mask, ← BitVec.twoPow_eq, BitVec.and_twoPow]
  cases bits[b.word].getLsbD (b.val % 64) with
  | false => simp
  | true => simpa using hmask

/-- Places in the same word differ in their bit. -/
theorem Place.eq_of_word {b c : Place} (hword : b.word = c.word)
    (hbit : b.val % 64 = c.val % 64) : b = c := by
  have hdiv : b.val / 64 = c.val / 64 := congrArg Fin.val hword
  exact Fin.ext (by omega)

/-- A word that differs from the old one at most in the bit of a place. -/
theorem Bits.test_set (bits : Bits) (b c : Place) {word : BitVec 64}
    (hword : ∀ i, i ≠ b.val % 64 → word.getLsbD i = bits[b.word].getLsbD i) :
    Bits.test (bits.set b.word word) c =
      if c = b then word.getLsbD (b.val % 64) else bits.test c := by
  rw [Bits.test_eq, Bits.test_eq]
  split
  next heq =>
    subst heq
    simp
  next hne =>
    simp only [Fin.getElem_fin, Vector.getElem_set] at hword ⊢
    split
    next hsame =>
      rw [hword _ fun heq => hne (Place.eq_of_word (Fin.ext hsame.symm) heq)]
      simp only [hsame]
    next => rfl

theorem Bits.test_insert (bits : Bits) (b c : Place) :
    (bits.insert b).test c = if c = b then true else bits.test c := by
  rw [Bits.insert, Bits.test_set bits b c fun i hi => ?_]
  · rw [BitVec.getLsbD_or, b.getLsbD_mask, decide_eq_true rfl, Bool.or_true]
  · rw [BitVec.getLsbD_or, b.getLsbD_mask, decide_eq_false hi.symm, Bool.or_false]

theorem Bits.test_erase (bits : Bits) (b c : Place) :
    (bits.erase b).test c = if c = b then false else bits.test c := by
  rw [Bits.erase, Bits.test_set bits b c fun i hi => ?_]
  · rw [BitVec.getLsbD_and, BitVec.getLsbD_not, b.getLsbD_mask, decide_eq_true rfl, Bool.not_true,
      Bool.and_false, Bool.and_false]
  · rw [BitVec.getLsbD_and, BitVec.getLsbD_not, b.getLsbD_mask, decide_eq_false hi.symm]
    rcases Nat.lt_or_ge i 64 with hlt | hge
    · rw [decide_eq_true hlt, Bool.not_false, Bool.and_true, Bool.and_true]
    · rw [BitVec.getLsbD_of_ge _ _ hge, Bool.false_and]

theorem Bits.test_zero (c : Place) : Bits.test (Vector.replicate 1024 0#64) c = false := by
  rw [Bits.test_eq]
  simp

/-! ## The sliding set -/

/-- The bits as a function of the remainder. -/
def Bits.at (bits : Bits) (i : Nat) : Bool := if h : i < 65536 then bits.test ⟨i, h⟩ else false

/-- The set the words stand for. -/
def GenerationWindow.window (w : GenerationWindow) : SlidingSet.Window :=
  ⟨w.ignoreThrough.toNat, w.highest.toNat, w.bits.at⟩

theorem Bits.at_place (bits : Bits) (n : Nat) : bits.at (n % 65536) = bits.test (place n) :=
  dif_pos (Nat.mod_lt n (by decide))

/-- A change of one bit is an update. -/
theorem Bits.at_update {bits bits' : Bits} {b : Place} {v : Bool}
    (h : ∀ c, bits'.test c = if c = b then v else bits.test c) :
    bits'.at = Function.update bits.at b.val v := by
  funext i
  rcases eq_or_ne i b.val with rfl | hne
  · rw [Function.update_self, Bits.at, dif_pos b.isLt, h, if_pos rfl]
  · rw [Function.update_of_ne hne, Bits.at, Bits.at]
    split
    · rw [h, if_neg fun heq => hne (congrArg Fin.val heq)]
    · rfl

theorem Bits.at_zero : Bits.at (Vector.replicate 1024 0#64) = fun _ => false := by
  funext i
  rw [Bits.at]
  split
  · exact Bits.test_zero _
  · rfl

theorem Bits.at_eraseFrom (bits : Bits) (value count : Nat) :
    (bits.eraseFrom value count).at = SlidingSet.clearFrom 65536 value count bits.at := by
  induction count generalizing bits value with
  | zero => rfl
  | succ count ih =>
      rw [Bits.eraseFrom, ih, SlidingSet.clearFrom, Bits.at_update (bits.test_erase _)]
      rfl

/-- The end of `accept` is the end of an offer. -/
theorem GenerationWindow.mark_eq (w : GenerationWindow) (generation : UInt64) :
    ((w.mark generation).1, (w.mark generation).2.window) =
      if w.window.bits (generation.toNat % 65536) then (false, w.window)
      else (true, { w.window with
        bits := Function.update w.window.bits (generation.toNat % 65536) true }) := by
  show _ = if w.bits.at (generation.toNat % 65536) then _ else _
  rw [Bits.at_place, GenerationWindow.mark]
  dsimp only
  split
  next => rfl
  next =>
    rw [GenerationWindow.window, Bits.at_update (w.bits.test_insert _)]
    rfl

/-- `accept` offers the generation to the set. -/
theorem GenerationWindow.accept_eq (w : GenerationWindow) (generation : UInt64) :
    ((w.accept generation).1, (w.accept generation).2.window) =
      w.window.offer 65536 generation.toNat := by
  have hrefused : (generation = 0 ∨ generation ≤ w.ignoreThrough) ↔
      generation.toNat ≤ w.window.floor := by
    show _ ↔ generation.toNat ≤ w.ignoreThrough.toNat
    rw [← UInt64.le_iff_toNat_le]
    exact ⟨fun h => h.elim (fun hzero => hzero ▸ UInt64.zero_le) id, .inr⟩
  have hhigher : w.highest < generation ↔ w.window.highest < generation.toNat :=
    UInt64.lt_iff_toNat_lt
  rw [GenerationWindow.accept, SlidingSet.Window.offer]
  split
  next hlow => rw [if_pos (hrefused.mp hlow)]
  next hlow =>
  rw [if_neg (mt hrefused.mpr hlow)]
  split
  next hnew =>
    have hlt := hhigher.mp hnew
    have hadvance : (generation - w.highest).toNat = generation.toNat - w.window.highest :=
      UInt64.toNat_sub_of_le _ _ (UInt64.le_of_lt hnew)
    have hlong : 65536 ≤ generation - w.highest ↔
        65536 ≤ generation.toNat - w.window.highest := by
      rw [UInt64.le_iff_toNat_le, hadvance]
      rfl
    have hwindow : GenerationWindow.window { w with
        highest := generation
        bits := if 65536 ≤ generation - w.highest then Vector.replicate 1024 0#64
          else w.bits.eraseFrom (w.highest.toNat + 1) (generation - w.highest).toNat } =
        w.window.advance 65536 generation.toNat := by
      rw [GenerationWindow.window, SlidingSet.Window.advance, if_congr hlong rfl rfl, hadvance]
      split
      next => rw [Bits.at_zero]; rfl
      next => rw [Bits.at_eraseFrom]; rfl
    rw [if_neg fun h => absurd h.1 (Nat.not_le.mpr hlt), if_pos hlt, mark_eq, hwindow]
  next hold =>
    have hle : generation.toNat ≤ w.window.highest := Nat.not_lt.mp (mt hhigher.mpr hold)
    have hstale : 65536 ≤ w.highest - generation ↔
        generation.toNat ≤ w.window.highest ∧ 65536 ≤ w.window.highest - generation.toNat := by
      rw [UInt64.le_iff_toNat_le, UInt64.toNat_sub_of_le _ _ (UInt64.le_iff_toNat_le.mpr hle)]
      exact ⟨fun h => ⟨hle, h⟩, And.right⟩
    split
    next hfar => rw [if_pos (hstale.mp hfar)]
    next hnear => rw [if_neg (mt hstale.mpr hnear), if_neg (mt hhigher.mpr hold), mark_eq]

/-! ## Runs -/

/-- Present generations one after the other. -/
def GenerationWindow.run (w : GenerationWindow) : List UInt64 → GenerationWindow
  | [] => w
  | g :: gs => (w.accept g).2.run gs

theorem GenerationWindow.window_run (w : GenerationWindow) (gs : List UInt64) :
    (w.run gs).window = w.window.run 65536 (gs.map UInt64.toNat) := by
  induction gs generalizing w with
  | nil => rfl
  | cons g gs ih =>
      rw [List.map_cons, SlidingSet.Window.run, ← accept_eq]
      exact ih _

/-- A generation is accepted if and only if it is greater than the boundary, less than 65536
below the highest generation so far, and new. -/
theorem accept_exact (boundary : UInt64) (presented : List UInt64) (generation : UInt64) :
    (((GenerationWindow.new boundary).run presented).accept generation).1 = true ↔
      boundary < generation ∧ (∀ g ∈ presented, g.toNat < generation.toNat + 65536) ∧
        generation ∉ presented := by
  have hnew : (GenerationWindow.new boundary).window = SlidingSet.Window.new boundary.toNat := by
    rw [GenerationWindow.new, GenerationWindow.window, Bits.at_zero]
    rfl
  have hoffer := congrArg Prod.fst
    (((GenerationWindow.new boundary).run presented).accept_eq generation)
  have hrun := SlidingSet.accepts_run (show 0 < 65536 by decide) boundary.toNat
    (presented.map UInt64.toNat) generation.toNat
  have hmem : generation.toNat ∈ presented.map UInt64.toNat ↔ generation ∈ presented :=
    List.mem_map_of_injective fun _ _ => UInt64.toNat_inj.mp
  rw [GenerationWindow.window_run, hnew] at hoffer
  rw [← hoffer, hmem, List.forall_mem_map, ← UInt64.lt_iff_toNat_lt] at hrun
  exact hrun

/-! ## The window of a handler -/

/-- The set that the window of a handler stands for. -/
def ofRouting (w : Routing.GenerationWindow) : SlidingSet.Window :=
  ⟨w.ignoreThrough, w.highest, w.bits⟩

theorem foldl_update (start count : Nat) (bits : Nat → Bool) :
    (List.range' start count).foldl
      (fun bits value => Function.update bits (value % 65536) false) bits =
        SlidingSet.clearFrom 65536 start count bits := by
  induction count generalizing start bits with
  | zero => rfl
  | succ count ih => rw [List.range'_succ, List.foldl_cons, ih, SlidingSet.clearFrom]

/-- The handlers of `Routing` use the same set. -/
theorem routing_accept (w : Routing.GenerationWindow) (generation : Nat) :
    (w.accept generation).map ofRouting =
      if ((ofRouting w).offer 65536 generation).1 then
        some ((ofRouting w).offer 65536 generation).2 else none := by
  have hrefused : (generation = 0 ∨ generation ≤ w.ignoreThrough) ↔
      generation ≤ (ofRouting w).floor :=
    ⟨fun h => h.elim (fun hzero => hzero ▸ Nat.zero_le _) id, .inr⟩
  have hadvance : ofRouting (w.advance generation) = (ofRouting w).advance 65536 generation := by
    rw [ofRouting, Routing.GenerationWindow.advance, Routing.generationWindowBits, foldl_update]
    rfl
  have hmove : ofRouting (if w.highest < generation then w.advance generation else w) =
      if (ofRouting w).highest < generation then (ofRouting w).advance 65536 generation
      else ofRouting w := by
    rw [apply_ite ofRouting, hadvance]
    rfl
  rw [Routing.GenerationWindow.accept, SlidingSet.Window.offer, if_congr hrefused rfl rfl]
  split
  next => rfl
  next =>
  split
  next hstale =>
    have hstale : generation ≤ (ofRouting w).highest ∧
        65536 ≤ (ofRouting w).highest - generation := hstale
    rw [if_pos hstale]
    rfl
  next hstale =>
    have hstale : ¬(generation ≤ (ofRouting w).highest ∧
        65536 ≤ (ofRouting w).highest - generation) := hstale
    rw [if_neg hstale]
    dsimp only
    rw [← hmove]
    generalize (if w.highest < generation then w.advance generation else w) = w'
    have hbits : Routing.generationWindowBits = 65536 := rfl
    rw [hbits]
    cases hseen : w'.bits (generation % 65536) with
    | false => simp [ofRouting, hseen]
    | true => simp [ofRouting, hseen]

end PinBridge.Scripts.Window
