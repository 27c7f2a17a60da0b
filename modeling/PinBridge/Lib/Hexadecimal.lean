import Mathlib.Algebra.Ring.Nat
import Mathlib.Data.Char
import Mathlib.Data.List.Lex

/-!
# Hexadecimal numerals of a fixed width

A number below `16 ^ w` as `w` lower case digits, highest first.  Such numerals are ordered as
texts the way their numbers are ordered (`numeral_lt_numeral`), so they can be the keys of an
ordered map of texts.
-/

namespace Hexadecimal

/-- The digits of `n` below `16 ^ w`, highest first. -/
def numeral : ℕ → ℕ → List Char
  | 0, _ => []
  | w + 1, n => Nat.digitChar (n / 16 ^ w % 16) :: numeral w n

@[simp] theorem length_numeral (w n : ℕ) : (numeral w n).length = w := by
  induction w with
  | zero => rfl
  | succ w ih => rw [numeral, List.length_cons, ih]

/-- Only the digits that the width has room for count. -/
theorem numeral_mod (w n : ℕ) {v : ℕ} (h : w ≤ v) : numeral w (n % 16 ^ v) = numeral w n := by
  induction w with
  | zero => rfl
  | succ w ih =>
      have hdigit : n % 16 ^ v / 16 ^ w % 16 = n / 16 ^ w % 16 := by
        obtain ⟨k, rfl⟩ := Nat.exists_eq_add_of_le h
        rw [Nat.add_right_comm, Nat.add_assoc, pow_add, Nat.mod_mul_right_div_self, pow_add, pow_one,
          Nat.mod_mul_left_mod]
      rw [numeral, numeral, hdigit, ih (Nat.le_of_succ_le h)]

/-! ## The order -/

theorem digitChar_lt : ∀ a b : Fin 16, Nat.digitChar a < Nat.digitChar b ↔ a < b := by decide

theorem digitChar_injective {a b : ℕ} (ha : a < 16) (hb : b < 16)
    (h : Nat.digitChar a = Nat.digitChar b) : a = b := by
  obtain hlt | heq | hlt := Nat.lt_trichotomy a b
  · exact absurd h ((digitChar_lt ⟨a, ha⟩ ⟨b, hb⟩).mpr hlt).ne
  · exact heq
  · exact absurd h.symm ((digitChar_lt ⟨b, hb⟩ ⟨a, ha⟩).mpr hlt).ne

/-- The highest digit decides, and the rest where it is the same. -/
theorem numeral_lt_numeral {w m n : ℕ} (hm : m < 16 ^ w) (hn : n < 16 ^ w) :
    numeral w m < numeral w n ↔ m < n := by
  induction w generalizing m n with
  | zero => simp [numeral, show m = 0 by omega, show n = 0 by omega]
  | succ w ih =>
      have hpos : 0 < 16 ^ w := Nat.pow_pos (by decide)
      have hhigh : ∀ k, k < 16 ^ (w + 1) → k / 16 ^ w % 16 = k / 16 ^ w ∧ k / 16 ^ w < 16 := by
        intro k hk
        have hlt : k / 16 ^ w < 16 := Nat.div_lt_of_lt_mul (by rwa [← pow_succ])
        exact ⟨Nat.mod_eq_of_lt hlt, hlt⟩
      have hrest := ih (Nat.mod_lt m hpos) (Nat.mod_lt n hpos)
      rw [numeral_mod w m (Nat.le_refl w), numeral_mod w n (Nat.le_refl w)] at hrest
      obtain ⟨hmod, hlt⟩ := hhigh m hm
      obtain ⟨hmod', hlt'⟩ := hhigh n hn
      rw [numeral, numeral, hmod, hmod', List.cons_lt_cons_iff, hrest,
        digitChar_lt ⟨m / 16 ^ w, hlt⟩ ⟨n / 16 ^ w, hlt'⟩, Fin.mk_lt_mk]
      have hdigits : Nat.digitChar (m / 16 ^ w) = Nat.digitChar (n / 16 ^ w) ↔
          m / 16 ^ w = n / 16 ^ w := ⟨digitChar_injective hlt hlt', congrArg _⟩
      rw [hdigits]
      have hm' := Nat.div_add_mod m (16 ^ w)
      have hn' := Nat.div_add_mod n (16 ^ w)
      constructor
      · rintro (h | ⟨h, hlow⟩)
        · by_contra hle
          have := Nat.div_le_div_right (c := 16 ^ w) (Nat.le_of_not_lt hle)
          omega
        · rw [h] at hm'
          omega
      · intro h
        have hle := Nat.div_le_div_right (c := 16 ^ w) h.le
        obtain heq | hne := hle.eq_or_lt
        · rw [heq] at hm'
          exact .inr ⟨heq, by omega⟩
        · exact .inl hne

theorem numeral_injective {w m n : ℕ} (hm : m < 16 ^ w) (hn : n < 16 ^ w)
    (h : numeral w m = numeral w n) : m = n := by
  obtain hlt | heq | hlt := Nat.lt_trichotomy m n
  · exact absurd h ((numeral_lt_numeral hm hn).mpr hlt).ne
  · exact heq
  · exact absurd h.symm ((numeral_lt_numeral hn hm).mpr hlt).ne

end Hexadecimal
