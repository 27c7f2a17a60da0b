import PinBridge.Lib.Json
import Mathlib.Data.Nat.Basic
import Mathlib.Data.Option.Basic
import Mathlib.Algebra.Ring.Nat

/-!
# Hook events as JSON values

The agent's hook events reach the hub as JSON objects whose numbers are strings.
A query reads a field by its name and type (`Json.get`, `Json.asStr`) and a
number from its text, decimal or with `0x` (`parseValueU64`).  A number that the
query itself writes in decimal is read back (`parseValueU64_decimal`).
-/

namespace PinBridge.HookQuery

/-- `serde_json::Value`. -/
abbrev Value : Type := Json

/-- `scalar_string`.  `text` is `serde_json::to_string`. -/
def scalarString (text : Value → String) : Option Value → String
  | none => ""
  | some .null => ""
  | some (.string s) => s
  | some value => text value

/-! ## Numbers -/

/-- `char::to_digit`. -/
def toDigit (radix : Nat) (c : Char) : Option Nat :=
  let d :=
    if '0' ≤ c ∧ c ≤ '9' then some (c.toNat - 48)
    else if 'a' ≤ c ∧ c ≤ 'z' then some (c.toNat - 87)
    else if 'A' ≤ c ∧ c ≤ 'Z' then some (c.toNat - 55)
    else none
  d.filter (· < radix)

/-- One more digit; `none` is an invalid digit or an overflow. -/
def pushDigit (radix acc : Nat) (c : Char) : Option Nat := do
  let d ← toDigit radix c
  if acc * radix + d < 2 ^ 64 then some (acc * radix + d) else none

/-- `u64::from_str_radix`, and `str::parse` with radix ten. -/
def fromStrRadix (radix : Nat) : List Char → Option Nat
  | [] => none
  | ['+'] => none
  | '+' :: ds => ds.foldlM (pushDigit radix) 0
  | ds => ds.foldlM (pushDigit radix) 0

/-- `parse_value_u64`. -/
def parseValueU64 (value : Value) : Option Nat := do
  let text ← value.asStr
  match text.toList with
  | '0' :: 'x' :: hex => fromStrRadix 16 hex
  | '0' :: 'X' :: hex => fromStrRadix 16 hex
  | ds => fromStrRadix 10 ds

/-- `event_sequence`. -/
def eventSequence (value : Value) : Nat := ((value.get "sequence").bind parseValueU64).getD 0

theorem pushDigit_digitChar {acc d : Nat} (hd : d < 10) (h : acc * 10 + d < 2 ^ 64) :
    pushDigit 10 acc d.digitChar = some (acc * 10 + d) := by
  have hdigit : ∀ d < 10, toDigit 10 d.digitChar = some d := by decide
  rw [pushDigit, hdigit d hd]
  exact if_pos h

theorem foldlM_toDigits {n : Nat} (h : n < 2 ^ 64) :
    (Nat.toDigits 10 n).foldlM (pushDigit 10) 0 = some n := by
  induction n using Nat.strongRecOn with
  | ind n ih =>
      rcases Nat.lt_or_ge n 10 with hlt | hge
      · rw [Nat.toDigits_of_lt_base hlt, List.foldlM_cons, pushDigit_digitChar hlt (by omega)]
        simp
      · rw [Nat.toDigits_of_base_le (by decide) hge, List.foldlM_append,
          ih (n / 10) (by omega) (by omega)]
        show pushDigit 10 (n / 10) (n % 10).digitChar >>= _ = _
        rw [pushDigit_digitChar (Nat.mod_lt n (by decide)) (by omega)]
        simp
        omega

/-- Digits have no sign. -/
theorem fromStrRadix_digits {radix : Nat} {ds : List Char} (hne : ds ≠ [])
    (h : ∀ c ∈ ds, c.isDigit) : fromStrRadix radix ds = ds.foldlM (pushDigit radix) 0 := by
  unfold fromStrRadix
  split
  · exact absurd rfl hne
  · exact absurd (h '+' List.mem_cons_self) (by decide)
  · exact absurd (h '+' List.mem_cons_self) (by decide)
  · rfl

/-- A number written in decimal is read back. -/
theorem parseValueU64_decimal {n : Nat} (h : n < 2 ^ 64) :
    parseValueU64 (.string (toString n)) = some n := by
  have hdigits : ∀ c ∈ Nat.toDigits 10 n, c.isDigit := fun c hc =>
    Nat.isDigit_of_mem_toDigits (by decide) (by decide) hc
  have hlist : (toString n).toList = Nat.toDigits 10 n := by
    rw [Nat.toString_eq_ofList_toDigits, String.toList_ofList]
  show (match (toString n).toList with
    | '0' :: 'x' :: hex => fromStrRadix 16 hex
    | '0' :: 'X' :: hex => fromStrRadix 16 hex
    | ds => fromStrRadix 10 ds) = some n
  rw [hlist]
  split
  · next heq =>
      rw [heq] at hdigits
      exact absurd (hdigits 'x' (by simp)) (by decide)
  · next heq =>
      rw [heq] at hdigits
      exact absurd (hdigits 'X' (by simp)) (by decide)
  · rw [fromStrRadix_digits Nat.toDigits_ne_nil hdigits]
    exact foldlM_toDigits h

theorem foldlM_pushDigit_lt {radix acc n : Nat} {ds : List Char} (hacc : acc < 2 ^ 64)
    (h : ds.foldlM (pushDigit radix) acc = some n) : n < 2 ^ 64 := by
  induction ds generalizing acc with
  | nil =>
      cases h
      exact hacc
  | cons c ds ih =>
      rw [List.foldlM_cons] at h
      obtain ⟨acc', hc, h⟩ := Option.bind_eq_some_iff.mp h
      refine ih ?_ h
      obtain ⟨d, -, hd⟩ := Option.bind_eq_some_iff.mp hc
      split at hd
      · next hlt =>
          cases hd
          exact hlt
      · cases hd

theorem fromStrRadix_lt {radix n : Nat} {ds : List Char} (h : fromStrRadix radix ds = some n) :
    n < 2 ^ 64 := by
  unfold fromStrRadix at h
  split at h
  · cases h
  · cases h
  · exact foldlM_pushDigit_lt (by decide) h
  · exact foldlM_pushDigit_lt (by decide) h

/-- A number that was read fits in 64 bits. -/
theorem eventSequence_lt (value : Value) : eventSequence value < 2 ^ 64 := by
  unfold eventSequence
  cases h : (value.get "sequence").bind parseValueU64 with
  | none => exact Nat.two_pow_pos 64
  | some n =>
      obtain ⟨v, -, hv⟩ := Option.bind_eq_some_iff.mp h
      obtain ⟨text, -, htext⟩ := Option.bind_eq_some_iff.mp hv
      show n < 2 ^ 64
      split at htext
      · exact fromStrRadix_lt htext
      · exact fromStrRadix_lt htext
      · exact fromStrRadix_lt htext

end PinBridge.HookQuery
