import Mathlib.Algebra.Ring.Nat
import Mathlib.Data.List.Basic

/-!
# Texts in UTF-8

A text is a list of Unicode scalar values, and `encode` is its UTF-8 image.  `fromUtf8Lossy`
reads any byte string: a byte sequence that is no character becomes U+FFFD, by the rule of
maximal subparts, and the image of a text is read back unchanged (`fromUtf8Lossy_encode`).

Positions in a text are counted in bytes.  `truncate` cuts a text at a position, and
`boundaryFrom` finds the last character boundary at or before a position.
-/

namespace Utf8

/-- A text. -/
abbrev Text := List Char

/-- The UTF-8 image of a text. -/
def encode (t : Text) : List UInt8 := t.flatMap String.utf8EncodeChar

/-- The length of a text in bytes. -/
def size (t : Text) : Nat := (t.map Char.utf8Size).sum

@[simp] theorem encode_nil : encode [] = [] := rfl

@[simp] theorem encode_cons (c : Char) (t : Text) :
    encode (c :: t) = String.utf8EncodeChar c ++ encode t := by
  simp [encode]

@[simp] theorem size_nil : size [] = 0 := rfl

@[simp] theorem size_cons (c : Char) (t : Text) : size (c :: t) = c.utf8Size + size t := by
  simp [size]

@[simp] theorem length_encode (t : Text) : (encode t).length = size t := by
  induction t with
  | nil => rfl
  | cons c t ih => simp [ih]

/-- A text has at most as many characters as bytes. -/
theorem length_le_size (t : Text) : t.length ≤ size t := by
  induction t with
  | nil => simp
  | cons c t ih =>
      have hc := c.utf8Size_pos
      rw [List.length_cons, size_cons]
      omega

/-! ## Reading bytes -/

/-- A continuation byte. -/
def isCont (b : UInt8) : Bool := 0x80 ≤ b && b ≤ 0xBF

/-- Whether `next` may follow the first byte `b` of a character of three or four bytes. -/
def followsLead (b next : UInt8) : Bool :=
  if b = 0xE0 then 0xA0 ≤ next && next ≤ 0xBF
  else if b = 0xED then 0x80 ≤ next && next ≤ 0x9F
  else if b = 0xF0 then 0x90 ≤ next && next ≤ 0xBF
  else if b = 0xF4 then 0x80 ≤ next && next ≤ 0x8F
  else isCont next

/-- How many bytes one U+FFFD stands for at `b :: bs`, when no character starts there. -/
def invalidLength (b : UInt8) (bs : List UInt8) : Nat :=
  if 0xE0 ≤ b && b ≤ 0xF4 then
    match bs with
    | [] => 1
    | next :: bs =>
      if followsLead b next then
        if 0xF0 ≤ b then
          match bs with
          | [] => 2
          | third :: _ => if isCont third then 3 else 2
        else 2
      else 1
  else 1

/-- `fuel` bounds the characters that are read. -/
def lossyFrom : Nat → List UInt8 → Text
  | 0, _ => []
  | _ + 1, [] => []
  | fuel + 1, b :: bs =>
    match (b :: bs).toByteArray.utf8DecodeChar? 0 with
    | some c => c :: lossyFrom fuel ((b :: bs).drop c.utf8Size)
    | none => '\uFFFD' :: lossyFrom fuel ((b :: bs).drop (invalidLength b bs))

/-- `String::from_utf8_lossy`. -/
def fromUtf8Lossy (bytes : List UInt8) : Text := lossyFrom bytes.length bytes

theorem lossyFrom_encode (t : Text) (fuel : Nat) (h : t.length ≤ fuel) :
    lossyFrom fuel (encode t) = t := by
  induction t generalizing fuel with
  | nil => cases fuel <;> rfl
  | cons c t ih =>
      obtain ⟨fuel, rfl⟩ : ∃ n, fuel = n + 1 := ⟨fuel - 1, by rw [List.length_cons] at h; omega⟩
      have hdecode : (encode (c :: t)).toByteArray.utf8DecodeChar? 0 = some c :=
        List.utf8DecodeChar?_utf8Encode_cons
      have hdrop : (encode (c :: t)).drop c.utf8Size = encode t := by
        rw [encode_cons, ← String.length_utf8EncodeChar, List.drop_left]
      have hrest := ih fuel (by rw [List.length_cons] at h; omega)
      cases hbytes : encode (c :: t) with
      | nil =>
          have hsize := congrArg List.length hbytes
          have hc := c.utf8Size_pos
          simp at hsize
          omega
      | cons b bs =>
          rw [hbytes] at hdecode hdrop
          rw [lossyFrom, hdecode]
          simp only [hdrop, hrest]

/-- The image of a text is read back. -/
theorem fromUtf8Lossy_encode (t : Text) : fromUtf8Lossy (encode t) = t :=
  lossyFrom_encode t _ (by rw [length_encode]; exact length_le_size t)

theorem invalidLength_pos (b : UInt8) (bs : List UInt8) : 0 < invalidLength b bs := by
  unfold invalidLength
  repeat' split
  all_goals omega

/-- A byte string grows at most threefold. -/
theorem size_fromUtf8Lossy_le (bytes : List UInt8) :
    size (fromUtf8Lossy bytes) ≤ 3 * bytes.length := by
  suffices h : ∀ fuel bytes, size (lossyFrom fuel bytes) ≤ 3 * bytes.length from h _ _
  intro fuel
  induction fuel with
  | zero => simp [lossyFrom]
  | succ fuel ih =>
      intro bytes
      cases bytes with
      | nil => simp [lossyFrom]
      | cons b bs =>
          rw [lossyFrom]
          split
          · rename_i c hc
            have hle := ByteArray.le_size_of_utf8DecodeChar?_eq_some hc
            have hrest := ih ((b :: bs).drop c.utf8Size)
            have hpos := c.utf8Size_pos
            rw [List.length_drop] at hrest
            rw [size_cons]
            simp at hle hrest ⊢
            omega
          · have hpos := invalidLength_pos b bs
            have hrest := ih ((b :: bs).drop (invalidLength b bs))
            have hchar : '\uFFFD'.utf8Size = 3 := rfl
            rw [List.length_drop, List.length_cons] at hrest
            rw [size_cons, hchar, List.length_cons]
            omega

/-- A byte that is no character takes three bytes when it is written again. -/
example : size (fromUtf8Lossy [0xFF]) = 3 := by decide

/-! ## Cutting -/

/-- Whether a character ends at byte `i`. -/
def isCharBoundary : Text → Nat → Bool
  | _, 0 => true
  | [], _ + 1 => false
  | c :: t, i => c.utf8Size ≤ i && isCharBoundary t (i - c.utf8Size)

/-- The last boundary at or before byte `i`. -/
def boundaryFrom (t : Text) : Nat → Nat
  | 0 => 0
  | i + 1 => if isCharBoundary t (i + 1) then i + 1 else boundaryFrom t i

/-- The characters before byte `i`. -/
def truncate : Text → Nat → Text
  | [], _ => []
  | c :: t, i => if c.utf8Size ≤ i then c :: truncate t (i - c.utf8Size) else []

theorem truncate_prefix (t : Text) (i : Nat) : truncate t i <+: t := by
  induction t generalizing i with
  | nil => exact List.prefix_rfl
  | cons c t ih =>
      rw [truncate]
      split
      · exact List.cons_prefix_cons.mpr ⟨rfl, ih _⟩
      · exact List.nil_prefix

theorem size_truncate_le (t : Text) (i : Nat) : size (truncate t i) ≤ i := by
  induction t generalizing i with
  | nil => simp [truncate]
  | cons c t ih =>
      rw [truncate]
      split
      · have hrest := ih (i - c.utf8Size)
        rw [size_cons]
        omega
      · exact Nat.zero_le i

theorem boundaryFrom_le (t : Text) (i : Nat) : boundaryFrom t i ≤ i := by
  induction i with
  | zero => exact Nat.le_refl 0
  | succ i ih =>
      rw [boundaryFrom]
      split
      · exact Nat.le_refl _
      · exact Nat.le_succ_of_le ih

theorem le_boundaryFrom {t : Text} {i j : Nat} (hj : isCharBoundary t j = true) (hji : j ≤ i) :
    j ≤ boundaryFrom t i := by
  induction i with
  | zero => exact hji
  | succ i ih =>
      rw [boundaryFrom]
      split
      · exact hji
      · rename_i hno
        refine ih (Nat.le_of_lt_succ (Nat.lt_of_le_of_ne hji ?_))
        rintro rfl
        exact hno hj

/-- The first character of a text ends at a boundary. -/
theorem isCharBoundary_head (c : Char) (t : Text) :
    isCharBoundary (c :: t) c.utf8Size = true := by
  have hc := c.utf8Size_pos
  cases hsize : c.utf8Size with
  | zero => omega
  | succ n => simp [isCharBoundary, hsize]

/-- A cut after the first character leaves something. -/
theorem truncate_boundaryFrom_ne_nil {t : Text} {i : Nat} (ht : t ≠ []) (hi : 4 ≤ i) :
    truncate t (boundaryFrom t i) ≠ [] := by
  cases t with
  | nil => exact absurd rfl ht
  | cons c t =>
      have hc : c.utf8Size ≤ i := Nat.le_trans c.utf8Size_le_four hi
      rw [truncate, if_pos (le_boundaryFrom (isCharBoundary_head c t) hc)]
      exact List.cons_ne_nil _ _

end Utf8
