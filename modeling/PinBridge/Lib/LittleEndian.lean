import Mathlib.Data.List.Basic
import Mathlib.Data.List.Forall2
import Mathlib.Tactic.Ring

/-!
# Little-endian words and fixed layouts

`encode w n` is the `w`-byte little-endian image of `n`, and `decode` reads such
an image back.  A *layout* is a list of field widths.  `pack` writes a list of
field values one after the other, `unpack` reads them back.  Values in range
survive the round trip (`unpack_pack`), and every byte string of the right
length is the image of what it unpacks to (`pack_unpack`).

`chunks n` cuts a byte string into blocks of `n` bytes, as a reader does that
asks for `n` bytes until it gets fewer.  `chunkTail n` is what is left over.  A row of blocks of one
length is cut at the multiples of that length (`take_drop_flatMap`).
-/

namespace LittleEndian

/-! ## One word -/

/-- The low `w` bytes of `n`, lowest first. -/
def encode : Nat → Nat → List UInt8
  | 0, _ => []
  | w + 1, n => UInt8.ofNat n :: encode w (n / 256)

/-- The number a little-endian byte string stands for. -/
def decode : List UInt8 → Nat
  | [] => 0
  | b :: bs => b.toNat + 256 * decode bs

@[simp] theorem length_encode (w n : Nat) : (encode w n).length = w := by
  induction w generalizing n with
  | zero => rfl
  | succ w ih => simp [encode, ih]

theorem decode_lt (bs : List UInt8) : decode bs < 256 ^ bs.length := by
  induction bs with
  | nil => simp [decode]
  | cons b bs ih =>
      have hb : b.toNat < 256 := b.toNat_lt
      simp only [decode, List.length_cons, Nat.pow_succ]
      omega

theorem decode_encode (w n : Nat) : decode (encode w n) = n % 256 ^ w := by
  induction w generalizing n with
  | zero => simp [decode, encode, Nat.mod_one]
  | succ w ih =>
      have hb : (UInt8.ofNat n).toNat = n % 256 := by simp
      rw [encode, decode, ih, hb, Nat.pow_succ', Nat.mod_mul]

/-- A value in range survives the round trip. -/
theorem decode_encode_of_lt {w n : Nat} (h : n < 256 ^ w) : decode (encode w n) = n := by
  rw [decode_encode, Nat.mod_eq_of_lt h]

theorem encode_decode (bs : List UInt8) : encode bs.length (decode bs) = bs := by
  induction bs with
  | nil => rfl
  | cons b bs ih =>
      have hb : b.toNat < 256 := b.toNat_lt
      have hlow : UInt8.ofNat (b.toNat + 256 * decode bs) = b := by
        apply UInt8.toNat_inj.mp
        simp
      have hhigh : (b.toNat + 256 * decode bs) / 256 = decode bs := by omega
      rw [List.length_cons, decode, encode, hlow, hhigh, ih]

/-! ## Layouts -/

/-- The values of a list, each in its field of the layout. -/
def pack : List Nat → List Nat → List UInt8
  | w :: ws, v :: vs => encode w v ++ pack ws vs
  | _, _ => []

/-- The field values of a byte string. -/
def unpack : List Nat → List UInt8 → List Nat
  | [], _ => []
  | w :: ws, bs => decode (bs.take w) :: unpack ws (bs.drop w)

theorem length_pack {ws vs : List Nat} (h : ws.length = vs.length) :
    (pack ws vs).length = ws.sum := by
  induction ws generalizing vs with
  | nil => rfl
  | cons w ws ih =>
      cases vs with
      | nil => simp at h
      | cons v vs => simp [pack, ih (Nat.succ.inj h)]

@[simp] theorem length_unpack (ws : List Nat) (bs : List UInt8) :
    (unpack ws bs).length = ws.length := by
  induction ws generalizing bs with
  | nil => rfl
  | cons w ws ih => simp [unpack, ih]

/-- Values that fit their fields are read back. -/
theorem unpack_pack {ws vs : List Nat} (h : List.Forall₂ (fun w v => v < 256 ^ w) ws vs) :
    unpack ws (pack ws vs) = vs := by
  induction h with
  | nil => rfl
  | @cons w v ws vs hv _ ih =>
      have htake : (encode w v ++ pack ws vs).take w = encode w v :=
        List.take_left' (length_encode w v)
      have hdrop : (encode w v ++ pack ws vs).drop w = pack ws vs :=
        List.drop_left' (length_encode w v)
      rw [pack, unpack, htake, hdrop, decode_encode_of_lt hv, ih]

/-- A byte string of the layout's length is the image of its field values. -/
theorem pack_unpack {ws : List Nat} {bs : List UInt8} (h : bs.length = ws.sum) :
    pack ws (unpack ws bs) = bs := by
  induction ws generalizing bs with
  | nil =>
      rw [List.sum_nil] at h
      rw [List.length_eq_zero_iff.mp h]
      rfl
  | cons w ws ih =>
      rw [List.sum_cons] at h
      have htake : (bs.take w).length = w := by rw [List.length_take]; omega
      have hword : encode w (decode (bs.take w)) = bs.take w := by
        have himage := encode_decode (bs.take w)
        rwa [htake] at himage
      rw [unpack, pack, hword, ih (by rw [List.length_drop]; omega), List.take_append_drop]

/-- Every field value read back fits its field. -/
theorem unpack_lt {ws : List Nat} {bs : List UInt8} (h : ws.sum ≤ bs.length) :
    List.Forall₂ (fun w v => v < 256 ^ w) ws (unpack ws bs) := by
  induction ws generalizing bs with
  | nil => exact .nil
  | cons w ws ih =>
      rw [List.sum_cons] at h
      refine .cons ?_ (ih (by rw [List.length_drop]; omega))
      have hlt := decode_lt (bs.take w)
      rwa [List.length_take, Nat.min_eq_left (by omega)] at hlt

/-! ## Blocks -/

/-- The full blocks of `n` bytes at the front of a byte string. -/
def chunks (n : Nat) (bs : List UInt8) : List (List UInt8) :=
  (List.range (bs.length / n)).map fun i => (bs.drop (i * n)).take n

/-- The bytes after the last full block. -/
def chunkTail (n : Nat) (bs : List UInt8) : List UInt8 := bs.drop (bs.length / n * n)

theorem length_of_mem_chunks {n : Nat} {bs c : List UInt8} (h : c ∈ chunks n bs) :
    c.length = n := by
  obtain ⟨i, hi, rfl⟩ := List.mem_map.mp h
  rw [List.mem_range] at hi
  have hle : (i + 1) * n ≤ bs.length :=
    le_trans (Nat.mul_le_mul_right n hi) (Nat.div_mul_le_self _ _)
  rw [Nat.add_mul] at hle
  rw [List.length_take, List.length_drop]
  omega

theorem chunks_append {n : Nat} (hn : 0 < n) {c bs : List UInt8} (hc : c.length = n) :
    chunks n (c ++ bs) = c :: chunks n bs := by
  have hlen : (c ++ bs).length / n = bs.length / n + 1 := by
    rw [List.length_append, hc, Nat.add_comm, Nat.add_div_right _ hn]
  unfold chunks
  rw [hlen, List.range_succ_eq_map, List.map_cons, List.map_map]
  congr 1
  · rw [Nat.zero_mul, List.drop_zero, List.take_left' hc]
  · refine List.map_congr_left fun i _ => ?_
    have hdrop : (c ++ bs).drop ((i + 1) * n) = bs.drop (i * n) := by
      rw [show (i + 1) * n = c.length + i * n by rw [hc]; ring, List.drop_length_add_append]
    exact congrArg (List.take n) hdrop

theorem chunkTail_append {n : Nat} (hn : 0 < n) {c bs : List UInt8} (hc : c.length = n) :
    chunkTail n (c ++ bs) = chunkTail n bs := by
  have hlen : (c ++ bs).length / n = bs.length / n + 1 := by
    rw [List.length_append, hc, Nat.add_comm, Nat.add_div_right _ hn]
  unfold chunkTail
  rw [hlen, show (bs.length / n + 1) * n = c.length + bs.length / n * n by rw [hc]; ring,
    List.drop_length_add_append]

/-- A concatenation of blocks is cut back into them. -/
theorem chunks_flatten {n : Nat} (hn : 0 < n) {cs : List (List UInt8)}
    (h : ∀ c ∈ cs, c.length = n) : chunks n cs.flatten = cs ∧ chunkTail n cs.flatten = [] := by
  induction cs with
  | nil => simp [chunks, chunkTail]
  | cons c cs ih =>
      have hc : c.length = n := h c List.mem_cons_self
      obtain ⟨ih1, ih2⟩ := ih fun d hd => h d (List.mem_cons_of_mem _ hd)
      rw [List.flatten_cons]
      exact ⟨by rw [chunks_append hn hc, ih1], by rw [chunkTail_append hn hc, ih2]⟩

/-! ## Cutting in two -/

theorem chunks_of_short {n : Nat} {bs : List UInt8} (h : bs.length < n) : chunks n bs = [] := by
  rw [chunks, Nat.div_eq_of_lt h, List.range_zero, List.map_nil]

theorem chunkTail_of_short {n : Nat} {bs : List UInt8} (h : bs.length < n) :
    chunkTail n bs = bs := by
  rw [chunkTail, Nat.div_eq_of_lt h, Nat.zero_mul, List.drop_zero]

/-- What was cut off first and what is left over may be cut separately. -/
theorem chunks_append_tail {n : Nat} (hn : 0 < n) (as bs : List UInt8) :
    chunks n (as ++ bs) = chunks n as ++ chunks n (chunkTail n as ++ bs) ∧
      chunkTail n (as ++ bs) = chunkTail n (chunkTail n as ++ bs) := by
  induction hlen : as.length using Nat.strongRecOn generalizing as with
  | ind len ih =>
      rcases Nat.lt_or_ge as.length n with hshort | hlong
      · rw [chunks_of_short hshort, chunkTail_of_short hshort]
        exact ⟨rfl, rfl⟩
      · have htake : (as.take n).length = n := by rw [List.length_take]; omega
        have hdrop : (as.drop n).length < len := by rw [List.length_drop]; omega
        obtain ⟨ih1, ih2⟩ := ih _ hdrop (as.drop n) rfl
        have hchunks : chunks n (as.take n ++ as.drop n) = as.take n :: chunks n (as.drop n) :=
          chunks_append hn htake
        have htail : chunkTail n (as.take n ++ as.drop n) = chunkTail n (as.drop n) :=
          chunkTail_append hn htake
        rw [List.take_append_drop] at hchunks htail
        have hsplit : as ++ bs = as.take n ++ (as.drop n ++ bs) := by
          rw [← List.append_assoc, List.take_append_drop]
        rw [hchunks, htail, hsplit, chunks_append hn htake, chunkTail_append hn htake, ih1, ih2]
        exact ⟨rfl, rfl⟩

/-! ## Rows of blocks -/

/-- Cutting a row of blocks of one length gives a block. -/
theorem take_drop_flatMap {α : Type*} {w : Nat} {g : α → List UInt8} {l : List α}
    (hg : ∀ a, (g a).length = w) {i : Nat} {a : α} (ha : l[i]? = some a) :
    ((l.flatMap g).drop (w * i)).take w = g a := by
  induction l generalizing i with
  | nil => simp at ha
  | cons b l ih =>
      cases i with
      | zero =>
          obtain rfl : b = a := by simpa using ha
          rw [Nat.mul_zero, List.drop_zero, List.flatMap_cons, ← hg b, List.take_left]
      | succ i =>
          rw [List.flatMap_cons, Nat.mul_succ, Nat.add_comm, ← List.drop_drop, ← hg b,
            List.drop_left, hg b]
          exact ih (by simpa using ha)

theorem length_flatMap_of_length {α : Type*} {w : Nat} {g : α → List UInt8}
    (hg : ∀ a, (g a).length = w) (l : List α) : (l.flatMap g).length = w * l.length := by
  induction l with
  | nil => rfl
  | cons b l ih =>
      rw [List.flatMap_cons, List.length_append, hg, ih, List.length_cons, Nat.mul_succ,
        Nat.add_comm]

end LittleEndian
