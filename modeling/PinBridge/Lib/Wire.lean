import PinBridge.Lib.LittleEndian

/-!
# Reading what was written

A reader consumes bytes from the front of its input and returns a value, or fails.  `take`,
`word`, `block` and `many` are the readers of `n` bytes, of a little-endian word, of a byte
string behind its length, and of `n` rows.

`Reads p bytes a` says that `p` reads `a` from `bytes` whatever comes after them, and leaves
what comes after.  Readers compose as their images do (`Reads.bind`), so that a format is
proved field by field in the order in which it is written.
-/

namespace Wire

open LittleEndian

variable {ε α β : Type}

/-- Readers that fail with an `ε`. -/
abbrev Reader (ε : Type) := StateT (List UInt8) (Except ε)

/-! ## Readers -/

/-- The next `n` bytes. -/
def take (e : ε) (n : Nat) : Reader ε (List UInt8) := fun bs =>
  if bs.length < n then .error e else .ok (bs.take n, bs.drop n)

/-- The next little-endian word of `w` bytes. -/
def word (e : ε) (w : Nat) : Reader ε Nat := do
  let bs ← take e w
  pure (decode bs)

/-- The next byte string, behind a length of `w` bytes. -/
def block (e : ε) (w : Nat) : Reader ε (List UInt8) := do
  let n ← word e w
  take e n

/-- The next `n` rows. -/
def many (p : Reader ε α) : Nat → Reader ε (List α)
  | 0 => pure []
  | n + 1 => do
      let a ← p
      let as ← many p n
      pure (a :: as)

/-- Whether no byte is left. -/
def atEnd : Reader ε Bool := fun bs => .ok (bs.isEmpty, bs)

/-- What was computed elsewhere. -/
def lift (r : Except ε α) : Reader ε α := fun bs => r.map fun a => (a, bs)

/-- Fails with `e` unless the condition holds. -/
def check (b : Bool) (e : ε) : Reader ε Unit := lift (if b then .ok () else .error e)

/-- The bytes that are left, which stay where they are. -/
def remaining : Reader ε (List UInt8) := fun bs => .ok (bs, bs)

theorem word_apply (e : ε) (w : Nat) (bs : List UInt8) :
    word e w bs = if bs.length < w then .error e else .ok (decode (bs.take w), bs.drop w) := by
  have hread : word e w bs = (take e w bs).bind fun r => .ok (decode r.1, r.2) := rfl
  rw [hread, take]
  split <;> rfl

/-! ## What a reader reads -/

/-- `p` reads `a` from `bytes` and leaves what comes after them. -/
def Reads (p : Reader ε α) (bytes : List UInt8) (a : α) : Prop :=
  ∀ rest, p (bytes ++ rest) = .ok (a, rest)

variable {p : Reader ε α} {bytes : List UInt8} {a : α}

theorem Reads.run (h : Reads p bytes a) : p bytes = .ok (a, []) := by
  have hrun := h []
  rwa [List.append_nil] at hrun

theorem Reads.pure (a : α) : Reads (ε := ε) (Pure.pure a) [] a := fun _ => rfl

theorem Reads.bind {f : α → Reader ε β} {bytes' : List UInt8} {b : β} (hp : Reads p bytes a)
    (hf : Reads (f a) bytes' b) : Reads (p >>= f) (bytes ++ bytes') b := by
  intro rest
  show (p (bytes ++ bytes' ++ rest)).bind _ = _
  rw [List.append_assoc, hp]
  exact hf rest

/-- A reader followed by a function of what it reads. -/
theorem Reads.map {f : α → β} (hp : Reads p bytes a) :
    Reads (p >>= fun a => Pure.pure (f a)) bytes (f a) := by
  have h := hp.bind (f := fun a => Pure.pure (f a)) (Reads.pure (f a))
  rwa [List.append_nil] at h

theorem Reads.fmap (f : α → β) (hp : Reads p bytes a) : Reads (f <$> p) bytes (f a) := by
  rw [map_eq_pure_bind]
  exact hp.map

theorem reads_take (e : ε) (bytes : List UInt8) : Reads (take e bytes.length) bytes bytes := by
  intro rest
  have hlen : ¬ (bytes ++ rest).length < bytes.length := by
    rw [List.length_append]
    omega
  rw [take, if_neg hlen, List.take_left' rfl, List.drop_left' rfl]

theorem reads_word (e : ε) {w n : Nat} (h : n < 256 ^ w) : Reads (word e w) (encode w n) n := by
  have htake := reads_take e (encode w n)
  rw [length_encode] at htake
  have hword := htake.map (f := decode)
  rwa [decode_encode_of_lt h] at hword

theorem reads_block (e : ε) {w : Nat} {bytes : List UInt8} (h : bytes.length < 256 ^ w) :
    Reads (block e w) (encode w bytes.length ++ bytes) bytes :=
  (reads_word e h).bind (reads_take e bytes)

/-- Rows that are read one by one are read as a list. -/
theorem reads_many {image : β → List UInt8} {value : β → α} {rows : List β}
    (h : ∀ row ∈ rows, Reads p (image row) (value row)) :
    Reads (many p rows.length) (rows.flatMap image) (rows.map value) := by
  induction rows with
  | nil => exact Reads.pure []
  | cons row rows ih =>
      obtain ⟨hrow, hrows⟩ := List.forall_mem_cons.mp h
      rw [List.flatMap_cons, List.length_cons, many]
      exact hrow.bind ((ih hrows).map (f := fun as => value row :: as))

/-- A reader that is skipped at the end of the input is not skipped before its bytes. -/
theorem Reads.unless_atEnd (q : Reader ε α) (hp : Reads p bytes a) (h : bytes ≠ []) :
    Reads (atEnd >>= fun done => if done = true then q else p) bytes a := by
  intro rest
  obtain ⟨b, bs, rfl⟩ := List.exists_cons_of_ne_nil h
  exact hp rest

/-! ## What a reader yields -/

/-- Whatever `p` reads, its value has the property. -/
def Yields (p : Reader ε α) (P : α → Prop) : Prop := ∀ bs a rest, p bs = .ok (a, rest) → P a

theorem Yields.pure {P : α → Prop} (h : P a) : Yields (ε := ε) (Pure.pure a) P := by
  rintro bs _ _ ⟨⟩
  exact h

/-- The property may use what an earlier reader yields. -/
theorem Yields.seq {Q : α → Prop} {P : β → Prop} {f : α → Reader ε β} (hp : Yields p Q)
    (h : ∀ a, Q a → Yields (f a) P) : Yields (p >>= f) P := by
  intro bs b rest hrun
  cases hread : p bs with
  | error e =>
      have hbind : (p >>= f) bs = .error e := by
        show (p bs).bind _ = _
        rw [hread]
        rfl
      rw [hbind] at hrun
      cases hrun
  | ok r =>
      have hbind : (p >>= f) bs = f r.1 r.2 := by
        show (p bs).bind _ = _
        rw [hread]
        rfl
      rw [hbind] at hrun
      exact h r.1 (hp bs r.1 r.2 hread) r.2 b rest hrun

theorem Yields.bind {P : β → Prop} {f : α → Reader ε β} (h : ∀ a, Yields (f a) P) :
    Yields (p >>= f) P :=
  Yields.seq (Q := fun _ => True) (fun _ _ _ _ => trivial) fun a _ => h a

theorem Yields.check (b : Bool) (e : ε) : Yields (check b e) fun _ => b = true := by
  intro bs u rest hrun
  cases b with
  | true => rfl
  | false => cases hrun

theorem Yields.lift {r : Except ε α} {P : α → Prop} (h : ∀ a, r = .ok a → P a) :
    Yields (lift r) P := by
  intro bs a rest hrun
  cases r with
  | error e => cases hrun
  | ok value =>
      cases hrun
      exact h a rfl

end Wire
