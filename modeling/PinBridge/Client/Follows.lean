import PinBridge.Client.Reader

/-!
# Decoders that go through layouts

`Follows` says that a decoder goes through the bytes that are left as a walk does.  It is proved
from the operations of the reader upwards, in the order in which the decoders compose them.
-/

namespace PinBridge.Client

open Layouts (Layout Request Walk End)
open LittleEndian (decode)
open Query (maxFrame)
open Utf8 (Text fromUtf8Lossy)

variable {α β : Type}

/-! ## Decoders and layouts -/

/-- The decoder goes through the bytes that are left as the walk does.  It returns a value that the
counts on the walk belong to.  A whole decoder may refuse what it has read, and where a length does
not fit a `usize` it may return a value that the counts do not belong to. -/
def Follows (whole : Bool) (w : ℕ) (d : Decode α) (walk : List UInt8 → Walk)
    (R : α → List ℕ → Prop) : Prop :=
  ∀ ⦃m : Machine⦄, m.Ok → ∃ outcome m', d w m = (outcome, m') ∧
    m'.requests = m.requests ++ (walk m.rest).requests ∧
    match (walk m.rest).last with
    | .rest bytes =>
        (∃ a, outcome = .ok a ∧ R a (walk m.rest).counts ∧
          (whole = false → m'.Ok ∧ m'.rest = bytes)) ∨
        whole = true ∧ ∃ message, outcome = .error (.error message)
    | .refused => ∃ message, outcome = .error (.error message)
    | .overflow => outcome = .error .fault ∨
        whole = true ∧ ∃ a, outcome = .ok a ∧ ¬ R a (walk m.rest).counts

section

variable {w : ℕ} {whole : Bool} {d : Decode α} {walk : List UInt8 → Walk}
  {R : α → List ℕ → Prop}

/-- Nothing is read. -/
theorem follows_pure {a : α} (h : R a []) :
    Follows whole w (pure a) (fun bytes => .ending (.rest bytes)) R := by
  intro m hm
  exact ⟨.ok a, m, rfl, (List.append_nil _).symm, .inl ⟨a, rfl, h, fun _ => ⟨hm, rfl⟩⟩⟩

/-- One decoder after the other. -/
theorem Follows.bind {k : α → Decode β} {walk' : List UInt8 → Walk} {R' : β → List ℕ → Prop}
    (hd : Follows false w d walk R)
    (hk : ∀ a cs, R a cs → Follows whole w (k a) walk' fun b cs' => R' b (cs ++ cs')) :
    Follows whole w (d >>= k) (fun bytes => (walk bytes).andThen walk') R' := by
  intro m hm
  obtain ⟨outcome, m', hrun, hrequests, hagree⟩ := hd hm
  beta_reduce
  cases hlast : (walk m.rest).last with
  | rest bytes =>
      rw [hlast] at hagree
      obtain ⟨a, rfl, hR, hstay⟩ := hagree.resolve_right fun h => nomatch h.1
      obtain ⟨hok, rfl⟩ := hstay rfl
      obtain ⟨outcome', m'', hrun', hrequests', hagree'⟩ := hk a _ hR hok
      refine ⟨outcome', m'', by rw [bind_ok hrun, hrun'], ?_⟩
      rw [Walk.andThen_rest hlast]
      refine ⟨?_, hagree'⟩
      dsimp only
      rw [hrequests', hrequests, List.append_assoc]
  | refused =>
      rw [hlast] at hagree
      obtain ⟨message, rfl⟩ := hagree
      refine ⟨_, m', bind_error hrun, ?_⟩
      rw [Walk.andThen_refused hlast]
      exact ⟨hrequests, message, rfl⟩
  | overflow =>
      rw [hlast] at hagree
      obtain rfl := hagree.resolve_right fun h => nomatch h.1
      refine ⟨_, m', bind_error hrun, ?_⟩
      rw [Walk.andThen_overflow hlast]
      exact ⟨hrequests, .inl rfl⟩

/-- What is computed from what a decoder returns. -/
theorem Follows.map {f : α → β} {R' : β → List ℕ → Prop} (hd : Follows false w d walk R)
    (hR : ∀ a cs, R a cs → R' (f a) cs) :
    Follows whole w (d >>= fun a => pure (f a)) walk R' := by
  have hbind : Follows whole w (d >>= fun a => pure (f a))
      (fun bytes => (walk bytes).andThen fun bytes => .ending (.rest bytes)) R' :=
    hd.bind fun a cs hcs => follows_pure (by rw [List.append_nil]; exact hR a cs hcs)
  simp only [Walk.andThen_ending] at hbind
  exact hbind

theorem Follows.mono {R' : α → List ℕ → Prop} (hd : Follows false w d walk R)
    (hR : ∀ a cs, R a cs → R' a cs) : Follows whole w d walk R' := by
  have hmap : Follows whole w (d >>= fun a => pure a) walk R' := hd.map hR
  rwa [bind_pure] at hmap

/-! ## The operations -/

variable {k : α → Decode β} {walk' : ℕ → List UInt8 → Walk} {R' : β → List ℕ → Prop}

/-- A decoder reads a number of `n` bytes. -/
structure Reads (w n : ℕ) (d : Decode α) (value : α → ℕ) : Prop where
  short : ∀ {m : Machine}, m.Ok → m.rest.length < n →
    ∃ message, d w m = (.error (.error message), m)
  long : ∀ {m : Machine}, m.Ok → ¬m.rest.length < n →
    ∃ a, value a = decode (m.rest.take n) ∧ d w m = (.ok a, { m with pos := m.pos + n })

/-- The number decides how the decoder goes on. -/
theorem Reads.follows {n : ℕ} {d : Decode α} {value : α → ℕ} (hd : Reads w n d value)
    (hk : ∀ a, Follows whole w (k a) (walk' (value a)) R') :
    Follows whole w (d >>= k) (fun bytes => Layout.next n bytes walk') R' := by
  intro m hm
  beta_reduce
  rw [Layout.next]
  split
  next hshort =>
    obtain ⟨message, hrun⟩ := hd.short hm hshort
    exact ⟨_, m, bind_error hrun, (List.append_nil _).symm, message, rfl⟩
  next hlong =>
    obtain ⟨a, hvalue, hrun⟩ := hd.long hm hlong
    obtain ⟨hok, hrest⟩ := hm.advance hlong
    obtain ⟨outcome, m', hnext, hagree⟩ := hk a hok
    rw [hrest, hvalue] at hagree
    exact ⟨outcome, m', (bind_ok hrun).trans hnext, hagree⟩

variable (hw : 32 ≤ w)
include hw

theorem Machine.Ok.word {m : Machine} (h : m.Ok) {n : ℕ} (hn : n ≤ 8) :
    word n w m = if m.rest.length < n then (.ok none, m)
      else (.ok (some (decode (m.rest.take n))), { m with pos := m.pos + n }) := by
  have hread := h.readBytes (h.add_lt hw (n := n) (by omega))
  split at hread
  next hshort => rw [if_pos hshort, Client.word, bind_ok hread]; rfl
  next hlong => rw [if_neg hlong, Client.word, bind_ok hread]; rfl

theorem Machine.Ok.u8 {m : Machine} (h : m.Ok) :
    u8 w m = if m.rest.length < 1 then (.ok none, m)
      else (.ok (some (UInt8.ofNat (decode (m.rest.take 1)))), { m with pos := m.pos + 1 }) := by
  have hget : (get : Decode Machine) w m = (.ok m, m) := rfl
  have hlt := h.add_lt hw (n := 1) (by omega)
  have hhead : m.bytes[m.pos]? = m.rest.head? := by
    rw [Machine.rest, List.head?_drop]
  rw [Client.u8, bind_ok hget, hhead]
  cases hrest : m.rest with
  | nil => rfl
  | cons byte bytes =>
      have hbyte : UInt8.ofNat (decode [byte]) = byte := by
        rw [decode, decode, Nat.mul_zero, Nat.add_zero, UInt8.ofNat_toNat]
      rw [if_neg (by rw [List.length_cons]; omega), List.take_succ_cons, List.take_zero, hbyte]
      dsimp only [List.head?_cons]
      rw [bind_ok (add_apply hlt)]
      rfl

/-! ### Numbers -/

theorem reads_u8 : Reads w 1 u8OrErr UInt8.toNat where
  short {m} hm hshort := ⟨_, orErr_none ((hm.u8 hw).trans (if_pos hshort))⟩
  long {m} hm hlong := by
    refine ⟨_, ?_, orErr_some ((hm.u8 hw).trans (if_neg hlong))⟩
    have hlt := LittleEndian.decode_lt (m.rest.take 1)
    rw [List.length_take_of_le (Nat.not_lt.mp hlong)] at hlt
    exact UInt8.toNat_ofNat_of_lt' hlt

/-- A number of at most eight bytes. -/
theorem reads_word {n : ℕ} {ofNat : ℕ → α} {value : α → ℕ} (hn : n ≤ 8)
    (hvalue : ∀ v < 256 ^ n, value (ofNat v) = v) :
    Reads w n (ofNat <$> orErr (word n) "short payload") value where
  short {m} hm hshort := by
    have hword : orErr (word n) "short payload" w m = (.error (.error "short payload"), m) :=
      orErr_none ((hm.word hw hn).trans (if_pos hshort))
    rw [map_apply]
    exact ⟨_, bind_error hword⟩
  long {m} hm hlong := by
    have hword : orErr (word n) "short payload" w m = (.ok (decode (m.rest.take n)), _) :=
      orErr_some ((hm.word hw hn).trans (if_neg hlong))
    have hlt := LittleEndian.decode_lt (m.rest.take n)
    rw [List.length_take_of_le (Nat.not_lt.mp hlong)] at hlt
    rw [map_apply]
    exact ⟨_, hvalue _ hlt, bind_ok hword⟩

theorem reads_u16 : Reads w 2 u16OrErr UInt16.toNat :=
  reads_word hw (by decide) fun _ => UInt16.toNat_ofNat_of_lt'

theorem reads_u32 : Reads w 4 u32OrErr UInt32.toNat :=
  reads_word hw (by decide) fun _ => UInt32.toNat_ofNat_of_lt'

theorem reads_u64 : Reads w 8 u64OrErr UInt64.toNat :=
  reads_word hw (by decide) fun _ => UInt64.toNat_ofNat_of_lt'

end

/-! ## Layouts -/

section

variable {w : ℕ} {whole : Bool} {layouts : List Layout} {R : α → List ℕ → Prop}

theorem walk_all_nil (w : ℕ) :
    (Layout.all []).walk w = fun bytes => .ending (.rest bytes) := by
  funext bytes
  show Walk.ending (Layout.pass 0 bytes) = _
  rw [Layout.pass, if_neg (Nat.not_lt_zero _), List.drop_zero]

theorem walk_all_fixed (w n : ℕ) (layouts : List Layout) :
    (Layout.all (.fixed n :: layouts)).walk w =
      fun bytes => Layout.next n bytes fun _ => (Layout.all layouts).walk w := by
  funext bytes
  show (Walk.ending (Layout.pass n bytes)).andThen _ = _
  rw [Layout.next, Layout.pass]
  split
  next => rfl
  next => rfl

theorem walk_all_cons (w : ℕ) (layout : Layout) (layouts : List Layout) :
    (Layout.all (layout :: layouts)).walk w =
      fun bytes => (layout.walk w bytes).andThen ((Layout.all layouts).walk w) := rfl

theorem next_andThen (n : ℕ) (f : ℕ → List UInt8 → Walk) (next : List UInt8 → Walk) :
    (fun bytes => (Layout.next n bytes f).andThen next) =
      fun bytes => Layout.next n bytes fun v rest => (f v rest).andThen next := by
  funext bytes
  rw [Layout.next, Layout.next]
  split
  next => rfl
  next => rfl

theorem walk_all_single (w : ℕ) (layout : Layout) :
    (Layout.all [layout]).walk w = layout.walk w := by
  rw [walk_all_cons, walk_all_nil]
  exact funext fun bytes => Walk.andThen_ending _

theorem walk_all_rows (w width gap : ℕ) (layout : Layout) (layouts : List Layout) :
    (Layout.all (.rows width none gap layout :: layouts)).walk w = fun bytes =>
      Layout.next width bytes fun n rest => (Walk.ending (Layout.pass gap rest)).andThen fun rest =>
        ((Walk.times (layout.walk w) n rest).counting n
          [⟨n % 2 ^ w, layout.least, rest.length⟩]).andThen ((Layout.all layouts).walk w) := by
  rw [walk_all_cons]
  refine (next_andThen width _ _).trans (funext fun bytes => ?_)
  congr 1
  funext n rest
  exact Walk.andThen_assoc _ _ _

/-- Nothing lies between a count and its rows. -/
theorem pass_zero_andThen (next : List UInt8 → Walk) (bytes : List UInt8) :
    (Walk.ending (Layout.pass 0 bytes)).andThen next = next bytes := by
  rw [Layout.pass, if_neg (Nat.not_lt_zero _), List.drop_zero]
  rfl

/-- Bytes that are passed in two parts. -/
theorem pass_add_andThen (m n : ℕ) (next : List UInt8 → Walk) (bytes : List UInt8) :
    (Walk.ending (Layout.pass (m + n) bytes)).andThen next =
      Layout.next m bytes fun _ rest => (Walk.ending (Layout.pass n rest)).andThen next := by
  rw [Layout.next, Layout.pass]
  by_cases hm : bytes.length < m
  · rw [if_pos (by omega), if_pos hm]
    rfl
  · rw [if_neg hm, Layout.pass, List.length_drop]
    by_cases hn : bytes.length < m + n
    · rw [if_pos hn, if_pos (by omega)]
    · rw [if_neg hn, if_neg (by omega), List.drop_drop]

/-- A layout whose first fields are too short for the bytes. -/
theorem walk_all_short (w : ℕ) (layouts : List Layout) (widths : List ℕ) :
    ∀ {bytes : List UInt8}, bytes.length < widths.sum →
      (Layout.all (widths.map .fixed ++ layouts)).walk w bytes = .ending .refused := by
  induction widths with
  | nil => exact fun h => absurd h (Nat.not_lt_zero _)
  | cons n widths ih =>
      intro bytes h
      rw [List.map_cons, List.cons_append, walk_all_fixed]
      beta_reduce
      rw [Layout.next]
      split
      next => rfl
      next hlong =>
        rw [List.sum_cons] at h
        exact ih (by rw [List.length_drop]; omega)

/-- The decoder returns. -/
theorem follows_return {a : α} (h : R a []) :
    Follows whole w (pure a) ((Layout.all []).walk w) R := by
  rw [walk_all_nil]
  exact follows_pure h

/-- A field without rows, and the fields behind it. -/
theorem Follows.field {d : Decode α} {layout : Layout} {k : α → Decode β}
    {R' : β → List ℕ → Prop} (hd : Follows false w d (layout.walk w) fun _ cs => cs = [])
    (hk : ∀ a, Follows whole w (k a) ((Layout.all layouts).walk w) R') :
    Follows whole w (d >>= k) ((Layout.all (layout :: layouts)).walk w) R' := by
  rw [walk_all_cons]
  refine hd.bind fun a cs hcs => ?_
  subst hcs
  exact hk a

variable (hw : 32 ≤ w)
include hw

omit hw in
theorem Reads.field {n : ℕ} {d : Decode α} {value : α → ℕ} {k : α → Decode β}
    {R' : β → List ℕ → Prop} (hd : Reads w n d value)
    (hk : ∀ a, Follows whole w (k a) ((Layout.all layouts).walk w) R') :
    Follows whole w (d >>= k) ((Layout.all (.fixed n :: layouts)).walk w) R' := by
  rw [walk_all_fixed]
  exact hd.follows hk

/-! ### Strings -/

/-- A byte string whose length has been read, and what is computed from it. -/
theorem follows_part {n : ℕ} {short late : String} {k : List UInt8 → Decode β}
    {walk' : List UInt8 → Walk} {R' : β → List ℕ → Prop}
    (hk : ∀ part, Follows whole w (k part) walk' R') :
    Follows whole w (do
        let rest ← remaining
        if rest.length < n then refuse short
        else
          let part ← slice rest 0 n
          orErr (skip n) late
          k part)
      (fun bytes => (Walk.ending (Layout.pass n bytes)).andThen walk') R' := by
  intro m hm
  beta_reduce
  rw [bind_ok hm.remaining, Layout.pass]
  split
  next hshort =>
    exact ⟨_, m, rfl, (List.append_nil _).symm, short, rfl⟩
  next hlong =>
    have hslice : slice m.rest 0 n w m = (.ok (m.rest.take n), m) := by
      rw [slice_apply (Nat.zero_le _) (Nat.not_lt.mp hlong), List.drop_zero]
    have hread := hm.readBytes (hm.add_lt hw (n := n) (by omega))
    rw [if_neg hlong] at hread
    have hskip : skip n w m = (.ok (some ()), { m with pos := m.pos + n }) := by
      rw [skip, bind_ok hread]
      rfl
    obtain ⟨hok, hrest⟩ := hm.advance hlong
    obtain ⟨outcome, m', hrun, hagree⟩ := hk (m.rest.take n) hok
    rw [hrest] at hagree
    refine ⟨outcome, m', ?_, hagree⟩
    rw [bind_ok hslice, bind_ok (orErr_some hskip), hrun]

/-- A byte string behind its length of 32 bits. -/
theorem field_part {short late : String} {k : List UInt8 → Decode β} {R' : β → List ℕ → Prop}
    (hk : ∀ part, Follows whole w (k part) ((Layout.all layouts).walk w) R') :
    Follows whole w (do
        let n ← u32OrErr
        let rest ← remaining
        if rest.length < n.toNat then refuse short
        else
          let part ← slice rest 0 n.toNat
          orErr (skip n.toNat) late
          k part)
      ((Layout.all (.block 4 :: layouts)).walk w) R' := by
  have hwalk : (Layout.all (.block 4 :: layouts)).walk w = fun bytes =>
      Layout.next 4 bytes fun n rest =>
        (Walk.ending (Layout.pass n rest)).andThen ((Layout.all layouts).walk w) := by
    rw [walk_all_cons]
    exact next_andThen 4 _ _
  rw [hwalk]
  exact (reads_u32 hw).follows fun _ => follows_part hw hk

/-- `read_layout_string`. -/
theorem follows_readLayoutString (label : String) :
    Follows false w (readLayoutString label) ((Layout.block 4).walk w) fun _ cs => cs = [] := by
  rw [← walk_all_single]
  exact field_part hw fun _ => follows_return rfl

theorem Machine.Ok.readShortStr {m : Machine} (h : m.Ok) :
    readShortStr w m =
      let n := decode (m.rest.take 2)
      if m.rest.length < 2 ∨ (m.rest.drop 2).length < n then (.error (.error "short string"), m)
      else (.ok (fromUtf8Lossy ((m.rest.drop 2).take n)), { m with pos := m.pos + (2 + n) }) := by
  rw [Client.readShortStr, bind_ok h.remaining]
  by_cases hhead : m.rest.length < 2
  · rw [if_pos hhead, if_pos (.inl hhead)]
    rfl
  · have hlen : slice m.rest 0 2 w m = (.ok (m.rest.take 2), m) := by
      rw [slice_apply (by decide) (Nat.not_lt.mp hhead), List.drop_zero]
    have hbody : slice m.rest 2 m.rest.length w m = (.ok (m.rest.drop 2), m) := by
      rw [slice_apply (Nat.not_lt.mp hhead) (Nat.le_refl _), List.take_length]
    rw [if_neg hhead, bind_ok hlen, bind_ok hbody]
    generalize decode (m.rest.take 2) = n
    dsimp only
    by_cases hshort : (m.rest.drop 2).length < n
    · rw [if_pos hshort, if_pos (.inr hshort)]
      rfl
    · have hlength : (m.rest.drop 2).length = m.rest.length - 2 := List.length_drop ..
      have hread := h.readBytes (h.add_lt hw (n := 2 + n) (by omega))
      rw [if_neg (by omega)] at hread
      have hskip : skip (2 + n) w m = (.ok (some ()), { m with pos := m.pos + (2 + n) }) := by
        rw [skip, bind_ok hread]
        rfl
      have hadd : 2 + n < 2 ^ w := by
        have := h.add_lt hw (n := 2 + n) (by omega)
        omega
      have htext : slice (m.rest.drop 2) 0 n w m = (.ok ((m.rest.drop 2).take n), m) := by
        rw [slice_apply (Nat.zero_le _) (Nat.not_lt.mp hshort), List.drop_zero]
      rw [if_neg hshort, if_neg (not_or.mpr ⟨hhead, hshort⟩), bind_ok htext,
        bind_ok (add_apply hadd), bind_ok (orErr_some hskip)]
      rfl

/-- `read_short_str`. -/
theorem follows_readShortStr :
    Follows false w readShortStr ((Layout.block 2).walk w) fun _ cs => cs = [] := by
  intro m hm
  have hwalk : (Layout.block 2).walk w m.rest =
      Layout.next 2 m.rest fun length rest => .ending (Layout.pass length rest) := rfl
  have hrun := hm.readShortStr hw
  rw [hwalk, Layout.next]
  generalize decode (m.rest.take 2) = n at hrun ⊢
  dsimp only at hrun
  by_cases hhead : m.rest.length < 2
  · rw [if_pos (.inl hhead)] at hrun
    rw [if_pos hhead]
    exact ⟨_, m, hrun, (List.append_nil _).symm, "short string", rfl⟩
  · rw [if_neg hhead, Layout.pass]
    by_cases hshort : (m.rest.drop 2).length < n
    · rw [if_pos (.inr hshort)] at hrun
      rw [if_pos hshort]
      exact ⟨_, m, hrun, (List.append_nil _).symm, "short string", rfl⟩
    · rw [if_neg (not_or.mpr ⟨hhead, hshort⟩)] at hrun
      rw [if_neg hshort]
      have hlength : (m.rest.drop 2).length = m.rest.length - 2 := List.length_drop ..
      obtain ⟨hok, hdrop⟩ := hm.advance (n := 2 + n) (by omega)
      refine ⟨_, _, hrun, (List.append_nil _).symm, .inl ⟨_, rfl, rfl, fun _ => ⟨hok, ?_⟩⟩⟩
      rw [hdrop, List.drop_drop]

/-! ### Rows -/

omit hw in
/-- Rows that are read one after the other. -/
theorem follows_times {d : Decode α} {walk : List UInt8 → Walk} {counts : α → List ℕ}
    (hd : Follows false w d walk fun a cs => counts a = cs) (n : ℕ) :
    Follows false w (times d n) (Walk.times walk n) fun as cs =>
      as.length = n ∧ as.flatMap counts = cs := by
  induction n with
  | zero => exact follows_pure ⟨rfl, rfl⟩
  | succ n ih =>
      refine hd.bind fun a cs hcs => ih.map fun as cs' hcs' => ?_
      rw [List.length_cons, List.flatMap_cons, hcs'.1, hcs, hcs'.2]
      exact ⟨rfl, rfl⟩

omit hw in
/-- A vector. -/
theorem follows_vec {d : Decode α} {layout : Layout} {counts : α → List ℕ} {least : ℕ}
    (hd : Follows false w d (layout.walk w) fun a cs => counts a = cs)
    (hleast : layout.least = least) (n : ℕ) :
    Follows false w (vec least d n)
      (fun rest => (Walk.times (layout.walk w) n rest).counting n
        [⟨n % 2 ^ w, layout.least, rest.length⟩])
      fun as cs => as.length :: as.flatMap counts = cs := by
  intro m hm
  generalize hrequest : (⟨n % 2 ^ w, layout.least, m.rest.length⟩ : Request) = request
  have hlength : m.rest.length = m.bytes.length - m.pos := List.length_drop ..
  have hcapacity : withCapacity n least w m =
      (.ok (), { m with requests := m.requests ++ [request] }) := by
    rw [← hrequest, hleast, hlength]
    rfl
  obtain ⟨outcome, m', hrun, hrequests, hagree⟩ :=
    follows_times hd n (m := { m with requests := m.requests ++ [request] }) ⟨hm.1, hm.2⟩
  have hrest : Machine.rest { m with requests := m.requests ++ [request] } = m.rest := rfl
  rw [hrest] at hrequests hagree
  refine ⟨outcome, m', (bind_ok hcapacity).trans hrun, ?_⟩
  beta_reduce
  rw [hrequest, Walk.counting]
  refine ⟨by rw [hrequests, List.append_assoc], ?_⟩
  dsimp only
  cases hlast : (Walk.times (layout.walk w) n m.rest).last with
  | rest bytes =>
      rw [hlast] at hagree
      obtain ⟨as, rfl, ⟨hlength, hcounts⟩, hstay⟩ := hagree.resolve_right fun h => nomatch h.1
      exact .inl ⟨as, rfl, by rw [hlength, hcounts], hstay⟩
  | refused =>
      rw [hlast] at hagree
      exact hagree
  | overflow =>
      rw [hlast] at hagree
      exact .inl (hagree.resolve_right fun h => nomatch h.1)

/-- The number of the rows, the rows, and the fields behind them. -/
theorem field_rows {row : Decode α} {layout : Layout} {counts : α → List ℕ} {least : ℕ}
    {k : List α → Decode β} {R' : β → List ℕ → Prop}
    (hrow : Follows false w row (layout.walk w) fun a cs => counts a = cs)
    (hleast : layout.least = least)
    (hk : ∀ as, Follows whole w (k as) ((Layout.all layouts).walk w)
      fun b cs => R' b (as.length :: as.flatMap counts ++ cs)) :
    Follows whole w (u32OrErr >>= fun count => vec least row count.toNat >>= k)
      ((Layout.all (.rows 4 none 0 layout :: layouts)).walk w) R' := by
  rw [walk_all_rows]
  simp only [pass_zero_andThen]
  refine (reads_u32 hw).follows fun count =>
    (follows_vec hrow hleast count.toNat).bind fun as cs hcs => ?_
  subst hcs
  exact hk as

end

end PinBridge.Client
