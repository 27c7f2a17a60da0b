import PinBridge.Client.Follows
import PinBridge.Client.Replies

/-!
# The rows of the client go through their layouts

Each decoder of a row follows the layout of the row, with the counts of the vectors in it.  A page
of records is read from the slice behind its count, so it is a whole decoder.
-/

namespace PinBridge.Client

open Layouts (Layout Request Walk End)

variable {α β : Type} {w : ℕ}

/-! ## Rows -/

section

variable (hw : 32 ≤ w)
include hw

theorem follows_bpEntry : Follows false w bpEntry (bpRow.walk w) fun _ cs => [] = cs :=
  (reads_u32 hw).field fun _ => (reads_u64 hw).field fun _ => (reads_u64 hw).field fun _ =>
    follows_return rfl

theorem follows_registerEntry :
    Follows false w registerEntry (registerRow.walk w) fun _ cs => [] = cs :=
  (reads_u32 hw).field fun _ => (reads_u64 hw).field fun _ => follows_return rfl

theorem follows_resolveEntry :
    Follows false w resolveEntry (resolveRow.walk w) fun _ cs => [] = cs :=
  (reads_u8 hw).field fun _ => (reads_u64 hw).field fun _ => (reads_u64 hw).field fun _ =>
    (follows_readShortStr hw).field fun _ => (follows_readShortStr hw).field fun _ =>
      follows_return rfl

theorem follows_exportEntry :
    Follows false w exportEntry (exportRow.walk w) fun _ cs => [] = cs :=
  (reads_u64 hw).field fun _ => (follows_readShortStr hw).field fun _ => follows_return rfl

theorem follows_outputEntry :
    Follows false w outputEntry (outputRow.walk w) fun _ cs => [] = cs :=
  (reads_u64 hw).field fun _ => (follows_readShortStr hw).field fun _ =>
    (follows_readShortStr hw).field fun _ => follows_return rfl

theorem follows_scriptEntry :
    Follows false w scriptEntry (scriptRow.walk w) fun _ cs => [] = cs :=
  (follows_readShortStr hw).field fun _ => (reads_u8 hw).field fun _ =>
    (reads_u64 hw).field fun _ => (reads_u64 hw).field fun _ => follows_return rfl

theorem follows_metadataEntry :
    Follows false w metadataEntry (metadataRow.walk w) fun _ cs => [] = cs :=
  (reads_u64 hw).field fun _ => (reads_u64 hw).field fun _ =>
    (follows_readShortStr hw).field fun _ => follows_return rfl

theorem follows_bindingEntry :
    Follows false w bindingEntry (bindingRow.walk w) fun _ cs => [] = cs :=
  (reads_u32 hw).field fun _ => (follows_readShortStr hw).field fun _ =>
    (follows_readShortStr hw).field fun _ => (follows_readShortStr hw).field fun _ =>
    (reads_u8 hw).field fun _ => (reads_u32 hw).field fun _ => (reads_u64 hw).field fun _ =>
    (follows_readShortStr hw).field fun _ => (follows_readShortStr hw).field fun _ =>
    (follows_readShortStr hw).field fun _ => follows_return rfl

theorem follows_regionEntry :
    Follows false w regionEntry (regionRow.walk w) fun _ cs => [] = cs :=
  (reads_u64 hw).field fun _ => (reads_u64 hw).field fun _ => (reads_u64 hw).field fun _ =>
    (reads_u32 hw).field fun _ => (reads_u32 hw).field fun _ => (reads_u32 hw).field fun _ =>
    (reads_u32 hw).field fun _ => follows_return rfl

theorem follows_sectionEntry :
    Follows false w sectionEntry (sectionRow.walk w) fun _ cs => [] = cs :=
  (reads_u64 hw).field fun _ => (reads_u64 hw).field fun _ => (reads_u32 hw).field fun _ =>
    (reads_u8 hw).field fun _ => (follows_readLayoutString hw _).field fun _ => follows_return rfl

theorem follows_moduleEntry :
    Follows false w moduleEntry (moduleRow.walk w) fun _ cs => [] = cs :=
  (reads_u64 hw).field fun _ => (reads_u64 hw).field fun _ => (reads_u8 hw).field fun _ =>
    field_part hw fun _ => follows_return rfl

/-- A row of `disasm`, whose two lengths are added. -/
theorem follows_disasmEntry :
    Follows false w disasmEntry (disasmRow.walk w) fun _ cs => [] = cs := by
  have hwalk : disasmRow.walk w = fun bytes => Layout.next 8 bytes fun _ rest =>
      Layout.next 4 rest fun size rest => Layout.next 4 rest fun _ rest =>
      Layout.next 8 rest fun _ rest => Layout.next 4 rest fun textLen rest =>
        if 2 ^ w ≤ textLen + size then .ending .overflow
        else .ending (Layout.pass (textLen + size) rest) := by
    rw [disasmRow, walk_all_fixed, walk_all_single]
    funext bytes
    congr 1
    funext _ rest
    show Layout.next 4 rest _ = _
    congr 1
    funext size rest
    rw [pass_add_andThen 4 8]
    congr 1
    funext _ rest
    rw [pass_add_andThen 8 0]
    simp only [pass_zero_andThen]
  rw [hwalk]
  refine (reads_u64 hw).follows fun address => (reads_u32 hw).follows fun size =>
    (reads_u32 hw).follows fun kind => (reads_u64 hw).follows fun target =>
    (reads_u32 hw).follows fun textLen => ?_
  intro m hm
  beta_reduce
  rw [bind_ok hm.remaining]
  split
  next hover => exact ⟨_, m, bind_error (add_fault hover), (List.append_nil _).symm, .inl rfl⟩
  next hfit =>
    rw [bind_ok (add_apply (Nat.not_le.mp hfit)), Layout.pass]
    split
    next hshort => exact ⟨_, m, rfl, (List.append_nil _).symm, "short disasm row", rfl⟩
    next hlong =>
      have hlength := Nat.not_lt.mp hlong
      have htext : slice m.rest 0 textLen.toNat w m = (.ok (m.rest.take textLen.toNat), m) := by
        rw [slice_apply (Nat.zero_le _) (by omega), List.drop_zero]
      have hbytes := slice_apply (w := w) (m := m) (Nat.le_add_right textLen.toNat size.toNat)
        hlength
      have hread := hm.readBytes (hm.add_lt hw (n := textLen.toNat + size.toNat) (by omega))
      rw [if_neg hlong] at hread
      have hskip : skip (textLen.toNat + size.toNat) w m =
          (.ok (some ()), { m with pos := m.pos + (textLen.toNat + size.toNat) }) := by
        rw [skip, bind_ok hread]
        rfl
      obtain ⟨hok, hrest⟩ := hm.advance hlong
      rw [bind_ok htext, bind_ok hbytes, bind_ok (orErr_some hskip)]
      exact ⟨_, _, rfl, (List.append_nil _).symm, .inl ⟨_, rfl, rfl, fun _ => ⟨hok, hrest⟩⟩⟩

theorem follows_u32Row :
    Follows false w u32OrErr ((Layout.fixed 4).walk w) fun _ cs => [] = cs := by
  have hfield : Follows false w (u32OrErr >>= fun a => pure a) ((Layout.all [.fixed 4]).walk w)
      fun _ cs => [] = cs := (reads_u32 hw).field fun a => follows_return rfl
  rw [walk_all_single, bind_pure] at hfield
  exact hfield

theorem follows_u64Row :
    Follows false w u64OrErr ((Layout.fixed 8).walk w) fun _ cs => [] = cs := by
  have hfield : Follows false w (u64OrErr >>= fun a => pure a) ((Layout.all [.fixed 8]).walk w)
      fun _ cs => [] = cs := (reads_u64 hw).field fun a => follows_return rfl
  rw [walk_all_single, bind_pure] at hfield
  exact hfield

/-! ## Rows with rows -/

/-- The number of codes of a decision, if it has any. -/
def codeCounts (codes : Option (List UInt32)) : List ℕ := (codes.map List.length).toList

/-- The code filter of a decision. -/
theorem follows_codesEntry :
    Follows false w codesEntry (codesField.walk w) fun codes cs => codeCounts codes = cs := by
  have hwalk : codesField.walk w = fun bytes => Layout.next 1 bytes fun tag rest =>
      if tag = 0 then .ending (.rest rest)
      else if tag = 1 then (Layout.rows 4 none 0 (.fixed 4)).walk w rest
      else .ending .refused := rfl
  rw [hwalk]
  refine (reads_u8 hw).follows fun tag => ?_
  have hzero : tag = 0 ↔ tag.toNat = 0 := UInt8.toNat_inj.symm
  have hone : tag = 1 ↔ tag.toNat = 1 := UInt8.toNat_inj.symm
  simp only [← hzero, ← hone]
  split
  next => exact follows_pure rfl
  next =>
    split
    next =>
      rw [← walk_all_single]
      exact field_rows hw (follows_u32Row hw) rfl fun values =>
        follows_return (by simp [codeCounts])
    next => exact fun m _ => ⟨_, m, rfl, (List.append_nil _).symm, _, rfl⟩

theorem follows_decisionEntry :
    Follows false w decisionEntry (decisionRow.walk w) fun decision cs =>
      codeCounts decision.codes = cs := by
  refine (reads_u64 hw).field fun _ => (follows_readShortStr hw).field fun _ =>
    (follows_readShortStr hw).field fun _ => (follows_readShortStr hw).field fun _ =>
    (reads_u8 hw).field fun _ => (reads_u32 hw).field fun _ => ?_
  refine (follows_codesEntry hw).bind fun codes cs hcs => ?_
  exact (reads_u64 hw).field fun _ => (follows_readShortStr hw).field fun _ =>
    (follows_readShortStr hw).field fun _ => follows_return (by rw [List.append_nil]; exact hcs)

/-- A vector of at most so many rows. -/
theorem follows_limitedVec {row : Decode α} {layout : Layout} {counts : α → List ℕ}
    {least : ℕ} (limit : ℕ) (message : String)
    (hrow : Follows false w row (layout.walk w) fun a cs => counts a = cs)
    (hleast : layout.least = least) :
    Follows false w (limitedVec limit message least row)
      ((Layout.rows 4 (some limit) 0 layout).walk w)
      fun as cs => as.length :: as.flatMap counts = cs := by
  have hwalk : (Layout.rows 4 (some limit) 0 layout).walk w = fun bytes =>
      Layout.next 4 bytes fun n rest => if limit < n then .ending .refused
        else (Walk.times (layout.walk w) n rest).counting n
          [⟨n % 2 ^ w, layout.least, rest.length⟩] := by
    funext bytes
    show Layout.next 4 bytes _ = _
    congr 1
    funext n rest
    rw [pass_zero_andThen, Option.any_some]
    exact if_congr decide_eq_true_iff rfl rfl
  rw [hwalk]
  refine (reads_u32 hw).follows fun n => ?_
  dsimp only
  split
  next => exact fun m _ => ⟨_, m, rfl, (List.append_nil _).symm, message, rfl⟩
  next => exact follows_vec hrow hleast n.toNat

theorem follows_mapModuleEntry :
    Follows false w mapModuleEntry (mapModuleRow.walk w) fun mapModule cs =>
      [mapModule.sections.length] = cs := by
  refine (reads_u64 hw).field fun _ => (reads_u64 hw).field fun _ => (reads_u64 hw).field fun _ =>
    (reads_u64 hw).field fun _ => (reads_u32 hw).field fun _ => (reads_u8 hw).field fun _ =>
    (follows_readLayoutString hw _).field fun _ => ?_
  rw [walk_all_single]
  refine (follows_limitedVec hw 256 _ (follows_sectionEntry hw) rfl).map fun sections cs hcs => ?_
  rw [← hcs, List.flatMap_eq_nil_iff.mpr fun _ _ => rfl]

/-- Rows behind their number, without a limit. -/
theorem follows_rows {row : Decode α} {layout : Layout} {counts : α → List ℕ} {least : ℕ}
    (hrow : Follows false w row (layout.walk w) fun a cs => counts a = cs)
    (hleast : layout.least = least) :
    Follows false w (u32OrErr >>= fun count => vec least row count.toNat)
      ((Layout.rows 4 none 0 layout).walk w) fun as cs => as.length :: as.flatMap counts = cs := by
  have hfield : Follows false w (u32OrErr >>= fun count => vec least row count.toNat >>= pure)
      ((Layout.all [.rows 4 none 0 layout]).walk w)
      fun as cs => as.length :: as.flatMap counts = cs :=
    field_rows hw hrow hleast fun as => follows_return (List.append_nil _).symm
  simp only [walk_all_single, bind_pure] at hfield
  exact hfield

omit hw in
/-- A section that may be missing. -/
theorem follows_tailRows {rows : ℕ → Decode (List α)} {layout : Layout} {R : List α → List ℕ → Prop}
    (hrows : Follows false w (u32OrErr >>= fun count => rows count.toNat) (layout.walk w) R)
    (hmissing : R [] layout.missing) :
    Follows false w (tailRows rows) ((Layout.tail layout).walk w) R := by
  intro m hm
  have hwalk : (Layout.tail layout).walk w m.rest =
      if m.rest.isEmpty then ⟨layout.missing, [], .rest []⟩ else layout.walk w m.rest := rfl
  rw [tailRows, bind_ok hm.remaining, hwalk]
  split
  next hempty =>
    exact ⟨_, m, rfl, (List.append_nil _).symm, .inl ⟨[], rfl, hmissing,
      fun _ => ⟨hm, List.isEmpty_iff.mp hempty⟩⟩⟩
  next => exact hrows hm

/-- The descriptions of `script_inventory`. -/
theorem follows_metadata :
    Follows false w (tailRows (times metadataEntry)) ((Layout.tail (.each 4 metadataRow)).walk w)
      fun _ cs => [] = cs := by
  refine follows_tailRows ?_ rfl
  have hwalk : (Layout.each 4 metadataRow).walk w = fun bytes =>
      Layout.next 4 bytes fun n rest => Walk.times (metadataRow.walk w) n rest := rfl
  rw [hwalk]
  refine (reads_u32 hw).follows fun n => (follows_times (follows_metadataEntry hw) n.toNat).mono ?_
  rintro rows cs ⟨_, rfl⟩
  rw [List.flatMap_eq_nil_iff.mpr fun _ _ => rfl]

end

/-! ## Pages of records -/

/-- The computation returns such a value, and nothing else happens. -/
def Silent (w : ℕ) (d : Decode α) (P : α → Prop) : Prop := ∀ m, ∃ a, d w m = (.ok a, m) ∧ P a

theorem Silent.pure {a : α} {P : α → Prop} (h : P a) : Silent w (Pure.pure a) P :=
  fun _ => ⟨a, rfl, h⟩

theorem Silent.bind {d : Decode α} {k : α → Decode β} {P : α → Prop} {Q : β → Prop}
    (hd : Silent w d P) (hk : ∀ a, P a → Silent w (k a) Q) : Silent w (d >>= k) Q := by
  intro m
  obtain ⟨a, hrun, ha⟩ := hd m
  obtain ⟨b, hrun', hb⟩ := hk a ha m
  exact ⟨b, (bind_ok hrun).trans hrun', hb⟩

theorem silent_numberAt {bytes : List UInt8} {n i : ℕ} (h : i + n ≤ bytes.length) :
    Silent w (numberAt bytes n i) fun _ => True := by
  have hslice : Silent w (slice bytes i (i + n)) fun _ => True :=
    fun _ => ⟨_, slice_apply (Nat.le_add_right i n) h, trivial⟩
  rw [numberAt, map_apply]
  exact hslice.bind fun _ _ => .pure trivial

theorem silent_numbersAt {bytes : List UInt8} :
    ∀ {n i : ℕ}, i + n * 8 ≤ bytes.length → Silent w (numbersAt bytes n i) fun _ => True
  | 0, _, _ => .pure trivial
  | n + 1, i, h => by
      refine (silent_numberAt (by omega)).bind fun _ _ => ?_
      exact (silent_numbersAt (n := n) (by omega)).bind fun _ _ => .pure trivial

/-- A record of `n` bytes is missing or decoded. -/
def RecordOf (w n : ℕ) (record : List UInt8 → Decode (Option α)) : Prop :=
  ∀ bytes : List UInt8, Silent w (record bytes) fun a => (a = none ↔ bytes.length < n)

theorem recordOf_decodeEvent : RecordOf w eventWireLen decodeEvent := by
  intro bytes
  rw [decodeEvent]
  split
  next hshort => exact .pure (iff_of_true rfl hshort)
  next hlong =>
    rw [eventWireLen] at hlong
    exact (silent_numberAt (by omega)).bind fun _ _ =>
      (silent_numberAt (by omega)).bind fun _ _ => (silent_numberAt (by omega)).bind fun _ _ =>
      (silent_numberAt (by omega)).bind fun _ _ => (silent_numberAt (by omega)).bind fun _ _ =>
      (silent_numberAt (by omega)).bind fun _ _ => (silent_numberAt (by omega)).bind fun _ _ =>
      (silent_numberAt (by omega)).bind fun _ _ => (silent_numberAt (by omega)).bind fun _ _ =>
      (silent_numberAt (by omega)).bind fun _ _ => (silent_numberAt (by omega)).bind fun _ _ =>
      (silent_numberAt (by omega)).bind fun _ _ => .pure (iff_of_false nofun hlong)

theorem recordOf_decodeHookLog : RecordOf w hookLogWireLen decodeHookLog := by
  intro bytes
  rw [decodeHookLog]
  split
  next hshort => exact .pure (iff_of_true rfl hshort)
  next hlong =>
    rw [hookLogWireLen] at hlong
    exact (silent_numbersAt (by omega)).bind fun _ _ =>
      (silent_numberAt (by omega)).bind fun _ _ => (silent_numberAt (by omega)).bind fun _ _ =>
      (silent_numberAt (by omega)).bind fun _ _ => (silent_numberAt (by omega)).bind fun _ _ =>
      (silent_numberAt (by omega)).bind fun _ _ => (silent_numberAt (by omega)).bind fun _ _ =>
      (silent_numberAt (by omega)).bind fun _ _ => .pure (iff_of_false nofun hlong)

/-- Rows of the same length. -/
theorem times_fixed (w n : ℕ) : ∀ (count : ℕ) (rest : List UInt8),
    Walk.times ((Layout.fixed n).walk w) count rest = .ending (Layout.pass (count * n) rest) := by
  intro count
  induction count with
  | zero =>
      intro rest
      rw [Nat.zero_mul, Layout.pass, if_neg (Nat.not_lt_zero _), List.drop_zero]
      rfl
  | succ count ih =>
      intro rest
      have hrows := pass_add_andThen n (count * n) (fun bytes => .ending (.rest bytes)) rest
      simp only [Walk.andThen_ending] at hrows
      rw [Nat.succ_mul, Nat.add_comm (count * n), hrows, Walk.times, funext ih]
      show (Walk.ending (Layout.pass n rest)).andThen _ = _
      rw [Layout.pass, Layout.next]
      split
      next => rfl
      next => rfl

/-- The loop over the records. -/
theorem decodeRows_apply {n : ℕ} {record : List UInt8 → Decode (Option α)} (message : String)
    (hrecord : RecordOf w n record) (m : Machine) : ∀ (count : ℕ) (rest : List UInt8),
      if rest.length < count * n then
        decodeRows n record message count rest w m = (.error (.error message), m)
      else ∃ as, decodeRows n record message count rest w m = (.ok as, m) ∧
        as.length = count := by
  intro count
  induction count with
  | zero =>
      intro rest
      rw [Nat.zero_mul, if_neg (Nat.not_lt_zero _)]
      exact ⟨[], rfl, rfl⟩
  | succ count ih =>
      intro rest
      obtain ⟨found, hrun, hfound⟩ := hrecord rest m
      rw [Nat.succ_mul, decodeRows]
      cases found with
      | none =>
          rw [if_pos (by have := hfound.mp rfl; omega)]
          exact bind_error (orErr_none hrun)
      | some event =>
          have hlong : ¬ rest.length < n := fun h => nomatch hfound.mpr h
          have hslice : slice rest n rest.length w m = (.ok (rest.drop n), m) := by
            rw [slice_apply (Nat.not_lt.mp hlong) (Nat.le_refl _), List.take_length]
          have ih := ih (rest.drop n)
          rw [List.length_drop] at ih
          rw [bind_ok (orErr_some hrun), bind_ok hslice]
          split at ih
          next hshort =>
            rw [if_pos (by omega)]
            exact bind_error ih
          next henough =>
            obtain ⟨events, hevents, hlength⟩ := ih
            rw [if_neg (by omega)]
            exact ⟨event :: events, bind_ok hevents, by rw [List.length_cons, hlength]⟩

/-- A page of records. -/
theorem follows_recordPage {n : ℕ} {record : List UInt8 → Decode (Option α)} (message : String)
    (hw : 32 ≤ w) (hrecord : RecordOf w n record) :
    Follows true w (do
        let total ← u64OrErr
        let dropped ← u64OrErr
        let next ← u64OrErr
        let count ← u64OrErr
        withCapacity count.toNat n
        let rest ← remaining
        let events ← decodeRows n record message count.toNat rest
        return (total, dropped, next, events))
      ((recordLayout n).walk w) fun page cs => [page.2.2.2.length] = cs := by
  have hwalk : (Layout.all [.rows 8 none 0 (.fixed n)]).walk w = fun bytes =>
      Layout.next 8 bytes fun count rest =>
        (Walk.ending (Layout.pass (count * n) rest)).counting count
          [⟨count % 2 ^ w, n, rest.length⟩] := by
    rw [walk_all_rows]
    simp only [pass_zero_andThen, walk_all_nil, Walk.andThen_ending, times_fixed]
    rfl
  refine (reads_u64 hw).field fun total => (reads_u64 hw).field fun dropped =>
    (reads_u64 hw).field fun next => ?_
  rw [hwalk]
  refine (reads_u64 hw).follows fun count => ?_
  intro m hm
  generalize hrequest : (⟨count.toNat % 2 ^ w, n, m.rest.length⟩ : Request) = request
  have hlength : m.rest.length = m.bytes.length - m.pos := List.length_drop ..
  have hcapacity : withCapacity count.toNat n w m =
      (.ok (), { m with requests := m.requests ++ [request] }) := by
    rw [← hrequest, hlength]
    rfl
  have hrest : remaining w { m with requests := m.requests ++ [request] } =
      (.ok m.rest, { m with requests := m.requests ++ [request] }) :=
    Machine.Ok.remaining (m := { m with requests := m.requests ++ [request] }) ⟨hm.1, hm.2⟩
  have hrows := decodeRows_apply message hrecord
    { m with requests := m.requests ++ [request] } count.toNat m.rest
  beta_reduce
  rw [bind_ok hcapacity, bind_ok hrest, hrequest, Layout.pass]
  split at hrows
  next hshort =>
    rw [if_pos hshort, bind_error hrows]
    exact ⟨_, _, rfl, rfl, message, rfl⟩
  next henough =>
    obtain ⟨events, hrun, hcount⟩ := hrows
    rw [if_neg henough, bind_ok hrun]
    exact ⟨_, _, rfl, rfl, .inl ⟨_, rfl, congrArg (fun n => [n]) hcount, fun h => (by cases h)⟩⟩

end PinBridge.Client
