import PinBridge.Client.Follows
import PinBridge.Client.Replies
import PinBridge.Scripts.RoundTrip

/-!
# The replies about scripts, decoded

`Scripts.Replies` reads the listing of the scripts and a page of their output with plain readers,
which know neither a position that can overflow nor the room of a vector.  `Computes` says that a
decoder returns what such a reader does, and it holds of the decoders of both replies
(`scriptInventory_computes`, `scriptOutput_computes`).  So what `Scripts.RoundTrip` shows of the
listing is what the client gets.
-/

namespace PinBridge.Client

open LittleEndian (decode)
open Query (maxFrame)
open Utf8 (Text fromUtf8Lossy)
open Wire (Reader)

variable {α β : Type} {w : ℕ}

/-- The decoder returns what the reader reads from the bytes that are left, and leaves what it
leaves. -/
def Computes (w : ℕ) (d : Decode α) (p : Reader String α) : Prop :=
  ∀ ⦃m : Machine⦄, m.Ok → ∃ m', match p m.rest with
    | .ok (a, rest) => d w m = (.ok a, m') ∧ m'.Ok ∧ m'.rest = rest
    | .error message => d w m = (.error (.error message), m')

theorem computes_pure (a : α) : Computes w (pure a) (pure a) := fun m hm => ⟨m, rfl, hm, rfl⟩

/-- One decoder after the other. -/
theorem Computes.bind {d : Decode α} {p : Reader String α} {k : α → Decode β}
    {q : α → Reader String β} (hd : Computes w d p) (hk : ∀ a, Computes w (k a) (q a)) :
    Computes w (d >>= k) (p >>= q) := by
  intro m hm
  obtain ⟨m', hrun⟩ := hd hm
  have hread : (p >>= q) m.rest = (p m.rest).bind fun r => q r.1 r.2 := rfl
  cases hp : p m.rest with
  | error message =>
      rw [hp] at hrun hread
      rw [hread]
      exact ⟨m', bind_error hrun⟩
  | ok r =>
      rw [hp] at hrun hread
      obtain ⟨hrun, hok, hrest⟩ := hrun
      obtain ⟨m'', hnext⟩ := hk r.1 hok
      rw [hread, bind_ok hrun]
      rw [hrest] at hnext
      exact ⟨m'', hnext⟩

theorem Computes.fmap (f : α → β) {d : Decode α} {p : Reader String α} (hd : Computes w d p) :
    Computes w (f <$> d) (f <$> p) := by
  rw [map_eq_pure_bind, map_eq_pure_bind]
  exact hd.bind fun a => computes_pure (f a)

/-- Rows that are read one after the other. -/
theorem computes_times {d : Decode α} {p : Reader String α} (hd : Computes w d p) (n : ℕ) :
    Computes w (times d n) (Wire.many p n) := by
  induction n with
  | zero => exact computes_pure []
  | succ n ih => exact hd.bind fun a => ih.bind fun as => computes_pure (a :: as)

/-- A vector. -/
theorem computes_vec {d : Decode α} {p : Reader String α} (hd : Computes w d p) (least n : ℕ) :
    Computes w (vec least d n) (Wire.many p n) := by
  intro m hm
  obtain ⟨m', hrun⟩ := computes_times hd n
    (m := { m with requests := m.requests ++ [⟨n % 2 ^ w, least, m.bytes.length - m.pos⟩] })
    ⟨hm.1, hm.2⟩
  exact ⟨m', hrun⟩

theorem readShortStr_apply (bytes : List UInt8) :
    Scripts.readShortStr bytes =
      let n := decode (bytes.take 2)
      if bytes.length < 2 ∨ (bytes.drop 2).length < n then .error "short string"
      else .ok (fromUtf8Lossy ((bytes.drop 2).take n), (bytes.drop 2).drop n) := by
  have hread : Scripts.readShortStr bytes =
      ((Wire.word "short string" 2 bytes).bind fun r => Wire.take "short string" r.1 r.2).map
        fun r => (fromUtf8Lossy r.1, r.2) := rfl
  rw [hread, Wire.word_apply]
  by_cases hhead : bytes.length < 2
  · rw [if_pos hhead]
    exact (if_pos (.inl hhead)).symm
  · rw [if_neg hhead]
    dsimp only [Except.bind]
    rw [Wire.take]
    by_cases hshort : (bytes.drop 2).length < decode (bytes.take 2)
    · rw [if_pos hshort, if_pos (.inr hshort)]
      rfl
    · rw [if_neg hshort, if_neg (not_or.mpr ⟨hhead, hshort⟩)]
      rfl

section

variable (hw : 32 ≤ w)
include hw

/-- A number of at most eight bytes. -/
theorem computes_word {n : ℕ} (hn : n ≤ 8) :
    Computes w (orErr (word n) "short payload") (Wire.word "short payload" n) := by
  intro m hm
  have hread := hm.word hw hn
  rw [Wire.word_apply]
  split at hread
  next hshort =>
    rw [if_pos hshort]
    exact ⟨m, orErr_none hread⟩
  next hlong =>
    obtain ⟨hok, hrest⟩ := hm.advance hlong
    rw [if_neg hlong]
    exact ⟨_, orErr_some hread, hok, hrest⟩

theorem computes_u8 : Computes w u8OrErr Scripts.u8OrErr := by
  intro m hm
  have hread := hm.u8 hw
  have happly : Scripts.u8OrErr m.rest =
      (Wire.word "short payload" 1 m.rest).map fun r => (UInt8.ofNat r.1, r.2) := rfl
  rw [happly, Wire.word_apply]
  split at hread
  next hshort =>
    rw [if_pos hshort]
    exact ⟨m, orErr_none hread⟩
  next hlong =>
    obtain ⟨hok, hrest⟩ := hm.advance hlong
    rw [if_neg hlong]
    exact ⟨_, orErr_some hread, hok, hrest⟩

theorem computes_u32 : Computes w u32OrErr Scripts.u32OrErr :=
  (computes_word hw (by decide)).fmap _

theorem computes_u64 : Computes w u64OrErr Scripts.u64OrErr :=
  (computes_word hw (by decide)).fmap _

/-- `read_short_str`. -/
theorem computes_readShortStr : Computes w readShortStr Scripts.readShortStr := by
  intro m hm
  have hrun := hm.readShortStr hw
  have hread := readShortStr_apply m.rest
  generalize decode (m.rest.take 2) = n at hrun hread
  dsimp only at hrun hread
  rw [hread]
  by_cases hshort : m.rest.length < 2 ∨ (m.rest.drop 2).length < n
  · rw [if_pos hshort] at hrun ⊢
    exact ⟨m, hrun⟩
  · rw [if_neg hshort] at hrun ⊢
    have hlength : (m.rest.drop 2).length = m.rest.length - 2 := List.length_drop ..
    obtain ⟨hok, hdrop⟩ := hm.advance (n := 2 + n) (by omega)
    refine ⟨_, hrun, hok, ?_⟩
    rw [hdrop, List.drop_drop]

/-- A section that older servers do not send. -/
theorem computes_tailRows {rows : ℕ → Decode (List α)} {p : Reader String α}
    (hrows : ∀ n, Computes w (rows n) (Wire.many p n)) :
    Computes w (tailRows rows) (Scripts.tailSection p) := by
  intro m hm
  rw [tailRows, bind_ok hm.remaining]
  cases hrest : m.rest with
  | nil => exact ⟨m, rfl, hm, hrest⟩
  | cons byte bytes =>
      obtain ⟨m', hrun⟩ := ((computes_u32 hw).bind fun count => hrows count.toNat) hm
      rw [hrest] at hrun
      exact ⟨m', hrun⟩

/-! ## Rows -/

theorem computes_scriptEntry : Computes w scriptEntry Scripts.scriptEntry :=
  (computes_readShortStr hw).bind fun _ => (computes_u8 hw).bind fun _ =>
    (computes_u64 hw).bind fun _ => (computes_u64 hw).bind fun _ => computes_pure _

theorem computes_bindingEntry : Computes w bindingEntry Scripts.bindingEntry :=
  (computes_u32 hw).bind fun _ => (computes_readShortStr hw).bind fun _ =>
    (computes_readShortStr hw).bind fun _ => (computes_readShortStr hw).bind fun _ =>
    (computes_u8 hw).bind fun _ => (computes_u32 hw).bind fun _ => (computes_u64 hw).bind fun _ =>
    (computes_readShortStr hw).bind fun _ => (computes_readShortStr hw).bind fun _ =>
    (computes_readShortStr hw).bind fun _ => computes_pure _

theorem computes_codesEntry : Computes w codesEntry Scripts.codesEntry := by
  refine (computes_u8 hw).bind fun tag => ?_
  split
  next => exact computes_pure none
  next =>
    split
    next =>
      exact (computes_u32 hw).bind fun _ =>
        (computes_vec (computes_u32 hw) 4 _).bind fun _ => computes_pure _
    next => exact fun m _ => ⟨m, rfl⟩

theorem computes_decisionEntry : Computes w decisionEntry Scripts.decisionEntry :=
  (computes_u64 hw).bind fun _ => (computes_readShortStr hw).bind fun _ =>
    (computes_readShortStr hw).bind fun _ => (computes_readShortStr hw).bind fun _ =>
    (computes_u8 hw).bind fun _ => (computes_u32 hw).bind fun _ =>
    (computes_codesEntry hw).bind fun _ => (computes_u64 hw).bind fun _ =>
    (computes_readShortStr hw).bind fun _ => (computes_readShortStr hw).bind fun _ =>
    computes_pure _

theorem computes_metadataEntry : Computes w metadataEntry Scripts.metadataEntry :=
  (computes_u64 hw).bind fun _ => (computes_u64 hw).bind fun _ =>
    (computes_readShortStr hw).bind fun _ => computes_pure _

theorem computes_outputEntry : Computes w outputEntry Scripts.outputLine :=
  (computes_u64 hw).bind fun _ => (computes_readShortStr hw).bind fun _ =>
    (computes_readShortStr hw).bind fun _ => computes_pure _

/-! ## Bodies -/

variable {body : List UInt8} (hbody : body.length ≤ maxFrame.toNat) (m : Machine)
include hbody

omit hw in
/-- What a decoder of a body returns. -/
theorem Computes.answers {d : Decode α} {p : Reader String α} (hd : Computes w d p) :
    ((newReader body >>= fun _ => d) w m).1 =
      ((p body).map Prod.fst).mapError Stop.error := by
  have hnew : newReader body w m = (.ok (), { m with bytes := body, pos := 0 }) := rfl
  obtain ⟨m', hrun⟩ := hd (m := { m with bytes := body, pos := 0 }) ⟨Nat.zero_le _, hbody⟩
  have hrest : Machine.rest { m with bytes := body, pos := 0 } = body := rfl
  rw [hrest] at hrun
  rw [bind_ok hnew]
  cases hread : p body with
  | error message =>
      rw [hread] at hrun
      exact congrArg Prod.fst hrun
  | ok r =>
      rw [hread] at hrun
      exact congrArg Prod.fst hrun.1

/-- `script_inventory` returns what the plain reader reads. -/
theorem scriptInventory_computes :
    (scriptInventory body w m).1 =
      ((Scripts.scriptInventory body).map Prod.fst).mapError Stop.error := by
  refine Computes.answers hbody m (p := Scripts.scriptInventory) ?_
  refine (computes_u32 hw).bind fun count => ?_
  refine (computes_vec (computes_scriptEntry hw) 19 _).bind fun scripts => ?_
  refine (computes_tailRows hw (computes_vec (computes_bindingEntry hw) 29)).bind fun _ => ?_
  refine (computes_tailRows hw (computes_vec (computes_decisionEntry hw) 32)).bind fun _ => ?_
  refine (computes_tailRows hw (computes_times (computes_metadataEntry hw))).bind fun _ => ?_
  exact computes_pure _

omit hbody in
/-- The client reads the listing that the agent has written. -/
theorem scriptInventory_reads (listing : Scripts.Listing) (h : Scripts.Fits listing.entries)
    (hframe : (Scripts.handleScriptList listing.entries).length ≤ maxFrame.toNat) :
    (scriptInventory (Scripts.handleScriptList listing.entries) w m).1 =
      .ok (Scripts.inventoryValue listing.entries) := by
  rw [scriptInventory_computes hw hframe m, (Scripts.reads_handleScriptList listing h).run]
  rfl

/-- `script_output` returns what the plain reader reads. -/
theorem scriptOutput_computes :
    (scriptOutput body w m).1 =
      ((Scripts.scriptOutput body).map Prod.fst).mapError Stop.error := by
  refine Computes.answers hbody m (p := Scripts.scriptOutput) ?_
  refine (computes_u64 hw).bind fun next => (computes_u32 hw).bind fun count => ?_
  exact (computes_vec (computes_outputEntry hw) 12 _).bind fun _ => computes_pure _

end

end PinBridge.Client
