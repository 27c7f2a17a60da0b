import Mathlib.Data.Option.Basic
import Mathlib.Data.List.Forall2
import PinBridge.Scripts.Replies

/-!
# Script replies are read back

The client reads each field and each row as the agent wrote it, and so each section
(`reads_handleScriptList`, `outputDecodes`), as long as every length and count fits its field
(`Fits`, `FitsShort`).  Descriptions, selectors and the like are cut to fit.  The names of plugins
are not cut, and the texts of an output page are cut to 65535 characters, which may be more bytes.

What a listing that fits means is not always what the agent holds.  A thread filter that is the
sentinel is read as no filter, and an empty optional text as no text.  `listDecodes_iff` says that
these are the only differences.
-/

namespace PinBridge.Scripts

open Utf8 Wire

/-! ## Fields -/

theorem reads_u8 (value : UInt8) : Reads u8OrErr [value] value := by
  have hlt : value.toNat < 256 ^ 1 := value.toNat_lt
  have himage : LittleEndian.encode 1 value.toNat = [value] := by simp [LittleEndian.encode]
  have hword := (reads_word "short payload" hlt).fmap UInt8.ofNat
  rwa [himage, UInt8.ofNat_toNat] at hword

theorem reads_u32 (value : UInt32) : Reads u32OrErr (putU32 value) value := by
  have hlt : value.toNat < 256 ^ 4 := value.toNat_lt
  have hword := (reads_word "short payload" hlt).fmap UInt32.ofNat
  rwa [UInt32.ofNat_toNat] at hword

theorem reads_u64 (value : UInt64) : Reads u64OrErr (putU64 value) value := by
  have hlt : value.toNat < 256 ^ 8 := value.toNat_lt
  have hword := (reads_word "short payload" hlt).fmap UInt64.ofNat
  rwa [UInt64.ofNat_toNat] at hword

theorem reads_short {text : Text} (h : size text ≤ 65535) :
    Reads readShortStr (putShort text) text := by
  have hlt : (encode text).length < 256 ^ 2 := by
    rw [length_encode]
    omega
  have hblock := (reads_block "short string" hlt).fmap fromUtf8Lossy
  rwa [fromUtf8Lossy_encode, length_encode] at hblock

theorem reads_count {n : Nat} (h : n < 2 ^ 32) :
    Reads u32OrErr (putCount n) (UInt32.ofNat n) ∧ (UInt32.ofNat n).toNat = n :=
  ⟨reads_u32 _, UInt32.toNat_ofNat_of_lt' h⟩

theorem size_shortWireText (text : Text) : size (shortWireText text) ≤ 65535 := by
  rw [shortWireText]
  split
  · assumption
  · exact (size_truncate_le _ _).trans (boundaryFrom_le _ _)

theorem reads_shortWireText (text : Text) :
    Reads readShortStr (putShort (shortWireText text)) (shortWireText text) :=
  reads_short (size_shortWireText text)

theorem reads_bool (value : Bool) : Reads u8OrErr (putBool value) (if value then 1 else 0) :=
  reads_u8 _

theorem bool_ne_zero (value : Bool) : decide ((if value then 1 else 0 : UInt8) ≠ 0) = value := by
  cases value <;> rfl

/-! ## Names -/

theorem reads_takeStr (text : Text) : Reads (takeStr (size text)) (encode text) text := by
  have htake := (reads_take statusBadRequest (encode text)).fmap fromUtf8Lossy
  rwa [fromUtf8Lossy_encode, length_encode] at htake

/-- A name and a source that are sent as texts are loaded as they are. -/
theorem reads_scriptLoadRequest {name source : Text} (hname : size name ≤ 65535)
    (hsource : size source < 2 ^ 32) :
    Reads scriptLoadRequest
      (putShort name ++ (LittleEndian.encode 4 (size source) ++ encode source)) (name, source) := by
  have hlen : size name < 256 ^ 2 := by omega
  rw [putShort, List.append_assoc]
  exact (reads_word _ hlen).bind <| (reads_takeStr name).bind <| (reads_word _ hsource).bind <|
    (reads_takeStr source).map

/-! ## Rows -/

def optionalText (text : Option Text) : Option Text := nonEmpty (shortWireText (text.getD []))

def scriptValue (entry : PluginInfo) : ScriptListEntry where
  name := entry.name
  state := entry.state
  delivered := entry.delivered
  dropped := entry.dropped

def bindingValue (row : Text × BreakpointBindingInfo) : ScriptBreakpointBinding where
  id := row.2.id
  plugin := row.1
  callback := shortWireText row.2.callbackName
  description := shortWireText row.2.description
  once := row.2.once
  threadId := readThread (row.2.threadId.getD invalidThread)
  lastStopGeneration := row.2.lastStopGeneration
  lastAction := optionalText row.2.lastAction
  lastReturn := optionalText row.2.lastReturn
  lastError := optionalText row.2.lastError

/-- What is read of a decision before its metadata. -/
def rawDecision (row : Text × DecisionBindingInfo) : ScriptDecisionBinding where
  id := row.2.id
  plugin := row.1
  selector := shortWireText row.2.selector.name
  callback := shortWireText row.2.callbackName
  description := []
  once := row.2.once
  address := none
  threadId := readThread (row.2.threadId.getD invalidThread)
  codes := row.2.codes
  lastGeneration := row.2.lastGeneration
  lastReturn := optionalText row.2.lastReturn
  lastError := optionalText row.2.lastError

def metadataValue (row : Text × DecisionBindingInfo) : UInt64 × UInt64 × Text :=
  (row.2.id, row.2.address.getD 0, shortWireText row.2.description)

def decisionValue (row : Text × DecisionBindingInfo) : ScriptDecisionBinding :=
  { rawDecision row with
    address := row.2.address
    description := shortWireText row.2.description }

theorem reads_scriptRow {entry : PluginInfo} (h : size entry.name ≤ 65535) :
    Reads scriptEntry (scriptRow entry) (scriptValue entry) := by
  rw [scriptRow, List.append_assoc, List.append_assoc]
  exact (reads_short h).bind <| (reads_u8 _).bind <| (reads_u64 _).bind <| (reads_u64 _).map

theorem reads_bindingRow {row : Text × BreakpointBindingInfo} (h : size row.1 ≤ 65535) :
    Reads bindingEntry (bindingRow row) (bindingValue row) := by
  have hread : Reads bindingEntry (bindingRow row)
      { bindingValue row with once := decide ((if row.2.once then 1 else 0 : UInt8) ≠ 0) } := by
    simp only [bindingRow, List.append_assoc]
    exact (reads_u32 _).bind <| (reads_short h).bind <| (reads_shortWireText _).bind <|
      (reads_shortWireText _).bind <| (reads_bool _).bind <| (reads_u32 _).bind <|
      (reads_u64 _).bind <| (reads_shortWireText _).bind <| (reads_shortWireText _).bind <|
      (reads_shortWireText _).map
  rwa [bool_ne_zero] at hread

theorem reads_codes {codes : Option (List UInt32)}
    (h : ∀ values, codes = some values → values.length < 2 ^ 32) :
    Reads codesEntry (codesImage codes) codes := by
  cases codes with
  | none => exact (reads_u8 0).map (f := fun _ => none)
  | some values =>
      obtain ⟨hcount, hn⟩ := reads_count (h values rfl)
      have hmany : Reads (many u32OrErr values.length) (values.flatMap putU32) (values.map id) :=
        reads_many fun value _ => reads_u32 value
      rw [List.map_id] at hmany
      refine (reads_u8 1).bind (hcount.bind ?_)
      rw [hn]
      exact hmany.map

theorem reads_decisionRow {row : Text × DecisionBindingInfo} (h : size row.1 ≤ 65535)
    (hcodes : ∀ values, row.2.codes = some values → values.length < 2 ^ 32) :
    Reads decisionEntry (decisionRow row) (rawDecision row) := by
  have hread : Reads decisionEntry (decisionRow row)
      { rawDecision row with once := decide ((if row.2.once then 1 else 0 : UInt8) ≠ 0) } := by
    simp only [decisionRow, List.append_assoc]
    exact (reads_u64 _).bind <| (reads_short h).bind <| (reads_shortWireText _).bind <|
      (reads_shortWireText _).bind <| (reads_bool _).bind <| (reads_u32 _).bind <|
      (reads_codes hcodes).bind <| (reads_u64 _).bind <| (reads_shortWireText _).bind <|
      (reads_shortWireText _).map
  rwa [bool_ne_zero] at hread

theorem reads_metadataRow (row : Text × DecisionBindingInfo) :
    Reads metadataEntry (metadataRow row) (metadataValue row) := by
  rw [metadataRow, List.append_assoc]
  exact (reads_u64 _).bind <| (reads_u64 _).bind <| (reads_shortWireText _).map

/-! ## The listing -/

/-- What the format has room for: lengths of names in 16 bits, counts in 32. -/
structure Fits (entries : List PluginInfo) : Prop where
  name_le : ∀ entry ∈ entries, size entry.name ≤ 65535
  plugins_lt : entries.length < 2 ^ 32
  breakpoints_lt : (breakpointsOf entries).length < 2 ^ 32
  decisions_lt : (decisionsOf entries).length < 2 ^ 32
  codes_lt : ∀ row ∈ decisionsOf entries, ∀ codes, row.2.codes = some codes → codes.length < 2 ^ 32

theorem putCount_ne_nil (n : Nat) : putCount n ≠ [] := by
  intro h
  have hlen := congrArg List.length h
  simp [putCount, putU32] at hlen

theorem reads_tailSection {α β : Type} {entry : Reader String α} {image : β → List UInt8}
    {value : β → α} {rows : List β} (hcount : rows.length < 2 ^ 32)
    (h : ∀ row ∈ rows, Reads entry (image row) (value row)) :
    Reads (tailSection entry) (rowsImage image rows) (rows.map value) := by
  obtain ⟨hn, hlen⟩ := reads_count hcount
  refine Reads.unless_atEnd _ (hn.bind ?_) fun hnil =>
    putCount_ne_nil _ (List.append_eq_nil_iff.mp hnil).1
  rw [hlen]
  exact reads_many h

theorem describe_append {done : List ScriptDecisionBinding} {row : UInt64 × UInt64 × Text}
    (h : ∀ decision ∈ done, decision.id ≠ row.1) (decisions : List ScriptDecisionBinding) :
    describe (done ++ decisions) row = done ++ describe decisions row := by
  induction done with
  | nil => rfl
  | cons decision done ih =>
      obtain ⟨hhead, htail⟩ := List.forall_mem_cons.mp h
      rw [List.cons_append, describe, if_neg hhead, ih htail, List.cons_append]

theorem describe_self (row : Text × DecisionBindingInfo) (decisions : List ScriptDecisionBinding) :
    describe (rawDecision row :: decisions) (metadataValue row)
      = decisionValue row :: decisions := by
  have haddress : (if row.2.address.getD 0 ≠ 0 then some (row.2.address.getD 0) else none)
      = row.2.address := by
    have hne := row.2.address_ne_zero
    cases haddr : row.2.address with
    | none => rfl
    | some address =>
        rw [haddr] at hne
        exact if_pos fun hzero : address = 0 => hne (congrArg some hzero)
  rw [describe, if_pos (show (rawDecision row).id = (metadataValue row).1 from rfl)]
  exact congrArg (fun address => { rawDecision row with
    address, description := shortWireText row.2.description } :: decisions) haddress

/-- Metadata in the order of the decisions reaches each of them once. -/
theorem foldl_describe (done : List ScriptDecisionBinding)
    (rows : List (Text × DecisionBindingInfo))
    (hdone : ∀ decision ∈ done, ∀ row ∈ rows, decision.id ≠ row.2.id)
    (hnodup : (rows.map fun row => row.2.id).Nodup) :
    (rows.map metadataValue).foldl describe (done ++ rows.map rawDecision)
      = done ++ rows.map decisionValue := by
  induction rows generalizing done with
  | nil => rfl
  | cons row rows ih =>
      obtain ⟨hrow, hrows⟩ := List.nodup_cons.mp hnodup
      have hstep : describe (done ++ rawDecision row :: rows.map rawDecision) (metadataValue row)
          = (done ++ [decisionValue row]) ++ rows.map rawDecision := by
        rw [describe_append fun decision hmem => hdone decision hmem row List.mem_cons_self,
          describe_self, List.append_assoc, List.singleton_append]
      simp only [List.map_cons, List.foldl_cons]
      rw [hstep, ih _ _ hrows, List.append_assoc, List.singleton_append]
      intro decision hmem other hother
      rcases List.mem_append.mp hmem with hmem | hmem
      · exact hdone decision hmem other (List.mem_cons_of_mem _ hother)
      · obtain rfl := List.mem_singleton.mp hmem
        exact fun hid => hrow (List.mem_map.mpr ⟨other, hother, hid.symm⟩)

/-- The listing that a client reads. -/
def inventoryValue (entries : List PluginInfo) : ScriptInventory where
  scripts := entries.map scriptValue
  breakpoints := (breakpointsOf entries).map bindingValue
  decisions := (decisionsOf entries).map decisionValue

theorem name_le_of_mem {β : Type} {entries : List PluginInfo} (h : Fits entries)
    (rows : PluginInfo → List β) (row : Text × β)
    (hrow : row ∈ entries.flatMap fun entry => (rows entry).map fun b => (entry.name, b)) :
    size row.1 ≤ 65535 := by
  obtain ⟨entry, hentry, hrow⟩ := List.mem_flatMap.mp hrow
  obtain ⟨binding, _, rfl⟩ := List.mem_map.mp hrow
  exact h.name_le entry hentry

theorem reads_scriptSection {entries : List PluginInfo} (h : Fits entries)
    {f : List ScriptListEntry → Reader String ScriptInventory} {bytes : List UInt8}
    {value : ScriptInventory} (hf : Reads (f (entries.map scriptValue)) bytes value) :
    Reads (u32OrErr >>= fun count => many scriptEntry count.toNat >>= f)
      (rowsImage scriptRow entries ++ bytes) value := by
  obtain ⟨hcount, hn⟩ := reads_count h.plugins_lt
  have hrows := reads_many fun entry hentry => reads_scriptRow (h.name_le entry hentry)
  rw [rowsImage, List.append_assoc]
  refine hcount.bind ?_
  rw [hn]
  exact hrows.bind hf

/-- A listing that fits is read. -/
theorem reads_handleScriptList (listing : Listing) (h : Fits listing.entries) :
    Reads scriptInventory (handleScriptList listing.entries) (inventoryValue listing.entries) := by
  have hbreakpoints := reads_tailSection h.breakpoints_lt fun row hrow =>
    reads_bindingRow (name_le_of_mem h PluginInfo.breakpoints row hrow)
  have hdecisions := reads_tailSection h.decisions_lt fun row hrow =>
    reads_decisionRow (name_le_of_mem h PluginInfo.decisions row hrow) (h.codes_lt row hrow)
  have hmetadata := reads_tailSection h.decisions_lt fun row _ => reads_metadataRow row
  have hdescribe := foldl_describe [] (decisionsOf listing.entries) (by simp) listing.ids_nodup
  rw [List.nil_append, List.nil_append] at hdescribe
  rw [inventoryValue, ← hdescribe, handleScriptList, List.append_assoc, List.append_assoc]
  exact reads_scriptSection h <| hbreakpoints.bind <| hdecisions.bind <| hmetadata.map

/-! ## What the rows carry -/

/-- A text is carried whole if it has at most 65535 bytes, and else cut at a character. -/
def Carries (original got : Text) : Prop :=
  got <+: original ∧ (size original ≤ 65535 → got = original)

/-- An optional text is carried if it is there on both sides. -/
def CarriesOption : Option Text → Option Text → Prop := Option.Rel Carries

structure ScriptMatches (entry : PluginInfo) (got : ScriptListEntry) : Prop where
  name : Carries entry.name got.name
  state : got.state = entry.state
  delivered : got.delivered = entry.delivered
  dropped : got.dropped = entry.dropped

structure BindingMatches (row : Text × BreakpointBindingInfo) (got : ScriptBreakpointBinding) :
    Prop where
  id : got.id = row.2.id
  plugin : Carries row.1 got.plugin
  callback : Carries row.2.callbackName got.callback
  description : Carries row.2.description got.description
  once : got.once = row.2.once
  threadId : got.threadId = row.2.threadId
  lastStopGeneration : got.lastStopGeneration = row.2.lastStopGeneration
  lastAction : CarriesOption row.2.lastAction got.lastAction
  lastReturn : CarriesOption row.2.lastReturn got.lastReturn
  lastError : CarriesOption row.2.lastError got.lastError

structure DecisionMatches (row : Text × DecisionBindingInfo) (got : ScriptDecisionBinding) :
    Prop where
  id : got.id = row.2.id
  plugin : Carries row.1 got.plugin
  selector : Carries row.2.selector.name got.selector
  callback : Carries row.2.callbackName got.callback
  description : Carries row.2.description got.description
  once : got.once = row.2.once
  address : got.address = row.2.address
  threadId : got.threadId = row.2.threadId
  codes : got.codes = row.2.codes
  lastGeneration : got.lastGeneration = row.2.lastGeneration
  lastReturn : CarriesOption row.2.lastReturn got.lastReturn
  lastError : CarriesOption row.2.lastError got.lastError

/-- The same rows in the same order. -/
structure InventoryMatches (entries : List PluginInfo) (got : ScriptInventory) : Prop where
  scripts : List.Forall₂ ScriptMatches entries got.scripts
  breakpoints : List.Forall₂ BindingMatches (breakpointsOf entries) got.breakpoints
  decisions : List.Forall₂ DecisionMatches (decisionsOf entries) got.decisions

/-- The client reads the listing of the agent. -/
def ListDecodes (entries : List PluginInfo) : Prop :=
  ∃ got rest, scriptInventory (handleScriptList entries) = .ok (got, rest) ∧
    InventoryMatches entries got

theorem Carries.refl (text : Text) : Carries text text := ⟨List.prefix_rfl, fun _ => rfl⟩

theorem carries_shortWireText (text : Text) : Carries text (shortWireText text) := by
  rw [shortWireText]
  split
  · exact Carries.refl text
  · rename_i hlong
    exact ⟨ truncate_prefix _ _, fun hshort => absurd hshort hlong⟩

theorem shortWireText_ne_nil {text : Text} (h : text ≠ []) : shortWireText text ≠ [] := by
  rw [shortWireText]
  split
  · exact h
  · exact truncate_boundaryFrom_ne_nil h (by omega)

/-- An empty text and no text are written alike, and read as no text. -/
theorem carriesOption_iff (text : Option Text) :
    CarriesOption text (optionalText text) ↔ text ≠ some [] := by
  cases text with
  | none => exact ⟨fun _ => nofun, fun _ => .none⟩
  | some text =>
      by_cases hnil : text = []
      · subst hnil
        exact ⟨fun h => (nomatch h), fun h => absurd rfl h⟩
      · have hsome : optionalText (some text) = some (shortWireText text) := by
          have hne := shortWireText_ne_nil hnil
          simp [optionalText, nonEmpty, hne]
        rw [hsome]
        exact ⟨fun _ h => hnil (Option.some.inj h), fun _ => .some (carries_shortWireText text)⟩

/-- The sentinel stands for no filter, whether it was stored or not. -/
theorem readThread_getD_iff (threadId : Option UInt32) :
    readThread (threadId.getD invalidThread) = threadId ↔ threadId ≠ some invalidThread := by
  cases threadId with
  | none => exact ⟨fun _ => nofun, fun _ => if_pos rfl⟩
  | some id =>
      by_cases hid : id = invalidThread
      · subst hid
        exact ⟨fun h => (nomatch h), fun h => absurd rfl h⟩
      · exact ⟨fun _ h => hid (Option.some.inj h), fun _ => if_neg hid⟩

/-- What the format can tell apart: an optional text from an empty one, and a decision's thread
filter from the sentinel. -/
structure Representable (entries : List PluginInfo) : Prop where
  breakpoint : ∀ row ∈ breakpointsOf entries,
    row.2.lastAction ≠ some [] ∧ row.2.lastReturn ≠ some [] ∧ row.2.lastError ≠ some []
  decision : ∀ row ∈ decisionsOf entries, row.2.threadId ≠ some invalidThread ∧
    row.2.lastReturn ≠ some [] ∧ row.2.lastError ≠ some []

theorem bindingMatches_iff (row : Text × BreakpointBindingInfo) :
    BindingMatches row (bindingValue row) ↔
      row.2.lastAction ≠ some [] ∧ row.2.lastReturn ≠ some [] ∧ row.2.lastError ≠ some [] := by
  have hthread := (readThread_getD_iff row.2.threadId).mpr (of_decide_eq_true row.2.accepted)
  constructor
  · intro h
    exact ⟨(carriesOption_iff _).mp h.lastAction, (carriesOption_iff _).mp h.lastReturn,
      (carriesOption_iff _).mp h.lastError⟩
  · rintro ⟨haction, hreturn, herror⟩
    exact ⟨rfl, Carries.refl _, carries_shortWireText _, carries_shortWireText _, rfl, hthread, rfl,
      (carriesOption_iff _).mpr haction, (carriesOption_iff _).mpr hreturn,
      (carriesOption_iff _).mpr herror⟩

theorem decisionMatches_iff (row : Text × DecisionBindingInfo) :
    DecisionMatches row (decisionValue row) ↔ row.2.threadId ≠ some invalidThread ∧
      row.2.lastReturn ≠ some [] ∧ row.2.lastError ≠ some [] := by
  constructor
  · intro h
    exact ⟨(readThread_getD_iff _).mp h.threadId, (carriesOption_iff _).mp h.lastReturn,
      (carriesOption_iff _).mp h.lastError⟩
  · rintro ⟨hthread, hreturn, herror⟩
    exact ⟨rfl, Carries.refl _, carries_shortWireText _, carries_shortWireText _,
      carries_shortWireText _, rfl, rfl, (readThread_getD_iff _).mpr hthread, rfl, rfl,
      (carriesOption_iff _).mpr hreturn, (carriesOption_iff _).mpr herror⟩

theorem inventoryMatches_iff (entries : List PluginInfo) :
    InventoryMatches entries (inventoryValue entries) ↔ Representable entries := by
  constructor
  · intro h
    refine ⟨fun row hrow => ?_, fun row hrow => ?_⟩
    · have hrows := List.forall₂_map_right_iff.mp h.breakpoints
      exact (bindingMatches_iff row).mp (List.forall₂_same.mp hrows row hrow)
    · have hrows := List.forall₂_map_right_iff.mp h.decisions
      exact (decisionMatches_iff row).mp (List.forall₂_same.mp hrows row hrow)
  · intro h
    refine ⟨?_, ?_, ?_⟩
    · refine List.forall₂_map_right_iff.mpr (List.forall₂_same.mpr fun entry _ => ?_)
      exact ⟨Carries.refl _, rfl, rfl, rfl⟩
    · refine List.forall₂_map_right_iff.mpr (List.forall₂_same.mpr fun row hrow => ?_)
      exact (bindingMatches_iff row).mpr (h.breakpoint row hrow)
    · refine List.forall₂_map_right_iff.mpr (List.forall₂_same.mpr fun row hrow => ?_)
      exact (decisionMatches_iff row).mpr (h.decision row hrow)

theorem listDecodes_iff (listing : Listing) (h : Fits listing.entries) :
    ListDecodes listing.entries ↔ Representable listing.entries := by
  have hread := (reads_handleScriptList listing h).run
  rw [← inventoryMatches_iff]
  constructor
  · rintro ⟨got, rest, hgot, hmatches⟩
    rw [hread] at hgot
    obtain rfl := congrArg Prod.fst (Except.ok.inj hgot)
    exact hmatches
  · exact fun hmatches => ⟨_, _, hread, hmatches⟩

/-! ## Output pages -/

structure LineMatches (entry : OutputEntry) (got : OutputLine) : Prop where
  seq : got.seq = entry.seq
  plugin : Carries entry.plugin got.plugin
  line : Carries entry.line got.line

/-- The client reads the page of output lines that it asked for. -/
def OutputDecodes (entries : List OutputEntry) (after : UInt64) (limit : UInt32) : Prop :=
  ∃ body lines rest, handleScriptOutput entries (outputRequest after limit) = .ok body ∧
    scriptOutput body = .ok (((outputPage entries after (min limit outputPageMax).toNat).1, lines),
      rest) ∧
    List.Forall₂ LineMatches (outputPage entries after (min limit outputPageMax).toNat).2 lines

/-- The first 65535 characters of a text take at most 65535 bytes. -/
def FitsShort (text : Text) : Prop := size (text.take 65535) ≤ 65535

def lineValue (entry : OutputEntry) : OutputLine where
  seq := entry.seq
  plugin := entry.plugin.take 65535
  line := entry.line.take 65535

theorem carries_take (text : Text) : Carries text (text.take 65535) := by
  refine ⟨List.take_prefix _ _, fun hsize => List.take_of_length_le ?_⟩
  exact (length_le_size text).trans hsize

theorem reads_outputRow {entry : OutputEntry} (hplugin : FitsShort entry.plugin)
    (hline : FitsShort entry.line) : Reads outputLine (outputRow entry) (lineValue entry) := by
  rw [outputRow, List.append_assoc]
  exact (reads_u64 _).bind <| (reads_short hplugin).bind <| (reads_short hline).map

theorem min_toNat (a b : UInt32) : min a.toNat b.toNat = (min a b).toNat := by
  show _ = (if a ≤ b then a else b).toNat
  split
  · rename_i hle
    exact Nat.min_eq_left (UInt32.le_iff_toNat_le.mp hle)
  · rename_i hle
    exact Nat.min_eq_right (Nat.le_of_not_le fun h => hle (UInt32.le_iff_toNat_le.mpr h))

theorem handleScriptOutput_request (entries : List OutputEntry) (after : UInt64)
    (limit : UInt32) :
    handleScriptOutput entries (outputRequest after limit) =
      let page := outputPage entries after (min limit outputPageMax).toNat
      .ok (putU64 page.1 ++ rowsImage outputRow page.2) := by
  have hafter := reads_word statusBadRequest (w := 8) after.toNat_lt (putU32 limit)
  have hlimit := (reads_word statusBadRequest (w := 4) limit.toNat_lt).run
  have hnat := UInt64.ofNat_toNat (x := after)
  rw [handleScriptOutput, outputRequest, putU64, hafter]
  simp only [bind, Except.bind, putU32, hlimit, min_toNat, hnat]
  rfl

theorem length_outputPage_lt (entries : List OutputEntry) (after : UInt64) (limit : UInt32) :
    (outputPage entries after (min limit outputPageMax).toNat).2.length < 2 ^ 32 :=
  Nat.lt_of_le_of_lt (List.length_take_le _ _) (min limit outputPageMax).toNat_lt

theorem outputDecodes (entries : List OutputEntry) (after : UInt64) (limit : UInt32)
    (h : ∀ entry ∈ (outputPage entries after (min limit outputPageMax).toNat).2,
      FitsShort entry.plugin ∧ FitsShort entry.line) :
    OutputDecodes entries after limit := by
  obtain ⟨hcount, hn⟩ := reads_count (length_outputPage_lt entries after limit)
  have hrows := reads_many fun entry hentry =>
    reads_outputRow (h entry hentry).1 (h entry hentry).2
  have hlines (next : UInt64) := hcount.bind
    (f := fun count => many outputLine count.toNat >>= fun lines => pure (next, lines))
    (by rw [hn]; exact hrows.map (f := fun lines => (next, lines)))
  have hread : Reads scriptOutput _ _ :=
    (reads_u64 (outputPage entries after (min limit outputPageMax).toNat).1).bind (hlines _)
  refine ⟨_, _, [], handleScriptOutput_request entries after limit, hread.run, ?_⟩
  refine List.forall₂_map_right_iff.mpr (List.forall₂_same.mpr fun entry _ => ?_)
  exact ⟨rfl, carries_take _, carries_take _⟩

/-! ## Both replies -/

/-- A listing whose names and counts fit is decoded exactly if the format can tell its rows apart,
and an output page whose texts fit is decoded. -/
theorem script_replies_decode (listing : Listing) (entries : List OutputEntry) (after : UInt64)
    (limit : UInt32) :
    (Fits listing.entries → (ListDecodes listing.entries ↔ Representable listing.entries)) ∧
      ((∀ entry ∈ (outputPage entries after (min limit outputPageMax).toNat).2,
        FitsShort entry.plugin ∧ FitsShort entry.line) → OutputDecodes entries after limit) :=
  ⟨listDecodes_iff listing, outputDecodes entries after limit⟩

/-- A plugin with one handler of exceptions, for the thread `threadId`. -/
def oneDecision (threadId : UInt32) : Listing where
  entries := [{
    name := "p".toList, state := 1, delivered := 0, dropped := 0, breakpoints := []
    decisions := [{
      id := 1, selector := .exceptionHandle, callbackName := "f".toList, description := []
      once := false, address := none, threadId := some threadId, codes := none, lastGeneration := 0
      lastReturn := none, lastError := none
      accepted := ⟨none, rfl⟩ }] }]
  ids_nodup := by simp [decisionsOf]

theorem fits_oneDecision (threadId : UInt32) : Fits (oneDecision threadId).entries := by
  refine ⟨?_, show 1 < 2 ^ 32 by decide, show 0 < 2 ^ 32 by decide, show 1 < 2 ^ 32 by decide, ?_⟩
  · intro entry hentry
    obtain rfl := List.mem_singleton.mp hentry
    show size "p".toList ≤ 65535
    decide
  · intro row hrow codes hcodes
    obtain rfl := List.mem_singleton.mp hrow
    cases hcodes

theorem script_replies_decode_thread :
    ListDecodes (oneDecision 7).entries ∧
      OutputDecodes [⟨1, "p".toList, "é".toList⟩] 0 16 := by
  have hdecode := script_replies_decode (oneDecision 7) [⟨1, "p".toList, "é".toList⟩] 0 16
  refine ⟨(hdecode.1 (fits_oneDecision 7)).mpr ⟨nofun, ?_⟩, hdecode.2 fun entry hentry => ?_⟩
  · intro row hrow
    obtain rfl := List.mem_singleton.mp hrow
    exact ⟨by decide, nofun, nofun⟩
  · obtain rfl := List.mem_singleton.mp hentry
    exact ⟨by unfold FitsShort; decide, by unfold FitsShort; decide⟩

/-- A handler for the thread that the sentinel names is listed as a handler for all threads. -/
theorem sentinel_filter_lost : ¬ ListDecodes (oneDecision 0xFFFFFFFF).entries := by
  rw [listDecodes_iff _ (fits_oneDecision _)]
  intro h
  exact (h.decision _ (List.mem_singleton.mpr rfl)).1 rfl

end PinBridge.Scripts
