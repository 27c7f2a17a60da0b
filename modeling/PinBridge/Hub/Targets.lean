import PinBridge.HookQuery.Wildcard
import PinBridge.Hub.Scopes
import PinBridge.Lib.OrderedMap

/-!
# The targets of a Hook monitor

`hook_targets_query` turns a pattern into the targets that `hook_monitor_apply` will arm.  It visits
the exports of a module, keeps those whose name matches the pattern, and of several names for one
address the first one.

`hookTargetsQuery_spec` says which targets that are.
-/

namespace PinBridge.Targets

open Hooks (HubError)
open HookQuery (wildcardMatch)
open Native (moduleKey)
open Scopes (fnv1a64 moduleName parseValue req)
open Utf8 (Text)

/-- `HookTargetSelection`. -/
structure HookTargetSelection where
  module : Text
  digest : Text
  targets : List (Nat × Text)
  exportCount : Nat
  matchedExportCount : Nat

/-- `hook_target_digest`. -/
def hookTargetDigest (module : Text) (targets : List (Nat × Text)) : Text :=
  fnv1a64 (Utf8.encode module ++ [0] ++ targets.flatMap fun target =>
    LittleEndian.encode 8 target.1 ++ Utf8.encode target.2 ++ [0])

/-- The pattern of a request. -/
def symbolPattern (value : Option Json) : Except HubError Text :=
  let pattern := Hooks.trim ((value.bind Json.asStr).getD "*").toList
  if pattern = [] ∨ 512 < Utf8.size pattern then
    .error (.validation "symbol_pattern must contain 1..512 bytes")
  else .ok pattern

/-- What the loop over the exports has found. -/
structure Found where
  unique : OrderedMap Nat Text
  matchedExportCount : Nat

/-- The name of an export, when it matches. -/
def matchedName (pattern : Text) (row : Json) : Option Text :=
  ((row.get "name").bind Json.asStr).bind fun name =>
    if wildcardMatch (Utf8.encode pattern) (Utf8.encode name.toList) then some name.toList else none

/-- A round of the loop. -/
def Found.visit (pattern : Text) (found : Found) (row : Json) : Except HubError Found :=
  match matchedName pattern row with
  | none => .ok found
  | some name =>
      let found := { found with matchedExportCount := found.matchedExportCount + 1 }
      match row.get "address" with
      | none => .ok found
      | some value => (parseValue value).map fun address =>
          if address = 0 then found
          else { found with unique := found.unique.orInsert address name }

/-- `hook_targets_query` up to the selection it keeps.  `exports` are what the Agent answers for a
module. -/
def hookTargetsQuery (args : String → Option Json) (exports : Text → Option (List Json)) :
    Except HubError HookTargetSelection := do
  let requested ← moduleName (← req (args "module") "module")
  let module := moduleKey requested
  let pattern ← symbolPattern (args "symbol_pattern")
  let some rows := exports module | .error .request
  let found ← rows.foldlM (Found.visit pattern) ⟨.empty, 0⟩
  let targets := found.unique.entries
  return {
    module
    digest := hookTargetDigest module targets
    targets
    exportCount := rows.length
    matchedExportCount := found.matchedExportCount }

/-! ## What the loop finds -/

/-- The target that an export can be. -/
def candidate (pattern : Text) (row : Json) : Option (Nat × Text) :=
  (matchedName pattern row).bind fun name =>
    (row.get "address").bind fun value =>
      match parseValue value with
      | .ok (address + 1) => some (address + 1, name)
      | _ => none

/-- A round that does not fail adds the target of its export. -/
theorem Found.visit_eq {pattern : Text} {found found' : Found} {row : Json}
    (h : found.visit pattern row = .ok found') :
    found'.unique = (candidate pattern row).elim found.unique
        (fun e => found.unique.orInsert e.1 e.2) ∧
      found'.matchedExportCount =
        found.matchedExportCount + (matchedName pattern row).toList.length := by
  rw [visit] at h
  rw [candidate]
  cases hname : matchedName pattern row with
  | none =>
      rw [hname] at h
      cases h
      exact ⟨rfl, rfl⟩
  | some name =>
      rw [hname] at h
      cases hvalue : row.get "address" with
      | none =>
          simp only [hvalue] at h
          cases h
          exact ⟨rfl, rfl⟩
      | some value =>
          simp only [hvalue] at h
          obtain ⟨address, haddress, rfl⟩ := Fallible.map_eq_ok.mp h
          simp only [Option.bind_some, haddress]
          cases address with
          | zero => exact ⟨rfl, rfl⟩
          | succ address => exact ⟨rfl, rfl⟩

/-- A loop that does not fail adds the targets of all exports. -/
theorem Found.foldlM_visit {pattern : Text} {found found' : Found} {rows : List Json}
    (h : rows.foldlM (visit pattern) found = .ok found') :
    found'.unique = (rows.filterMap (candidate pattern)).foldl (fun m e => m.orInsert e.1 e.2)
        found.unique ∧
      found'.matchedExportCount =
        found.matchedExportCount + (rows.filterMap (matchedName pattern)).length := by
  induction rows generalizing found with
  | nil =>
      cases h
      exact ⟨rfl, rfl⟩
  | cons row rows ih =>
      rw [List.foldlM_cons] at h
      obtain ⟨next, hnext, h⟩ := Fallible.bind_eq_ok.mp h
      obtain ⟨hunique, hcount⟩ := visit_eq hnext
      obtain ⟨hunique', hcount'⟩ := ih h
      rw [hunique', hcount', hunique, hcount]
      constructor
      · cases hc : candidate pattern row with
        | none => rw [List.filterMap_cons_none hc, Option.elim_none]
        | some e => rw [List.filterMap_cons_some hc, List.foldl_cons, Option.elim_some]
      · cases hn : matchedName pattern row with
        | none =>
            rw [List.filterMap_cons_none hn]
            rfl
        | some name =>
            rw [List.filterMap_cons_some hn, List.length_cons, Nat.add_assoc]
            exact congrArg _ (Nat.add_comm 1 _)

/-! ## Which targets are selected -/

/-- An export has a name that matches, and an address that is not zero. -/
structure Offers (pattern : Text) (row : Json) (address : Nat) (name : Text) : Prop where
  named : matchedName pattern row = some name
  located : ∃ value, row.get "address" = some value ∧ parseValue value = .ok address
  nonzero : address ≠ 0

theorem candidate_eq_some {pattern name : Text} {row : Json} {address : Nat} :
    candidate pattern row = some (address, name) ↔ Offers pattern row address name := by
  rw [candidate]
  constructor
  · intro h
    obtain ⟨found, hfound, h⟩ := Option.bind_eq_some_iff.mp h
    obtain ⟨value, hvalue, h⟩ := Option.bind_eq_some_iff.mp h
    split at h
    next parsed hparsed =>
      cases h
      exact ⟨hfound, ⟨value, hvalue, hparsed⟩, Nat.succ_ne_zero parsed⟩
    next => cases h
  · rintro ⟨hname, ⟨value, hvalue, hparsed⟩, hnonzero⟩
    obtain ⟨parsed, rfl⟩ := Nat.exists_eq_succ_of_ne_zero hnonzero
    rw [hname, hvalue, Option.bind_some, Option.bind_some, hparsed]

/-- An export that matches has no address, or address zero. -/
def unplaced (pattern : Text) (row : Json) : Bool :=
  (matchedName pattern row).isSome && (candidate pattern row).isNone

/-- A matching export is a candidate, or it has no usable address. -/
theorem length_matched (pattern : Text) (rows : List Json) :
    (rows.filterMap (matchedName pattern)).length =
      (rows.filterMap (candidate pattern)).length + (rows.filter (unplaced pattern)).length := by
  induction rows with
  | nil => rfl
  | cons row rows ih =>
      cases hname : matchedName pattern row with
      | none =>
          have hnone : candidate pattern row = none := by rw [candidate, hname, Option.bind_none]
          have hnot : unplaced pattern row = false := by rw [unplaced, hname]; rfl
          rw [List.filterMap_cons_none hname, List.filterMap_cons_none hnone, List.filter_cons,
            hnot, ih]
          rfl
      | some name =>
          rw [List.filterMap_cons_some hname, List.length_cons, ih]
          cases hc : candidate pattern row with
          | none =>
              have hun : unplaced pattern row = true := by rw [unplaced, hname, hc]; rfl
              rw [List.filterMap_cons_none hc, List.filter_cons, if_pos hun, List.length_cons,
                Nat.add_assoc]
          | some e =>
              have hnot : unplaced pattern row = false := by rw [unplaced, hc, Bool.and_comm]; rfl
              rw [List.filterMap_cons_some hc, List.length_cons, List.filter_cons, hnot]
              exact Nat.add_right_comm ..

/-- The first export that offers an address decides its name. -/
theorem find?_candidates {pattern name : Text} {rows : List Json} {address : Nat} :
    ((rows.filterMap (candidate pattern)).find? fun e => e.1 = address).map Prod.snd = some name ↔
      ∃ before row after, rows = before ++ row :: after ∧ Offers pattern row address name ∧
        ∀ r ∈ before, ∀ n, ¬ Offers pattern r address n := by
  have hoffers : ∀ r, (candidate pattern r).any (fun e => e.1 = address) = true ↔
      ∃ n, Offers pattern r address n := by
    intro r
    simp only [Option.any_eq_true, decide_eq_true_eq]
    constructor
    · rintro ⟨⟨address, n⟩, he, rfl⟩
      exact ⟨n, candidate_eq_some.mp he⟩
    · rintro ⟨n, h⟩
      exact ⟨(address, n), candidate_eq_some.mpr h, rfl⟩
  rw [List.find?_filterMap]
  constructor
  · intro h
    obtain ⟨e, he, rfl⟩ := Option.map_eq_some_iff.mp h
    obtain ⟨row, hrow, he⟩ := Option.bind_eq_some_iff.mp he
    obtain ⟨hany, before, after, hrows, hbefore⟩ := List.find?_eq_some_iff_append.mp hrow
    obtain ⟨n, hn⟩ := (hoffers row).mp hany
    have hcandidate := candidate_eq_some.mpr hn
    rw [he, Option.some.injEq] at hcandidate
    subst hcandidate
    refine ⟨before, row, after, hrows, hn, ?_⟩
    intro r hr m hm
    have hnot := hbefore r hr
    rw [(hoffers r).mpr ⟨m, hm⟩] at hnot
    cases hnot
  · rintro ⟨before, row, after, rfl, hrow, hbefore⟩
    have hnone : before.find? (fun r => (candidate pattern r).any fun e => e.1 = address) =
        none := by
      rw [List.find?_eq_none]
      intro r hr hany
      obtain ⟨n, hn⟩ := (hoffers r).mp hany
      exact hbefore r hr n hn
    have hrow' := (hoffers row).mpr ⟨name, hrow⟩
    rw [List.find?_append, hnone, Option.none_or, List.find?_cons, hrow']
    simp only [Option.bind_some, candidate_eq_some.mpr hrow, Option.map_some]

/-! ## The selection -/

/-- The addresses of the matching exports, one for each export. -/
def offers (pattern : Text) (rows : List Json) : List Nat :=
  (rows.filterMap (candidate pattern)).map Prod.fst

/-- What a selection has to do with the request, and with the exports that the Agent answers. -/
structure HookTargetSelection.Answers (s : HookTargetSelection) (pattern : Text)
    (rows : List Json) : Prop where
  /-- Every address is selected once. -/
  sorted : s.targets.Pairwise fun e f => e.1 < f.1
  /-- The addresses of the matching exports are, each with the name of the first one. -/
  mem_iff : ∀ address name, (address, name) ∈ s.targets ↔
    ∃ before row after, rows = before ++ row :: after ∧ Offers pattern row address name ∧
      ∀ r ∈ before, ∀ n, ¬ Offers pattern r address n
  exported : s.exportCount = rows.length
  matched : s.matchedExportCount = (rows.filterMap (matchedName pattern)).length
  /-- What is reported as aliases, the matching exports beyond the targets, are those that repeat
  an address and those that have none or zero. -/
  aliases : s.matchedExportCount = s.targets.length +
    (((offers pattern rows).length - (offers pattern rows).dedup.length) +
      (rows.filter (unplaced pattern)).length)
  digest : s.digest = hookTargetDigest s.module s.targets

/-- A query selects every address that a matching export has, once, with the first such name. -/
theorem hookTargetsQuery_spec {args : String → Option Json} {exports : Text → Option (List Json)}
    {s : HookTargetSelection} (h : hookTargetsQuery args exports = .ok s) :
    ∃ requested pattern rows, (req (args "module") "module").bind moduleName = .ok requested ∧
      symbolPattern (args "symbol_pattern") = .ok pattern ∧ s.module = moduleKey requested ∧
      exports s.module = some rows ∧ s.Answers pattern rows := by
  obtain ⟨text, htext, h⟩ := Fallible.bind_eq_ok.mp h
  obtain ⟨requested, hrequested, h⟩ := Fallible.bind_eq_ok.mp h
  obtain ⟨pattern, hpattern, h⟩ := Fallible.bind_eq_ok.mp h
  cases hexports : exports (moduleKey requested) with
  | none =>
      rw [hexports] at h
      cases h
  | some rows =>
      rw [hexports] at h
      obtain ⟨found, hfound, h⟩ := Fallible.bind_eq_ok.mp h
      cases h
      obtain ⟨hunique, hcount⟩ := Found.foldlM_visit hfound
      rw [Nat.zero_add] at hcount
      have hlength := OrderedMap.length_foldl_orInsert (rows.filterMap (candidate pattern))
      rw [← hunique] at hlength
      have hname := Fallible.bind_eq_ok.mpr ⟨text, htext, hrequested⟩
      refine ⟨requested, pattern, rows, hname, hpattern, rfl, hexports, ?_⟩
      constructor
      case sorted => exact found.unique.sorted
      case mem_iff =>
        intro address name
        rw [← find?_candidates, ← OrderedMap.get_eq_some, hunique,
          OrderedMap.get_foldl_orInsert]
        rfl
      case exported => rfl
      case matched => exact hcount
      case aliases =>
        have hdistinct := (List.dedup_sublist (offers pattern rows)).length_le
        have hoffers : (offers pattern rows).length =
            (rows.filterMap (candidate pattern)).length := List.length_map ..
        have hkeys : found.unique.entries.length = (offers pattern rows).dedup.length := hlength
        simp only [hcount, length_matched, hkeys]
        omega
      case digest => rfl

/-! ## Two names of one address -/

/-- What the steps of a query give makes up its selection. -/
theorem hookTargetsQuery_of_ok {args : String → Option Json} {exports : Text → Option (List Json)}
    {requested : String} {pattern : Text} {rows : List Json} {found : Found}
    (hrequested : (req (args "module") "module").bind moduleName = .ok requested)
    (hpattern : symbolPattern (args "symbol_pattern") = .ok pattern)
    (hrows : exports (moduleKey requested) = some rows)
    (hfound : rows.foldlM (Found.visit pattern) ⟨.empty, 0⟩ = .ok found) :
    hookTargetsQuery args exports = .ok {
      module := moduleKey requested
      digest := hookTargetDigest (moduleKey requested) found.unique.entries
      targets := found.unique.entries
      exportCount := rows.length
      matchedExportCount := found.matchedExportCount } := by
  obtain ⟨text, htext, hname⟩ := Fallible.bind_eq_ok.mp hrequested
  refine Fallible.bind_eq_ok.mpr ⟨text, htext, Fallible.bind_eq_ok.mpr ⟨requested, hname, ?_⟩⟩
  refine Fallible.bind_eq_ok.mpr ⟨pattern, hpattern, ?_⟩
  rw [hrows]
  exact Fallible.bind_eq_ok.mpr ⟨found, hfound, rfl⟩

/-- An export. -/
def exportRow (name address : String) : Json :=
  .object [("name", .string name), ("address", .string address)]

/-- The exports of a module, two of which are at one address and two nowhere. -/
def aliases : List Json :=
  [exportRow "Open" "0x20", exportRow "Read" "16", exportRow "Null" "0", exportRow "Load" "32",
    .object [("name", .string "Lost")]]

/-- A request for all of them. -/
def allExports (name : String) : Option Json :=
  if name = "module" then some (.string "C:\\k.DLL") else none

theorem matchedName_star {row : Json} {name : String} (hname : row.get "name" = some (.string name))
    (h : HookQuery.asterisk ∉ Utf8.encode name.toList) :
    matchedName ['*'] row = some name.toList := by
  have hmatches : wildcardMatch (Utf8.encode ['*']) (Utf8.encode name.toList) = true := by
    refine (HookQuery.wildcardMatch_of_no_star h).mpr ?_
    rw [← List.append_nil (List.map _ (Utf8.encode name.toList))]
    exact Glob.Matches.star_append _ Glob.matches_nil
  rw [matchedName, hname]
  show (if wildcardMatch (Utf8.encode ['*']) (Utf8.encode name.toList) = true
    then some name.toList else none) = _
  rw [if_pos hmatches]

/-- A visit of an export at an address. -/
theorem visit_exportRow {name address : String} {n : Nat} (found : Found)
    (h : HookQuery.asterisk ∉ Utf8.encode name.toList)
    (hn : parseValue (.string address) = .ok (n + 1)) :
    found.visit ['*'] (exportRow name address) =
      .ok ⟨found.unique.orInsert (n + 1) name.toList, found.matchedExportCount + 1⟩ := by
  have haddress : (exportRow name address).get "address" = some (.string address) := rfl
  rw [Found.visit, matchedName_star rfl h]
  simp only [haddress, hn]
  rfl

/-- The second name of an address and the exports without one are left out. -/
theorem foldlM_aliases : aliases.foldlM (Found.visit ['*']) ⟨.empty, 0⟩ =
    .ok ⟨⟨[(16, "Read".toList), (32, "Open".toList)], by simp⟩, 5⟩ := by
  have hnull : ∀ found : Found, found.visit ['*'] (exportRow "Null" "0") =
      .ok ⟨found.unique, found.matchedExportCount + 1⟩ := by
    intro found
    rw [Found.visit, matchedName_star rfl (by decide)]
    rfl
  have hlost : ∀ found : Found, found.visit ['*'] (.object [("name", .string "Lost")]) =
      .ok ⟨found.unique, found.matchedExportCount + 1⟩ := by
    intro found
    rw [Found.visit, matchedName_star rfl (by decide)]
    rfl
  refine Fallible.bind_eq_ok.mpr ⟨_, visit_exportRow (n := 31) _ (by decide) rfl, ?_⟩
  refine Fallible.bind_eq_ok.mpr ⟨_, visit_exportRow (n := 15) _ (by decide) rfl, ?_⟩
  refine Fallible.bind_eq_ok.mpr ⟨_, hnull _, ?_⟩
  refine Fallible.bind_eq_ok.mpr ⟨_, visit_exportRow (n := 31) _ (by decide) rfl, ?_⟩
  refine Fallible.bind_eq_ok.mpr ⟨_, hlost _, ?_⟩
  rfl

/-- The selection of that request. -/
def aliasSelection : HookTargetSelection where
  module := "k.dll".toList
  digest := hookTargetDigest "k.dll".toList [(16, "Read".toList), (32, "Open".toList)]
  targets := [(16, "Read".toList), (32, "Open".toList)]
  exportCount := 5
  matchedExportCount := 5

theorem hookTargetsQuery_aliases :
    hookTargetsQuery allExports (fun _ => some aliases) = .ok aliasSelection := by
  have hrequested : (req (allExports "module") "module").bind moduleName =
      .ok "C:\\k.DLL" := rfl
  have hpattern : symbolPattern (allExports "symbol_pattern") = .ok ['*'] := rfl
  have hkey : moduleKey "C:\\k.DLL" = "k.dll".toList := by decide
  rw [@hookTargetsQuery_of_ok _ (fun _ => some aliases) _ _ _ _ hrequested hpattern rfl
    foldlM_aliases, hkey]
  rfl

theorem hookTargetsQuery_spec_aliases : aliasSelection.Answers ['*'] aliases := by
  obtain ⟨-, pattern, rows, -, hpattern, -, hrows, hanswers⟩ :=
    hookTargetsQuery_spec hookTargetsQuery_aliases
  cases hpattern
  cases hrows
  exact hanswers

end PinBridge.Targets
