import PinBridge.Lib.Transition
import PinBridge.Query.FrameFit
import PinBridge.Scripts.RoundTrip

/-!
# Script records of the Hub

The Hub keeps a record of every script it has loaded: its source, a hash and a
generation of it, an identity, and whether the script is loaded in the Agent.
`Service` has both sides, the records and the scripts of the Agent.

Five calls change them (`Call`), one at a time under a lock.  A call makes at
most one request that changes the Agent.  The request is answered, or it fails
and the Agent is as before.  A module that is stopped keeps its record.
Replacing it saves the new source and loads nothing until it is started.

A load request carries the name and the source, and it has to fit a frame.
The limits on names and sources are checked one by one, and they allow a
request that does not fit.

`Service.Tracks` is what a call should do to the two sides, and
`records_track_iff` says in which runs every call does it.
-/

namespace PinBridge.ScriptRecords

open Transition (run Guarded)
open Query (writeFrame maxFrame)
open Scripts (putShort statusOk)
open Utf8 (Text)

/-! ## Requests -/

/-- `MAX_SCRIPT_NAME_BYTES`. -/
def maxScriptNameBytes : Nat := 256

/-- `MAX_SCRIPT_SOURCE_BYTES`. -/
def maxScriptSourceBytes : Nat := 1024 * 1024

/-- The kinds of scripts. -/
inductive ScriptKind where
  | module
  | callback
  deriving DecidableEq, Repr

/-- `ScriptKind::parse`. -/
def ScriptKind.parse (value : Option String) : Except String ScriptKind :=
  match value.getD "module" with
  | "module" => .ok .module
  | "callback" => .ok .callback
  | _ => .error "kind must be module or callback"

/-- `ScriptKind::as_str`. -/
def ScriptKind.asStr : ScriptKind → String
  | .module => "module"
  | .callback => "callback"

/-- A name and a source. -/
structure ScriptRequest where
  /-- The script's name. -/
  name : Text
  /-- Its source. -/
  source : Text
  deriving DecidableEq, Repr

/-- `char::is_control`. -/
def isControl (c : Char) : Bool := c.toNat < 0x20 || (0x7f ≤ c.toNat && c.toNat < 0xa0)

/-- `ScriptService::validate`. -/
def validate (r : ScriptRequest) : Except String Unit :=
  if r.name = [] then .error "name must not be empty"
  else if maxScriptNameBytes < Utf8.size r.name then .error "name exceeds 256 bytes"
  else if r.name.any isControl || (Utf8.encode r.name).contains 0 then
    .error "name contains control character"
  else if r.source = [] then .error "source must not be empty"
  else if maxScriptSourceBytes < Utf8.size r.source then .error "source exceeds 1 MiB"
  else if (Utf8.encode r.source).contains 0 then .error "source contains NUL"
  else .ok ()

/-- `validate_name`. -/
def validateName (name : Text) : Except String Unit :=
  if name = [] || maxScriptNameBytes < Utf8.size name || name.any isControl ||
      (Utf8.encode name).contains 0 then .error "invalid script name"
  else .ok ()

/-! ## Records -/

/-- Where a recorded script is. -/
inductive RecordState where
  | stopped
  | loadStaged
  | replacementStaged
  deriving DecidableEq, Repr

/-- The name of a state. -/
def RecordState.asStr : RecordState → String
  | .stopped => "stopped"
  | .loadStaged => "load_staged"
  | .replacementStaged => "replacement_staged"

/-- The record of a script. -/
structure Record where
  /-- The script's identity. -/
  scriptId : String
  /-- Its kind. -/
  kind : ScriptKind
  /-- The generation of its source. -/
  generation : UInt64
  /-- The hash of its source. -/
  sourceHash : String
  /-- Its source. -/
  source : Text
  /-- Who created it. -/
  createdBy : String
  /-- Who modified it last. -/
  modifiedBy : String
  /-- The Agent's id of the load. -/
  agentId : Option UInt32
  /-- Where it is. -/
  state : RecordState
  deriving DecidableEq, Repr

/-- What a successful call answers. -/
inductive Reply where
  /-- `ScriptResource`. -/
  | resource (name : Text) (scriptId : String) (kind : String) (generation : UInt64)
      (sourceHash state createdBy modifiedBy : String) (agentId : Option UInt32)
  | removed (name : Text) (scriptId : String) (generation : UInt64) (sourceHash : String)
  deriving DecidableEq, Repr

/-- `resource`. -/
def Record.resource (r : Record) (name : Text) : Reply :=
  .resource name r.scriptId r.kind.asStr r.generation r.sourceHash r.state.asStr r.createdBy
    r.modifiedBy r.agentId

/-- The Hub's records, its next identity, and the loaded scripts of the Agent. -/
structure Service where
  /-- The source that the Agent has loaded under a name. -/
  agent : Text → Option Text
  /-- `records`. -/
  records : Text → Option Record
  /-- `next`. -/
  next : UInt64

/-- A Hub that has just started, at an Agent that may have scripts. -/
def Service.init (agent : Text → Option Text) : Service where
  agent
  records _ := none
  next := 1

/-! ## Requests to the Agent -/

/-- How a request fails. -/
inductive AgentError where
  | connection (text : String)
  | operation (text : String)
  deriving DecidableEq, Repr

/-- `format_agent`. -/
def AgentError.format : AgentError → String
  | .connection x => "connection_failed: " ++ x
  | .operation x => "agent_failed: " ++ x

/-- The payload of a load request. -/
def scriptLoadPayload (name source : Text) : List UInt8 :=
  putShort name ++ (LittleEndian.encode 4 (Utf8.size source) ++ Utf8.encode source)

/-- The frame of a load request, unless it is too large. -/
def scriptLoadFrame (name source : Text) : Option (List UInt8) :=
  writeFrame 0x40 statusOk (scriptLoadPayload name source)

/-- `script_load`.  The answer is that of the Agent, or of the connection to
it. -/
def Service.scriptLoad (s : Service) (name source : Text) (answer : Except AgentError UInt32) :
    Except AgentError (UInt32 × Service) :=
  match answer with
  | .error e => .error e
  | .ok id =>
      if (scriptLoadFrame name source).isNone then .error (.operation "frame too large")
      else .ok (id, { s with agent := Function.update s.agent name (some source) })

/-- `script_unload`. -/
def Service.scriptUnload (s : Service) (name : Text) (answer : Except AgentError Unit) :
    Except AgentError Service :=
  match answer with
  | .error e => .error e
  | .ok () => .ok { s with agent := Function.update s.agent name none }

/-- Put a record. -/
def Service.insert (s : Service) (name : Text) (r : Record) : Service :=
  { s with records := Function.update s.records name (some r) }

/-! ## Calls -/

section Hash

-- SHA-256, in hexadecimal
variable (hash : Text → String)

/-- Save the source of a stopped module. -/
def Service.saveStopped (s : Service) (r : ScriptRequest) (actor : String) (old : Record) :
    Service × Except String Reply :=
  let record : Record := {
    old with
    generation := old.generation + 1
    sourceHash := hash r.source
    source := r.source
    modifiedBy := actor
    agentId := none
    state := .stopped }
  (s.insert r.name record, .ok (record.resource r.name))

/-- Load a source and record it. -/
def Service.loadAndRecord (s : Service) (r : ScriptRequest) (replace : Bool) (actor : String)
    (kind : ScriptKind) (old : Option Record) (agentExists : Bool)
    (answer : Except AgentError UInt32) : Service × Except String Reply :=
  match s.scriptLoad r.name r.source answer with
  | .error e => (s, .error e.format)
  | .ok (id, t) =>
      let (scriptId, generation, createdBy, next) :=
        match old with
        | some o => (o.scriptId, o.generation + 1, o.createdBy, t.next)
        | none =>
            if agentExists then ("agent:" ++ String.ofList r.name, 1, "unknown", t.next)
            else ("script-" ++ toString t.next.toNat, 1, actor, t.next + 1)
      let record : Record := {
        scriptId, kind, generation, createdBy
        sourceHash := hash r.source
        source := r.source
        modifiedBy := actor
        agentId := some id
        state := if replace then .replacementStaged else .loadStaged }
      (Service.insert { t with next } r.name record, .ok (record.resource r.name))

/-- The error for a kind that is not the recorded one. -/
def kindMismatch (name : Text) (old requested : ScriptKind) : String :=
  "script kind mismatch: " ++ String.ofList name ++ " is " ++ old.asStr ++ ", not " ++
    requested.asStr

/-- `apply`.  `listed` and `answer` are the answers to the list and the load
requests. -/
def Service.apply (s : Service) (r : ScriptRequest) (replace : Bool) (actor : String)
    (requestedKind : Option String) (listed : Except AgentError Unit)
    (answer : Except AgentError UInt32) : Service × Except String Reply :=
  match validate r with
  | .error e => (s, .error e)
  | .ok () =>
  match requestedKind.mapM fun kind => ScriptKind.parse (some kind) with
  | .error e => (s, .error e)
  | .ok requested =>
  match s.records r.name with
  | some old =>
      if requested.any (· ≠ old.kind) then
        (s, .error (kindMismatch r.name old.kind (requested.getD .module)))
      else if replace && old.kind = .module && old.state = .stopped then
        s.saveStopped hash r actor old
      else s.loadAndRecord hash r replace actor old.kind (some old) false answer
  | none =>
      let kind := requested.getD .module
      if !replace then s.loadAndRecord hash r replace actor kind none false answer
      else
        match listed with
        | .error e => (s, .error e.format)
        | .ok () =>
            if (s.agent r.name).isNone then
              (s, .error "script_replace requires an existing control-plane or Agent script")
            else s.loadAndRecord hash r replace actor kind none true answer

/-- `stop`. -/
def Service.stop (s : Service) (name : Text) (answer : Except AgentError Unit) :
    Service × Except String Reply :=
  match validateName name with
  | .error e => (s, .error e)
  | .ok () =>
  match s.records name with
  | none =>
      (s, .error "module source unavailable: script was not loaded through this Hub")
  | some current =>
      if current.kind ≠ .module then
        (s, .error "callback scripts are stopped by removing their owning binding")
      else if current.state = .stopped then (s, .ok (current.resource name))
      else
        match s.scriptUnload name answer with
        | .error e => (s, .error e.format)
        | .ok t =>
            let record := { current with state := .stopped, agentId := none }
            (t.insert name record, .ok (record.resource name))

/-- `start`. -/
def Service.start (s : Service) (name : Text) (answer : Except AgentError UInt32) :
    Service × Except String Reply :=
  match validateName name with
  | .error e => (s, .error e)
  | .ok () =>
  match s.records name with
  | none =>
      (s, .error "module source unavailable: script was not loaded through this Hub")
  | some current =>
      if current.kind ≠ .module then
        (s, .error "callback scripts start with their owning binding")
      else if current.state ≠ .stopped then (s, .error "module is already active")
      else
        match s.scriptLoad name current.source answer with
        | .error e => (s, .error e.format)
        | .ok (id, t) =>
            let record := { current with state := .loadStaged, agentId := some id }
            (t.insert name record, .ok (record.resource name))

/-- `remove`. -/
def Service.remove (s : Service) (name : Text) (answer : Except AgentError Unit) :
    Service × Except String Reply :=
  match validateName name with
  | .error e => (s, .error e)
  | .ok () =>
  let unloaded :=
    if (s.records name).any (·.state = .stopped) then .ok s else s.scriptUnload name answer
  match unloaded with
  | .error e => (s, .error e.format)
  | .ok t =>
      ({ t with records := Function.update t.records name none },
        .ok (match s.records name with
          | some r => .removed name r.scriptId r.generation r.sourceHash
          | none => .removed name ("agent:" ++ String.ofList name) 0 "unknown"))

/-- A call, with the answers of the Agent. -/
inductive Call where
  | apply (r : ScriptRequest) (replace : Bool) (actor : String) (requestedKind : Option String)
      (listed : Except AgentError Unit) (answer : Except AgentError UInt32)
  | stop (name : Text) (answer : Except AgentError Unit)
  | start (name : Text) (answer : Except AgentError UInt32)
  | remove (name : Text) (answer : Except AgentError Unit)

/-- Make a call. -/
def Service.call (s : Service) : Call → Service × Except String Reply
  | .apply r replace actor requestedKind listed answer =>
      s.apply hash r replace actor requestedKind listed answer
  | .stop name answer => s.stop name answer
  | .start name answer => s.start name answer
  | .remove name answer => s.remove name answer

/-- One call. -/
def Service.step (s : Service) (c : Call) : Option Service := some (s.call hash c).1

/-! ## What a call should do -/

/-- The request of a call that saves a source. -/
def Call.request : Call → Option ScriptRequest
  | .apply r _ _ _ _ _ => some r
  | _ => none

/-- A record is right about the script that the Agent has under its name.  The
source is hashed, it is loaded unless the record is stopped, and only modules
with proper names are stopped. -/
structure Record.Right (r : Record) (name : Text) (script : Option Text) : Prop where
  /-- The hash is that of the source. -/
  hashed : r.sourceHash = hash r.source
  /-- The Agent has the source unless the record is stopped. -/
  loaded : script = if r.state = .stopped then none else some r.source
  /-- Only modules are stopped. -/
  stopped (h : r.state = .stopped) : r.kind = .module
  /-- The name was checked. -/
  named : validateName name = .ok ()

/-- Every record is right. -/
def Service.Consistent (s : Service) : Prop :=
  ∀ ⦃name : Text⦄ ⦃r : Record⦄, s.records name = some r → r.Right hash name (s.agent name)

/-- What a call should do to the two sides. -/
structure Service.Tracks (s : Service) (c : Call) : Prop where
  /-- A call that fails leaves the records. -/
  refused {e : String} (h : (s.call hash c).2 = .error e) : (s.call hash c).1.records = s.records
  /-- The identity of a record does not change. -/
  identity {name : Text} {old new : Record} (hold : s.records name = some old)
    (hnew : (s.call hash c).1.records name = some new) :
    new.scriptId = old.scriptId ∧ new.kind = old.kind
  /-- Every saved source is a new generation. -/
  generation {r : ScriptRequest} {reply : Reply} {old new : Record} (hrequest : c.request = some r)
    (hreply : (s.call hash c).2 = .ok reply) (hold : s.records r.name = some old)
    (hnew : (s.call hash c).1.records r.name = some new) :
    new.source = r.source ∧ old.generation < new.generation
  /-- No other source is saved. -/
  kept {name : Text} {old new : Record} (hold : s.records name = some old)
    (hnew : (s.call hash c).1.records name = some new)
    (hother : ∀ r, c.request = some r → r.name ≠ name) :
    new.source = old.source ∧ new.generation = old.generation
  /-- The hashes and the loaded scripts are right. -/
  consistent : (s.call hash c).1.Consistent hash
  /-- What is accepted can be loaded. -/
  fits {r : ScriptRequest} (hrequest : c.request = some r) (haccepted : validate r = .ok ()) :
    (scriptLoadFrame r.name r.source).isSome = true
  /-- What is stopped can be started. -/
  startable {name : Text} {r : Record} (h : (s.call hash c).1.records name = some r)
    (hstate : r.state = .stopped) (id : UInt32) :
    ∃ reply, ((s.call hash c).1.start name (.ok id)).2 = .ok reply

/-- The name and the source of a call fit a frame together, and the generation
of a source it saves is not the last one. -/
def Service.Fits (s : Service) : Call → Prop
  | .apply r replace _ requestedKind _ answer =>
      validate r = .ok () → Utf8.size r.name + Utf8.size r.source + 8 ≤ maxFrame.toNat ∧
        ∀ old, s.records r.name = some old →
          (∀ kind, requestedKind = some kind → ScriptKind.parse (some kind) = .ok old.kind) →
          ((replace = true ∧ old.kind = .module ∧ old.state = .stopped) ∨ ∃ id, answer = .ok id) →
          old.generation.toNat + 1 < 2 ^ 64
  | _ => True

/-! ## What a call does -/

/-- The outcomes of a call. -/
inductive Service.Effect (s : Service) (c : Call) : Service × Except String Reply → Prop where
  | refused (e : String) : Effect s c (s, .error e)
  | unchanged (reply : Reply) (hrequest : c.request = none) : Effect s c (s, .ok reply)
  | saved {r : ScriptRequest} {old record : Record} (reply : Reply)
      (hrequest : c.request = some r) (haccepted : validate r = .ok ())
      (hold : s.records r.name = some old) (hkind : old.kind = .module)
      (hstate : old.state = .stopped)
      (hrecord : record.scriptId = old.scriptId ∧ record.kind = old.kind ∧
        record.generation = old.generation + 1 ∧ record.sourceHash = hash r.source ∧
        record.source = r.source ∧ record.state = .stopped) :
      Effect s c (s.insert r.name record, .ok reply)
  | loaded {r : ScriptRequest} {record : Record} (reply : Reply) (next : UInt64)
      (hrequest : c.request = some r) (haccepted : validate r = .ok ())
      (hframe : (scriptLoadFrame r.name r.source).isSome = true)
      (hold : ∀ old, s.records r.name = some old → record.scriptId = old.scriptId ∧
        record.kind = old.kind ∧ record.generation = old.generation + 1)
      (hrecord : record.sourceHash = hash r.source ∧ record.source = r.source ∧
        record.state ≠ .stopped) :
      Effect s c (⟨Function.update s.agent r.name (some r.source),
        Function.update s.records r.name (some record), next⟩, .ok reply)
  | stopped {name : Text} {old : Record} (reply : Reply) (hrequest : c.request = none)
      (hold : s.records name = some old) (hkind : old.kind = .module) :
      Effect s c (⟨Function.update s.agent name none, Function.update s.records name
        (some { old with state := .stopped, agentId := none }), s.next⟩, .ok reply)
  | started {name : Text} {old : Record} (id : UInt32) (reply : Reply)
      (hrequest : c.request = none) (hold : s.records name = some old) :
      Effect s c (⟨Function.update s.agent name (some old.source), Function.update s.records name
        (some { old with state := .loadStaged, agentId := some id }), s.next⟩, .ok reply)
  | removed {name : Text} {agent : Text → Option Text} (reply : Reply)
      (hrequest : c.request = none) (hagent : ∀ a, a ≠ name → agent a = s.agent a) :
      Effect s c (⟨agent, Function.update s.records name none, s.next⟩, .ok reply)

variable {hash}

theorem Service.scriptLoad_eq_ok {s t : Service} {name source : Text}
    {answer : Except AgentError UInt32} {id : UInt32}
    (h : s.scriptLoad name source answer = .ok (id, t)) :
    (scriptLoadFrame name source).isSome = true ∧ answer = .ok id ∧
      t = { s with agent := Function.update s.agent name (some source) } := by
  cases answer with
  | error e => exact nomatch h
  | ok id' =>
      simp only [Service.scriptLoad] at h
      split at h
      · exact nomatch h
      next hframe =>
        cases h
        refine ⟨?_, rfl, rfl⟩
        cases hsome : scriptLoadFrame name source with
        | none => rw [hsome] at hframe; exact absurd rfl hframe
        | some frame => rfl

theorem Service.scriptUnload_eq_ok {s t : Service} {name : Text}
    {answer : Except AgentError Unit} (h : s.scriptUnload name answer = .ok t) :
    t = { s with agent := Function.update s.agent name none } := by
  cases answer with
  | error e => exact nomatch h
  | ok u =>
      cases h
      rfl

theorem Service.effect_loadAndRecord {s : Service} {c : Call} {r : ScriptRequest} {replace : Bool}
    {actor : String} {kind : ScriptKind} {old : Option Record} {agentExists : Bool}
    {answer : Except AgentError UInt32} (hrequest : c.request = some r)
    (haccepted : validate r = .ok ()) (hold : s.records r.name = old)
    (hkind : ∀ o, old = some o → kind = o.kind) :
    s.Effect hash c (s.loadAndRecord hash r replace actor kind old agentExists answer) := by
  rw [Service.loadAndRecord]
  split
  · exact .refused _
  next id t hload =>
    obtain ⟨hframe, -, rfl⟩ := Service.scriptLoad_eq_ok hload
    have hstate : (if replace then RecordState.replacementStaged else .loadStaged) ≠ .stopped := by
      split <;> decide
    cases old with
    | some o =>
        refine .loaded _ _ hrequest haccepted hframe (fun o' ho' => ?_) ⟨rfl, rfl, hstate⟩
        cases hold.symm.trans ho'
        exact ⟨rfl, hkind o rfl, rfl⟩
    | none =>
        refine .loaded _ _ hrequest haccepted hframe (fun o' ho' => ?_) ⟨rfl, rfl, hstate⟩
        exact nomatch hold.symm.trans ho'

theorem Service.effect_apply (s : Service) (r : ScriptRequest) (replace : Bool) (actor : String)
    (requestedKind : Option String) (listed : Except AgentError Unit)
    (answer : Except AgentError UInt32) :
    s.Effect hash (.apply r replace actor requestedKind listed answer)
      (s.apply hash r replace actor requestedKind listed answer) := by
  rw [Service.apply]
  split
  · exact .refused _
  next haccepted =>
  split
  · exact .refused _
  next requested _ =>
  split
  next old hold =>
    split
    · exact .refused _
    · split
      next hstopped =>
        simp only [Bool.and_eq_true, decide_eq_true_eq] at hstopped
        exact .saved _ rfl haccepted hold hstopped.1.2 hstopped.2
          ⟨rfl, rfl, rfl, rfl, rfl, rfl⟩
      next =>
        refine Service.effect_loadAndRecord rfl haccepted hold fun o ho => ?_
        cases ho
        rfl
  next hnone =>
    dsimp only
    split
    · exact Service.effect_loadAndRecord rfl haccepted hnone nofun
    · split
      · exact .refused _
      · split
        · exact .refused _
        · exact Service.effect_loadAndRecord rfl haccepted hnone nofun

theorem Service.effect_stop (s : Service) (name : Text) (answer : Except AgentError Unit) :
    s.Effect hash (.stop name answer) (s.stop name answer) := by
  rw [Service.stop]
  split
  · exact .refused _
  split
  · exact .refused _
  next old hold =>
  split
  · exact .refused _
  next hkind =>
  split
  · exact .unchanged _ rfl
  split
  · exact .refused _
  next t hunload =>
    obtain rfl := Service.scriptUnload_eq_ok hunload
    exact .stopped _ rfl hold (not_not.mp hkind)

theorem Service.effect_start (s : Service) (name : Text) (answer : Except AgentError UInt32) :
    s.Effect hash (.start name answer) (s.start name answer) := by
  rw [Service.start]
  split
  · exact .refused _
  split
  · exact .refused _
  next old hold =>
  split
  · exact .refused _
  split
  · exact .refused _
  split
  · exact .refused _
  next id t hload =>
    obtain ⟨-, -, rfl⟩ := Service.scriptLoad_eq_ok hload
    exact .started id _ rfl hold

theorem Service.effect_remove (s : Service) (name : Text) (answer : Except AgentError Unit) :
    s.Effect hash (.remove name answer) (s.remove name answer) := by
  rw [Service.remove]
  split
  · exact .refused _
  dsimp only
  split
  · exact .refused _
  next t hunloaded =>
  split at hunloaded
  · cases hunloaded
    exact .removed _ rfl fun _ _ => rfl
  · obtain rfl := Service.scriptUnload_eq_ok hunloaded
    exact .removed _ rfl fun a ha => Function.update_of_ne ha _ _

theorem Service.effect_call (s : Service) (c : Call) : s.Effect hash c (s.call hash c) := by
  cases c with
  | apply r replace actor requestedKind listed answer =>
      exact s.effect_apply r replace actor requestedKind listed answer
  | stop name answer => exact s.effect_stop name answer
  | start name answer => exact s.effect_start name answer
  | remove name answer => exact s.effect_remove name answer

/-! ## Consistency -/

/-- Changing one name keeps the other records right. -/
theorem Service.Consistent.update {s : Service} (h : s.Consistent hash) {name : Text}
    {agent : Text → Option Text} (hagent : ∀ a, a ≠ name → agent a = s.agent a)
    {record : Option Record} (hrecord : ∀ r, record = some r → r.Right hash name (agent name))
    (next : UInt64) :
    Service.Consistent hash ⟨agent, Function.update s.records name record, next⟩ := by
  intro a r hr
  dsimp only at hr ⊢
  rcases eq_or_ne a name with rfl | hne
  · rw [Function.update_self] at hr
    exact hrecord r hr
  · rw [Function.update_of_ne hne] at hr
    rw [hagent a hne]
    exact h hr

theorem validateName_of_validate {r : ScriptRequest} (h : validate r = .ok ()) :
    validateName r.name = .ok () := by
  rw [validate] at h
  split at h
  · exact nomatch h
  next hempty =>
  split at h
  · exact nomatch h
  next hsize =>
  split at h
  · exact nomatch h
  next hcontrol =>
    rw [validateName, if_neg]
    simp only [Bool.or_eq_true, decide_eq_true_eq, not_or, Bool.not_eq_true] at hcontrol ⊢
    exact ⟨⟨⟨hempty, hsize⟩, hcontrol.1⟩, hcontrol.2⟩

theorem Service.Effect.consistent {s : Service} {c : Call}
    {result : Service × Except String Reply} (h : s.Effect hash c result)
    (hs : s.Consistent hash) : result.1.Consistent hash := by
  cases h with
  | refused e => exact hs
  | unchanged reply _ => exact hs
  | saved reply _ haccepted hold hkind hstate hrecord =>
      obtain ⟨-, hkind', -, hhash, hsource, hstate'⟩ := hrecord
      refine hs.update (fun _ _ => rfl) ?_ _
      rintro _ ⟨⟩
      refine ⟨hsource ▸ hhash, ?_, fun _ => hkind'.trans hkind,
        validateName_of_validate haccepted⟩
      rw [(hs hold).loaded, if_pos hstate, if_pos hstate']
  | loaded reply next _ haccepted _ _ hrecord =>
      obtain ⟨hhash, hsource, hstate⟩ := hrecord
      refine hs.update (fun a ha => Function.update_of_ne ha _ _) ?_ _
      rintro _ ⟨⟩
      refine ⟨hsource ▸ hhash, ?_, fun h => absurd h hstate, validateName_of_validate haccepted⟩
      rw [Function.update_self, if_neg hstate, hsource]
  | stopped reply _ hold hkind =>
      refine hs.update (fun a ha => Function.update_of_ne ha _ _) ?_ _
      rintro _ ⟨⟩
      exact ⟨(hs hold).hashed, Function.update_self _ _ _, fun _ => hkind, (hs hold).named⟩
  | started id reply _ hold =>
      refine hs.update (fun a ha => Function.update_of_ne ha _ _) ?_ _
      rintro _ ⟨⟩
      exact ⟨(hs hold).hashed, Function.update_self _ _ _, nofun, (hs hold).named⟩
  | removed reply _ hagent =>
      refine hs.update hagent (fun r hr => ?_) _
      exact nomatch hr

/-! ## Frames -/

theorem validate_size {r : ScriptRequest} (h : validate r = .ok ()) :
    Utf8.size r.name ≤ maxScriptNameBytes ∧ Utf8.size r.source ≤ maxScriptSourceBytes := by
  rw [validate] at h
  split at h
  · exact nomatch h
  split at h
  · exact nomatch h
  next hname =>
  split at h
  · exact nomatch h
  split at h
  · exact nomatch h
  split at h
  · exact nomatch h
  next hsource => exact ⟨not_lt.mp hname, not_lt.mp hsource⟩

/-- An accepted request is sent exactly when it fits a frame. -/
theorem scriptLoadFrame_isSome_iff {name source : Text} (hname : Utf8.size name ≤ maxScriptNameBytes)
    (hsource : Utf8.size source ≤ maxScriptSourceBytes) :
    (scriptLoadFrame name source).isSome = true ↔
      Utf8.size name + Utf8.size source + 8 ≤ maxFrame.toNat := by
  have hlength : (scriptLoadPayload name source).length + 2 =
      Utf8.size name + Utf8.size source + 8 := by
    simp only [scriptLoadPayload, putShort, List.length_append, LittleEndian.length_encode,
      Utf8.length_encode]
    omega
  constructor
  · intro hsome
    rw [scriptLoadFrame, writeFrame] at hsome
    split at hsome
    · cases hsome
    next hle =>
      have hle := UInt32.not_lt.mp hle
      rw [UInt32.le_iff_toNat_le, UInt32.toNat_ofNat_of_lt', hlength] at hle
      · exact hle
      · rw [hlength]
        simp only [maxScriptNameBytes, maxScriptSourceBytes] at hname hsource
        rw [UInt32.size]
        omega
  · intro hle
    exact Query.isSome_writeFrame (hlength ▸ hle) _ _

/-! ## Identity and generation -/

theorem Service.Effect.records_of_error {s : Service} {c : Call}
    {result : Service × Except String Reply} (h : s.Effect hash c result) {e : String}
    (he : result.2 = .error e) : result.1.records = s.records := by
  cases h with
  | refused e => rfl
  | _ => exact nomatch he

/-- A record that lives on keeps its identity.  Its source and its generation
change when the call saves a source for it, and only then. -/
theorem Service.Effect.lives {s : Service} {c : Call} {result : Service × Except String Reply}
    (h : s.Effect hash c result) {name : Text} {old new : Record}
    (hold : s.records name = some old) (hnew : result.1.records name = some new) :
    (new.scriptId = old.scriptId ∧ new.kind = old.kind) ∧
      (new.source = old.source ∧ new.generation = old.generation ∨
        ∃ r, c.request = some r ∧ r.name = name) ∧
      ∀ r reply, c.request = some r → r.name = name → result.2 = .ok reply →
        new.source = r.source ∧ new.generation = old.generation + 1 := by
  have hsame (hrecords : result.1.records name = s.records name) :
      new = old := Option.some.inj (hnew.symm.trans (hrecords.trans hold))
  have hself {record : Record} (hupdated : Function.update s.records name (some record) name =
      some new) : new = record := by
    rw [Function.update_self] at hupdated
    exact (Option.some.inj hupdated).symm
  cases h with
  | refused e =>
      obtain rfl := hsame rfl
      exact ⟨⟨rfl, rfl⟩, .inl ⟨rfl, rfl⟩, fun _ _ _ _ h => nomatch h⟩
  | unchanged reply hrequest =>
      obtain rfl := hsame rfl
      exact ⟨⟨rfl, rfl⟩, .inl ⟨rfl, rfl⟩, fun _ _ h => nomatch hrequest.symm.trans h⟩
  | @saved r o record reply hrequest _ hsaved _ _ hrecord =>
      rcases eq_or_ne name r.name with rfl | hne
      · obtain rfl := hself hnew
        cases hsaved.symm.trans hold
        obtain ⟨hid, hkind, hgeneration, -, hsource, -⟩ := hrecord
        refine ⟨⟨hid, hkind⟩, .inr ⟨r, hrequest, rfl⟩, fun r' _ h _ _ => ?_⟩
        cases hrequest.symm.trans h
        exact ⟨hsource, hgeneration⟩
      · obtain rfl := hsame (Function.update_of_ne hne _ _)
        refine ⟨⟨rfl, rfl⟩, .inl ⟨rfl, rfl⟩, fun r' _ h hname _ => ?_⟩
        cases hrequest.symm.trans h
        exact absurd hname.symm hne
  | @loaded r record reply next hrequest _ _ hloaded hrecord =>
      rcases eq_or_ne name r.name with rfl | hne
      · obtain rfl := hself hnew
        obtain ⟨hid, hkind, hgeneration⟩ := hloaded old hold
        refine ⟨⟨hid, hkind⟩, .inr ⟨r, hrequest, rfl⟩, fun r' _ h _ _ => ?_⟩
        cases hrequest.symm.trans h
        exact ⟨hrecord.2.1, hgeneration⟩
      · obtain rfl := hsame (Function.update_of_ne hne _ _)
        refine ⟨⟨rfl, rfl⟩, .inl ⟨rfl, rfl⟩, fun r' _ h hname _ => ?_⟩
        cases hrequest.symm.trans h
        exact absurd hname.symm hne
  | @stopped n o reply hrequest hstopped _ =>
      have hkept : (new.scriptId = old.scriptId ∧ new.kind = old.kind) ∧
          new.source = old.source ∧ new.generation = old.generation := by
        rcases eq_or_ne name n with rfl | hne
        · obtain rfl := hself hnew
          cases hstopped.symm.trans hold
          exact ⟨⟨rfl, rfl⟩, rfl, rfl⟩
        · obtain rfl := hsame (Function.update_of_ne hne _ _)
          exact ⟨⟨rfl, rfl⟩, rfl, rfl⟩
      exact ⟨hkept.1, .inl hkept.2, fun _ _ h => nomatch hrequest.symm.trans h⟩
  | @started n o id reply hrequest hstarted =>
      have hkept : (new.scriptId = old.scriptId ∧ new.kind = old.kind) ∧
          new.source = old.source ∧ new.generation = old.generation := by
        rcases eq_or_ne name n with rfl | hne
        · obtain rfl := hself hnew
          cases hstarted.symm.trans hold
          exact ⟨⟨rfl, rfl⟩, rfl, rfl⟩
        · obtain rfl := hsame (Function.update_of_ne hne _ _)
          exact ⟨⟨rfl, rfl⟩, rfl, rfl⟩
      exact ⟨hkept.1, .inl hkept.2, fun _ _ h => nomatch hrequest.symm.trans h⟩
  | @removed n agent reply hrequest _ =>
      rcases eq_or_ne name n with rfl | hne
      · exact nomatch (Function.update_self _ _ _).symm.trans hnew
      · obtain rfl := hsame (Function.update_of_ne hne _ _)
        exact ⟨⟨rfl, rfl⟩, .inl ⟨rfl, rfl⟩, fun _ _ h => nomatch hrequest.symm.trans h⟩

/-! ## When a source is saved -/

theorem Service.loadAndRecord_eq_ok_iff {s : Service} {r : ScriptRequest} {replace : Bool}
    {actor : String} {kind : ScriptKind} {old : Option Record} {agentExists : Bool}
    {answer : Except AgentError UInt32} :
    (∃ reply, (s.loadAndRecord hash r replace actor kind old agentExists answer).2 = .ok reply) ↔
      (scriptLoadFrame r.name r.source).isSome = true ∧ ∃ id, answer = .ok id := by
  cases answer with
  | error e => simp [Service.loadAndRecord, Service.scriptLoad]
  | ok id =>
      cases hframe : scriptLoadFrame r.name r.source with
      | none => simp [Service.loadAndRecord, Service.scriptLoad, hframe]
      | some frame => simp [Service.loadAndRecord, Service.scriptLoad, hframe]

theorem parse_requested_iff {requestedKind : Option String} {old : ScriptKind} :
    (∀ kind, requestedKind = some kind → ScriptKind.parse (some kind) = .ok old) ↔
      ∃ requested, (requestedKind.mapM fun kind => ScriptKind.parse (some kind)) = .ok requested ∧
        requested.any (· ≠ old) = false := by
  cases requestedKind with
  | none =>
      refine iff_of_true nofun ⟨none, rfl, rfl⟩
  | some kind =>
      rw [Option.mapM_some]
      cases hparse : ScriptKind.parse (some kind) with
      | error e =>
          refine iff_of_false (fun h => ?_) ?_
          · exact nomatch hparse.symm.trans (h kind rfl)
          · rintro ⟨requested, hrequested, -⟩
            exact nomatch hrequested
      | ok parsed =>
          constructor
          · intro h
            cases hparse.symm.trans (h kind rfl)
            exact ⟨some old, rfl, by simp⟩
          · rintro ⟨requested, hrequested, hany⟩ k hk
            cases hk
            cases hrequested
            rw [hparse]
            simpa using hany

/-- A call saves a source over a record when the kinds are the same, and the
record is stopped and replaced or the load request is sent and answered. -/
theorem Service.apply_eq_ok_iff {s : Service} {r : ScriptRequest} {replace : Bool} {actor : String}
    {requestedKind : Option String} {listed : Except AgentError Unit}
    {answer : Except AgentError UInt32} (haccepted : validate r = .ok ()) {old : Record}
    (hold : s.records r.name = some old) :
    (∃ reply, (s.apply hash r replace actor requestedKind listed answer).2 = .ok reply) ↔
      (∀ kind, requestedKind = some kind → ScriptKind.parse (some kind) = .ok old.kind) ∧
        ((replace = true ∧ old.kind = .module ∧ old.state = .stopped) ∨
          (scriptLoadFrame r.name r.source).isSome = true ∧ ∃ id, answer = .ok id) := by
  rw [Service.apply, haccepted, parse_requested_iff]
  dsimp only
  cases hparse : requestedKind.mapM fun kind => ScriptKind.parse (some kind) with
  | error e =>
      refine iff_of_false ?_ ?_
      · rintro ⟨reply, hreply⟩
        exact nomatch hreply
      · rintro ⟨⟨requested, hrequested, -⟩, -⟩
        exact nomatch hrequested
  | ok requested =>
      dsimp only
      rw [hold]
      dsimp only
      split
      next hmismatch =>
        refine iff_of_false ?_ ?_
        · rintro ⟨reply, hreply⟩
          exact nomatch hreply
        · rintro ⟨⟨requested', hrequested, hany⟩, -⟩
          cases hrequested
          rw [hany] at hmismatch
          exact nomatch hmismatch
      next hmatch =>
        have hparsed : ∃ requested', (Except.ok requested : Except String _) = .ok requested' ∧
            requested'.any (· ≠ old.kind) = false :=
          ⟨requested, rfl, Bool.eq_false_of_not_eq_true hmatch⟩
        split
        next hstopped =>
          simp only [Bool.and_eq_true, decide_eq_true_eq, and_assoc] at hstopped
          exact iff_of_true ⟨_, rfl⟩ ⟨hparsed, .inl hstopped⟩
        next hrunning =>
          simp only [Bool.and_eq_true, decide_eq_true_eq, and_assoc] at hrunning
          rw [Service.loadAndRecord_eq_ok_iff]
          constructor
          · intro h
            exact ⟨hparsed, .inr h⟩
          · rintro ⟨-, hstopped | h⟩
            · exact absurd hstopped hrunning
            · exact h

/-! ## Calls and runs -/

/-- Every recorded source can be sent. -/
def Service.Sendable (s : Service) : Prop :=
  ∀ ⦃name : Text⦄ ⦃r : Record⦄, s.records name = some r →
    (scriptLoadFrame name r.source).isSome = true

theorem Service.Effect.sendable {s : Service} {c : Call} {result : Service × Except String Reply}
    (h : s.Effect hash c result) (hs : s.Sendable)
    (hfits : ∀ r, c.request = some r → validate r = .ok () →
      (scriptLoadFrame r.name r.source).isSome = true) : result.1.Sendable := by
  have hupdate {agent : Text → Option Text} {next : UInt64} {n : Text} {record : Option Record}
      (hrecord : ∀ r, record = some r → (scriptLoadFrame n r.source).isSome = true) :
      Service.Sendable ⟨agent, Function.update s.records n record, next⟩ := by
    intro name r hr
    dsimp only at hr
    rcases eq_or_ne name n with rfl | hne
    · rw [Function.update_self] at hr
      exact hrecord r hr
    · rw [Function.update_of_ne hne] at hr
      exact hs hr
  cases h with
  | refused e => exact hs
  | unchanged reply _ => exact hs
  | saved reply hrequest haccepted _ _ _ hrecord =>
      refine hupdate ?_
      rintro _ ⟨⟩
      rw [hrecord.2.2.2.2.1]
      exact hfits _ hrequest haccepted
  | loaded reply next hrequest haccepted hframe _ hrecord =>
      refine hupdate ?_
      rintro _ ⟨⟩
      rw [hrecord.2.1]
      exact hframe
  | stopped reply _ hold _ =>
      have hsource := hs hold
      refine hupdate ?_
      rintro _ ⟨⟩
      exact hsource
  | started id reply _ hold =>
      have hsource := hs hold
      refine hupdate ?_
      rintro _ ⟨⟩
      exact hsource
  | removed reply _ _ =>
      refine hupdate fun r hr => ?_
      exact nomatch hr

/-- A stopped module whose source can be sent can be started. -/
theorem Service.Consistent.startable {s : Service} (h : s.Consistent hash) (hs : s.Sendable)
    {name : Text} {r : Record} (hr : s.records name = some r) (hstate : r.state = .stopped)
    (id : UInt32) : ∃ reply, (s.start name (.ok id)).2 = .ok reply := by
  have hframe : (scriptLoadFrame name r.source).isNone = false := by
    rw [Option.isNone_eq_false_iff]
    exact hs hr
  refine ⟨Record.resource { r with state := .loadStaged, agentId := some id } name, ?_⟩
  simp only [Service.start, (h hr).named, hr, (h hr).stopped hstate, hstate, Service.scriptLoad,
    hframe]
  rfl

theorem lt_add_one_iff (a : UInt64) : a < a + 1 ↔ a.toNat + 1 < 2 ^ 64 := by
  have ha := a.toNat_lt
  rw [UInt64.lt_iff_toNat_lt, UInt64.toNat_add, show (1 : UInt64).toNat = 1 from rfl]
  rcases Nat.lt_or_ge (a.toNat + 1) (2 ^ 64) with hlt | hge
  · rw [Nat.mod_eq_of_lt hlt]
    omega
  · have heq : a.toNat + 1 = 2 ^ 64 := by omega
    rw [heq]
    omega

/-- A call that saves a source leaves a record. -/
theorem Service.Effect.exists_record {s : Service} {c : Call}
    {result : Service × Except String Reply} (h : s.Effect hash c result) {r : ScriptRequest}
    (hrequest : c.request = some r) {reply : Reply} (hreply : result.2 = .ok reply) :
    ∃ new, result.1.records r.name = some new := by
  cases h with
  | refused e => exact nomatch hreply
  | saved _ hsaved _ _ _ _ _ =>
      cases hsaved.symm.trans hrequest
      exact ⟨_, Function.update_self _ _ _⟩
  | loaded _ _ hloaded _ _ _ _ =>
      cases hloaded.symm.trans hrequest
      exact ⟨_, Function.update_self _ _ _⟩
  | unchanged _ hnone => exact nomatch hnone.symm.trans hrequest
  | stopped _ hnone _ _ => exact nomatch hnone.symm.trans hrequest
  | started _ _ hnone _ => exact nomatch hnone.symm.trans hrequest
  | removed _ hnone _ => exact nomatch hnone.symm.trans hrequest

theorem Service.fits_of_tracks {s : Service} {c : Call} (h : s.Tracks hash c) : s.Fits c := by
  cases c with
  | apply r replace actor requestedKind listed answer =>
      intro haccepted
      have hframe := h.fits rfl haccepted
      have hsize := validate_size haccepted
      refine ⟨(scriptLoadFrame_isSome_iff hsize.1 hsize.2).mp hframe,
        fun old hold hkinds hsaves => ?_⟩
      obtain ⟨reply, hreply⟩ := (Service.apply_eq_ok_iff haccepted hold).mpr
        ⟨hkinds, hsaves.imp id fun h => ⟨hframe, h⟩⟩
      have heffect : s.Effect hash _ _ :=
        s.effect_apply r replace actor requestedKind listed answer
      obtain ⟨new, hnew⟩ := heffect.exists_record rfl hreply
      obtain ⟨-, hlt⟩ := h.generation rfl hreply hold hnew
      obtain ⟨-, -, hsaved⟩ := heffect.lives hold hnew
      rw [(hsaved r reply rfl rfl hreply).2] at hlt
      exact (lt_add_one_iff _).mp hlt
  | _ => trivial

theorem Service.tracks_of_fits {s : Service} (hs : s.Consistent hash) (hsendable : s.Sendable)
    {c : Call} (h : s.Fits c) : s.Tracks hash c ∧ (s.call hash c).1.Sendable := by
  have heffect : s.Effect hash c (s.call hash c) := s.effect_call c
  have hfits {r : ScriptRequest} (hrequest : c.request = some r)
      (haccepted : validate r = .ok ()) : (scriptLoadFrame r.name r.source).isSome = true := by
    cases c with
    | apply r' replace actor requestedKind listed answer =>
        cases hrequest
        have hsize := validate_size haccepted
        exact (scriptLoadFrame_isSome_iff hsize.1 hsize.2).mpr (h haccepted).1
    | _ => exact nomatch hrequest
  have hsendable' := heffect.sendable hsendable fun r => hfits
  have hconsistent := heffect.consistent hs
  refine ⟨⟨heffect.records_of_error, ?_, ?_, ?_, hconsistent, hfits, ?_⟩, hsendable'⟩
  · intro name old new hold hnew
    exact (heffect.lives hold hnew).1
  · intro r reply old new hrequest hreply hold hnew
    obtain ⟨hsource, hgeneration⟩ := (heffect.lives hold hnew).2.2 r reply hrequest rfl hreply
    refine ⟨hsource, ?_⟩
    rw [hgeneration, lt_add_one_iff]
    cases c with
    | apply r' replace actor requestedKind listed answer =>
        cases hrequest
        have haccepted : validate r = .ok () := by
          cases hvalid : validate r with
          | ok u => rfl
          | error e =>
              have hrefused : (s.apply hash r replace actor requestedKind listed answer).2 =
                  .error e := by
                rw [Service.apply, hvalid]
              exact nomatch hrefused.symm.trans hreply
        obtain ⟨hkinds, hsaves⟩ := (Service.apply_eq_ok_iff haccepted hold).mp ⟨reply, hreply⟩
        exact (h haccepted).2 old hold hkinds (hsaves.imp id And.right)
    | _ => exact nomatch hrequest
  · intro name old new hold hnew hother
    rcases (heffect.lives hold hnew).2.1 with hkept | ⟨r, hrequest, hname⟩
    · exact hkept
    · exact absurd hname (hother r hrequest)
  · intro name r hr hstate id
    exact hconsistent.startable hsendable' hr hstate id

/-- In every run of calls from a started Hub, whatever the Agent has and
answers, every call does what it should to both sides exactly when every
accepted name and source fit a frame together and no generation is the last
one. -/
theorem records_track_iff (hash : Text → String) (agent : Text → Option Text)
    (calls : List Call) :
    Guarded (Service.step hash) (Service.Tracks hash) (.init agent) calls ↔
      Guarded (Service.step hash) Service.Fits (.init agent) calls := by
  constructor
  · intro h
    exact h.mono fun s c => Service.fits_of_tracks
  · intro h
    refine h.imp_of_invariant (I := fun s => s.Consistent hash ∧ s.Sendable) ?_ ⟨nofun, nofun⟩
    rintro s c ⟨hs, hsendable⟩ hfits
    obtain ⟨htracks, hsendable'⟩ := Service.tracks_of_fits hs hsendable hfits
    refine ⟨htracks, fun t ht => ?_⟩
    cases ht
    exact ⟨htracks.consistent, hsendable'⟩

end Hash

theorem size_replicate (n : Nat) : Utf8.size (List.replicate n 'a') = n := by
  induction n with
  | zero => rfl
  | succ n ih =>
      rw [List.replicate_succ, Utf8.size_cons, ih, show 'a'.utf8Size = 1 from rfl, Nat.add_comm]

theorem validate_replicate {n : Nat} (hpos : 0 < n) (hle : n ≤ maxScriptSourceBytes) :
    validate ⟨['m'], List.replicate n 'a'⟩ = .ok () := by
  have hencode (n : Nat) : Utf8.encode (List.replicate n 'a') = List.replicate n 97 := by
    induction n with
    | zero => rfl
    | succ n ih =>
        rw [List.replicate_succ, Utf8.encode_cons, ih]
        rfl
  have hnul : (List.replicate n (97 : UInt8)).contains 0 = false := by
    simp
  have hname : ((['m'] : Text).any isControl || (Utf8.encode ['m']).contains 0) = false := by decide
  have hnonempty : List.replicate n 'a' ≠ [] := by
    rw [ne_eq, List.replicate_eq_nil_iff]
    omega
  simp only [validate, hname, hnonempty, size_replicate, hencode, hnul, not_lt.mpr hle]
  rfl

/-- A source of one MiB. -/
def longSource : Text := List.replicate maxScriptSourceBytes 'a'

theorem scriptLoadFrame_longSource : (scriptLoadFrame ['m'] longSource).isSome = false := by
  have hname : Utf8.size ['m'] ≤ maxScriptNameBytes := by decide
  have hsource : Utf8.size longSource = maxScriptSourceBytes := size_replicate _
  rw [Bool.eq_false_iff, ne_eq, scriptLoadFrame_isSome_iff hname hsource.le, hsource]
  decide

/-- A module is loaded and stopped. -/
def loadedAndStopped : List Call :=
  [.apply ⟨['m'], ['x']⟩ false "user" none (.ok ()) (.ok 1), .stop ['m'] (.ok ())]

/-- The record of the stopped module. -/
def stoppedRecord : Record where
  scriptId := "script-1"
  kind := .module
  generation := 1
  sourceHash := ""
  source := ['x']
  createdBy := "user"
  modifiedBy := "user"
  agentId := none
  state := .stopped

theorem run_loadedAndStopped :
    ∃ s, run (Service.step fun _ => "") (.init fun _ => none) loadedAndStopped = some s ∧
      s.records ['m'] = some stoppedRecord := by
  refine ⟨_, rfl, ?_⟩
  decide

/-- A source is saved for the stopped module. -/
def saveStoppedSource (source : Text) : Call :=
  .apply ⟨['m'], source⟩ true "user" none (.ok ()) (.ok 2)

/-- A source that is accepted and does not fit a frame is saved, and the module
cannot be started any more. -/
theorem not_startable {source : Text} (hvalid : validate ⟨['m'], source⟩ = .ok ())
    (hframe : (scriptLoadFrame ['m'] source).isSome = false) :
    ∃ s, run (Service.step fun _ => "") (.init fun _ => none)
        (loadedAndStopped ++ [saveStoppedSource source]) = some s ∧
      (s.records ['m']).map (fun r => (r.state, r.source)) = some (.stopped, source) ∧
      (s.start ['m'] (.ok 3)).2 = .error "agent_failed: frame too large" ∧
      ¬Guarded (Service.step fun _ => "") (Service.Tracks fun _ => "") (.init fun _ => none)
        (loadedAndStopped ++ [saveStoppedSource source]) := by
  obtain ⟨s, hrun, hold⟩ := run_loadedAndStopped
  have hname : validateName ['m'] = .ok () := rfl
  have hcall : (s.call (fun _ => "") (saveStoppedSource source)).1.records ['m'] =
      some { stoppedRecord with generation := 2, source := source } := by
    simp only [saveStoppedSource, Service.call, Service.apply, hvalid, hold]
    exact Function.update_self (['m'] : Text) _ s.records
  refine ⟨(s.call (fun _ => "") (saveStoppedSource source)).1, ?_, ?_, ?_, fun htracks => ?_⟩
  · rw [Transition.run_append, hrun]
    rfl
  · rw [hcall]
    rfl
  · have hnone : (scriptLoadFrame ['m'] source).isNone = true := by
      rw [← Option.not_isSome, hframe]
      rfl
    simp only [Service.start, hname, hcall, stoppedRecord, Service.scriptLoad, hnone]
    rfl
  · have hfits := (Guarded.of_append hrun htracks).1
    rw [hfits.fits rfl hvalid] at hframe
    exact nomatch hframe

/-- A source of one MiB is accepted and saved, and then the module cannot be
started. -/
theorem saved_module_not_startable :
    ∃ s, run (Service.step fun _ => "") (.init fun _ => none)
        (loadedAndStopped ++ [saveStoppedSource longSource]) = some s ∧
      (s.records ['m']).map (fun r => (r.state, r.source)) = some (.stopped, longSource) ∧
      (s.start ['m'] (.ok 3)).2 = .error "agent_failed: frame too large" ∧
      ¬Guarded (Service.step fun _ => "") (Service.Tracks fun _ => "") (.init fun _ => none)
        (loadedAndStopped ++ [saveStoppedSource longSource]) :=
  not_startable (validate_replicate (by decide) le_rfl) scriptLoadFrame_longSource

end PinBridge.ScriptRecords
