import Mathlib.Data.List.Dedup
import PinBridge.Hooks.Arming

/-!
# Signatures in the Hub

The Hub keeps the parsed signatures of the Hooks beside the layouts that the
Agent keeps (`Hub`).  Five tools change them (`Call`).  A tool makes some
requests to the Agent, one after the other.  A request takes effect or it
fails and does nothing, and the call says which of its requests fail.

* `hook_signature_set` and `hook_signature_remove` make one request, and touch
  the Hub's map after it.
* `hook_remove` and `hook_clear` ask for callbacks first.  Both requests that
  follow drop the Agent's signatures with the Hooks.
* `hook_function_set` sets the signature before it arms the Hook.  When the
  Hook cannot be armed it removes the signature, whether or not there was one
  before, and leaves the Hub's map alone.

Other tools fill the tables of Hooks.  A full table refuses a function Hook.

The two maps agree when the Hub's layouts are the Agent's (`Hub.Agree`).
`hub_agrees_iff` says in which runs they always do.
-/

namespace PinBridge.Hooks

open Transition (run Always Guarded)
open Utf8 (Text)

/-! ## The Hub and its tools -/

/-- The Agent, and the signatures the Hub keeps. -/
structure Hub where
  /-- The Agent's tables. -/
  agent : State
  /-- `hook_signatures`. -/
  hookSignatures : Nat → Option HookSignature

/-- A Hub that has just been connected. -/
def Hub.init : Hub where
  agent := .init
  hookSignatures _ := none

/-- The errors of a tool. -/
inductive HubError where
  | validation (text : String)
  | agent (text : String)
  /-- A request failed. -/
  | request
  deriving DecidableEq, Repr

/-- The prototype arguments of a tool. -/
structure Declaration where
  /-- `signature`. -/
  prototype : Text
  /-- `signature_source`. -/
  source : String
  /-- `signature_confidence`. -/
  confidence : Nat
  deriving DecidableEq, Repr

/-- `parse_hook_signature`. -/
def Declaration.parse (d : Declaration) : Except String HookSignature :=
  Hooks.parse d.prototype d.source d.confidence

/-- A call of a tool.  The flags say which requests take effect, and
`callbacks` is the answer to the question for callbacks. -/
inductive Call where
  | hookFunctionSet (address : Nat) (declaration : Declaration)
      (signatureOk batchOk listOk removeOk : Bool)
  | hookSignatureSet (address : Nat) (declaration : Declaration) (signatureOk : Bool)
  | hookSignatureRemove (address : Nat) (removeOk : Bool)
  | hookRemove (address : Nat) (callbacks : Option Nat) (hookOk removeOk : Bool)
  | hookClear (callbacks : Option Nat) (listOk clearOk : Bool)
  | hookSet (address : Nat)
  | hookSetBatch (addresses : List Nat)
  | hookSetPlainBatch (addresses : List Nat)
  deriving DecidableEq, Repr

/-- Whether the Agent's table takes the layout of a signature. -/
def State.accepts (s : State) (address : Nat) (sig : HookSignature) : Bool :=
  (setFunctionSignature s.signatures (sig.layoutAt address)).isSome

/-- `HOOK_SIGNATURE_SET`. -/
def State.signatureSet (s : State) (address : Nat) (d : Declaration) : State :=
  s.hookSignatureSet address d.prototype d.source d.confidence

/-- `HOOK_SIGNATURE_REMOVE`, whose failure is ignored. -/
def State.trySignatureRemove (s : State) (address : Nat) (ok : Bool) : State :=
  if ok then s.removeFunctionSignature address else s

/-- Set the signature of an address in the Agent. -/
def Hub.agentSignatureSet (h : Hub) (address : Nat) (d : Declaration) (signatureOk : Bool) :
    Except HubError (State × HookSignature) :=
  if address = 0 then .error (.validation "Hook address must be non-zero")
  else match d.parse with
    | .error e => .error (.validation e)
    | .ok sig =>
        if !signatureOk then .error .request
        else if !h.agent.accepts address sig then
          .error (.agent "Agent rejected Hook signature layout")
        else .ok (h.agent.signatureSet address d, sig)

/-- `hook_function_set`. -/
def Hub.hookFunctionSet (h : Hub) (address : Nat) (d : Declaration)
    (signatureOk batchOk listOk removeOk : Bool) : Hub × Except HubError Unit :=
  match h.agentSignatureSet address d signatureOk with
  | .error e => (h, .error e)
  | .ok (agent, sig) =>
      if !batchOk then
        ({ h with agent := agent.trySignatureRemove address removeOk }, .error .request)
      else
        let agent := agent.setBatch [address]
        if !listOk then
          ({ h with agent := agent.trySignatureRemove address removeOk }, .error .request)
        else if address ∉ agent.functions then
          ({ h with agent := agent.trySignatureRemove address removeOk },
            .error (.agent "Hook capacity is full (32768 points)"))
        else
          ({ agent, hookSignatures := Function.update h.hookSignatures address (some sig) }, .ok ())

/-- `hook_signature_set`. -/
def Hub.hookSignatureSet (h : Hub) (address : Nat) (d : Declaration) (signatureOk : Bool) :
    Hub × Except HubError Unit :=
  match h.agentSignatureSet address d signatureOk with
  | .error e => (h, .error e)
  | .ok (agent, sig) =>
      ({ agent, hookSignatures := Function.update h.hookSignatures address (some sig) }, .ok ())

/-- `hook_signature_remove`. -/
def Hub.hookSignatureRemove (h : Hub) (address : Nat) (removeOk : Bool) :
    Hub × Except HubError Unit :=
  if removeOk then
    ({ agent := h.agent.removeFunctionSignature address,
       hookSignatures := Function.update h.hookSignatures address none }, .ok ())
  else (h, .error .request)

/-- `hook_remove`. -/
def Hub.hookRemove (h : Hub) (address : Nat) (callbacks : Option Nat) (hookOk removeOk : Bool) :
    Hub × Except HubError Unit :=
  match callbacks with
  | none => (h, .error .request)
  | some count =>
      if count ≠ 0 then
        (h, .error (.validation ("Hook has synchronous callback bindings; " ++
          "unload or edit the owning script first")))
      else if !hookOk then (h, .error .request)
      else
        ({ agent := (h.agent.remove address).trySignatureRemove address removeOk,
           hookSignatures := Function.update h.hookSignatures address none }, .ok ())

/-- `hook_clear`. -/
def Hub.hookClear (h : Hub) (callbacks : Option Nat) (listOk clearOk : Bool) :
    Hub × Except HubError Unit :=
  match callbacks with
  | none => (h, .error .request)
  | some count =>
      if count ≠ 0 then
        (h, .error (.validation ("cannot clear Hooks while " ++ toString count ++
          " synchronous callback bindings are active")))
      else if !listOk || !clearOk then (h, .error .request)
      else ({ agent := h.agent.clear, hookSignatures := fun _ => none }, .ok ())

/-- `HubService::call`. -/
def Hub.call (h : Hub) : Call → Hub × Except HubError Unit
  | .hookFunctionSet address d signatureOk batchOk listOk removeOk =>
      h.hookFunctionSet address d signatureOk batchOk listOk removeOk
  | .hookSignatureSet address d signatureOk => h.hookSignatureSet address d signatureOk
  | .hookSignatureRemove address removeOk => h.hookSignatureRemove address removeOk
  | .hookRemove address callbacks hookOk removeOk => h.hookRemove address callbacks hookOk removeOk
  | .hookClear callbacks listOk clearOk => h.hookClear callbacks listOk clearOk
  | .hookSet address => ({ h with agent := h.agent.set address }, .ok ())
  | .hookSetBatch addresses => ({ h with agent := h.agent.setBatch addresses }, .ok ())
  | .hookSetPlainBatch addresses => ({ h with agent := h.agent.setPlainBatch addresses }, .ok ())

/-- One call. -/
def Hub.step (h : Hub) (c : Call) : Option Hub := some (h.call c).1

/-! ## What the requests do to the layouts -/

theorem State.Ok.functionSignature_remove {s : State} (h : s.Ok) (address a : Nat) :
    (s.removeFunctionSignature address).functionSignature a =
      if a = address then none else s.functionSignature a :=
  find?_eraseP_layout h.sorted address a

theorem State.functionSignature_signatureSet {s : State} {address : Nat} {d : Declaration}
    {sig : HookSignature} (hparse : d.parse = .ok sig) (haccepts : s.accepts address sig = true)
    (a : Nat) :
    (s.signatureSet address d).functionSignature a =
      if a = address then some (sig.layoutAt address) else s.functionSignature a := by
  obtain ⟨signatures, hset⟩ := Option.isSome_iff_exists.mp haccepts
  have hsignatures : signatures = insertLayout (sig.layoutAt address) s.signatures := by
    simp only [setFunctionSignature, HookSignature.mask_eq,
      Option.ite_none_left_eq_some, Option.some.injEq] at hset
    exact hset.2.2.symm
  rw [Declaration.parse] at hparse
  rw [State.signatureSet, State.hookSignatureSet, hparse]
  simp only [hset]
  rw [State.functionSignature, hsignatures]
  dsimp only
  rw [find?_insertLayout, State.functionSignature]
  show (if address = a then _ else _) = _
  simp only [eq_comm]

theorem captureCode_le (kind : ValueKind) : kind.captureCode ≤ 2 := by
  cases kind <;> decide

theorem HookSignature.Admissible.valid {sig : HookSignature} (h : sig.Admissible) {address : Nat}
    (hne : address ≠ 0) : (sig.layoutAt address).valid = true := by
  have hlength : sig.parameters.length ≤ 16 := h.length_le
  have hmask : (sig.layoutAt address).floatParameterMask < 2 ^ 16 := by
    refine Nat.lt_pow_two_of_testBit _ fun i hi => ?_
    cases hbit : (sig.layoutAt address).floatParameterMask.testBit i with
    | false => rfl
    | true =>
        obtain ⟨p, hp, -⟩ := (sig.testBit_mask i).mp hbit
        have := (List.getElem?_eq_some_iff.mp hp).1
        omega
  have hreturn := captureCode_le sig.returnType.kind
  have hconvention : (sig.layoutAt address).callingConvention ≤ 1 := by
    rw [HookSignature.layoutAt, HookSignature.captureLayout]
    dsimp only
    split <;> omega
  simp only [FunctionSignatureLayout.valid, Bool.and_eq_true, decide_eq_true_eq]
  exact ⟨⟨⟨⟨hne, hlength⟩, hmask⟩, hreturn⟩, hconvention⟩

/-! ## Room for a function Hook -/

/-- Whether a function Hook is not refused. -/
def State.Room (s : State) (address : Nat) : Prop :=
  address ∈ s.functions ∨ s.functions.length < maxHookPoints ∧
    (address ∈ s.hooks ∨ s.hooks.length < maxHookPoints)

instance (s : State) (address : Nat) : Decidable (s.Room address) :=
  inferInstanceAs (Decidable (_ ∨ _))

theorem sortDedup_filter_singleton (p : Nat → Bool) (a : Nat) :
    sortDedup ([a].filter p) = if p a then [a] else [] := by
  cases hp : p a with
  | true => simp [sortDedup, hp, List.dedup_eq_self.mpr (List.nodup_singleton a)]
  | false => simp [sortDedup, hp]

theorem mem_mergeBatch_singleton {master : List Nat} {address capacity : Nat} (hne : address ≠ 0) :
    address ∈ (mergeBatch master [address] capacity).1 ↔
      address ∈ master ∨ master.length < capacity := by
  have hsort : sortDedup ([address].filter (· ≠ 0)) = [address] := by
    rw [sortDedup_filter_singleton, if_pos (decide_eq_true hne)]
  rw [mergeBatch, hsort]
  simp only [List.mem_insertionSort, List.mem_append]
  by_cases hmem : address ∈ master
  · simp [hmem]
  · have hroom : address ∈ [address].take (capacity - master.length) ↔
        master.length < capacity := by
      cases hn : capacity - master.length with
      | zero => simp; omega
      | succ n => simp; omega
    simp [hmem, hroom]

theorem State.mem_functions_setBatch {s : State} {address : Nat} (hne : address ≠ 0) :
    address ∈ (s.setBatch [address]).functions ↔ s.Room address := by
  have hhooks : address ∈ (mergeBatch s.hooks [address] maxHookPoints).1 ↔
      address ∈ s.hooks ∨ s.hooks.length < maxHookPoints := mem_mergeBatch_singleton hne
  show address ∈ (mergeBatch s.functions (sortDedup ([address].filter fun a =>
    a ≠ 0 ∧ a ∈ (mergeBatch s.hooks [address] maxHookPoints).1)) maxHookPoints).1 ↔ _
  rw [sortDedup_filter_singleton, State.Room, ← hhooks]
  rcases em (address ∈ (mergeBatch s.hooks [address] maxHookPoints).1) with hroom | hroom
  · rw [if_pos (decide_eq_true ⟨hne, hroom⟩), mem_mergeBatch_singleton hne]
    simp [hroom]
  · rw [if_neg fun h => hroom (of_decide_eq_true h).2]
    have hnone : (mergeBatch s.functions [] maxHookPoints).1 =
        s.functions.insertionSort (· ≤ ·) := by
      simp [mergeBatch, sortDedup]
    rw [hnone, List.mem_insertionSort]
    simp [hroom]

theorem State.room_signatureSet {s : State} (d : Declaration) (address : Nat) :
    (s.signatureSet address d).Room address ↔ s.Room address := by
  rw [State.signatureSet, State.hookSignatureSet]
  split
  · rfl
  · split
    · rfl
    · rfl

/-! ## Agreement -/

/-- Every signature of the Hub has its layout in the Agent, and there are no
other layouts. -/
def Hub.Agree (h : Hub) : Prop :=
  ∀ a, h.agent.functionSignature a = (h.hookSignatures a).map fun sig => sig.layoutAt a

/-- A call leaves the maps in agreement.  A `hook_function_set` that changed the
Agent's layout and then failed must have had no signature to lose, or one with
the same layout when the removal failed too. -/
def Hub.Restores (h : Hub) : Call → Prop
  | .hookFunctionSet address d signatureOk batchOk listOk removeOk =>
      ∀ sig, address ≠ 0 → d.parse = .ok sig → signatureOk = true →
        h.agent.accepts address sig = true →
        (batchOk = true ∧ listOk = true ∧ h.agent.Room address) ∨
          if removeOk then h.hookSignatures address = none
          else (h.hookSignatures address).map HookSignature.captureLayout = some sig.captureLayout
  | _ => True

theorem HookSignature.layoutAt_inj {sig sig' : HookSignature} {address : Nat} :
    sig.layoutAt address = sig'.layoutAt address ↔ sig.captureLayout = sig'.captureLayout := by
  constructor
  · intro h
    simp only [HookSignature.layoutAt, FunctionSignatureLayout.mk.injEq, true_and] at h
    cases hlayout : sig.captureLayout
    cases hlayout' : sig'.captureLayout
    simpa [hlayout, hlayout'] using h
  · intro h
    rw [HookSignature.layoutAt, HookSignature.layoutAt, h]

/-- Writing one address on both sides keeps the maps in agreement exactly when
the same was written. -/
theorem Hub.agree_update_iff {h : Hub} (hagree : h.Agree) {agent : State} {address : Nat}
    {layout : Option FunctionSignatureLayout} {sig : Option HookSignature}
    (hagent : ∀ a, agent.functionSignature a =
      if a = address then layout else h.agent.functionSignature a) :
    Hub.Agree ⟨agent, Function.update h.hookSignatures address sig⟩ ↔
      layout = sig.map fun sig => sig.layoutAt address := by
  constructor
  · intro hupdated
    have := hupdated address
    rw [hagent, if_pos rfl] at this
    rw [this]
    dsimp only
    rw [Function.update_self]
  · intro hlayout a
    rw [hagent]
    dsimp only
    rcases eq_or_ne a address with rfl | hne
    · rw [if_pos rfl, Function.update_self, hlayout]
    · rw [if_neg hne, Function.update_of_ne hne]
      exact hagree a

/-- Writing one address in the Agent only. -/
theorem Hub.agree_agent_iff {h : Hub} (hagree : h.Agree) {agent : State} {address : Nat}
    {layout : Option FunctionSignatureLayout}
    (hagent : ∀ a, agent.functionSignature a =
      if a = address then layout else h.agent.functionSignature a) :
    Hub.Agree { h with agent } ↔
      layout = (h.hookSignatures address).map fun sig => sig.layoutAt address := by
  rw [← Hub.agree_update_iff hagree hagent, Function.update_eq_self]

theorem Hub.agentSignatureSet_eq_ok {h : Hub} {address : Nat} {d : Declaration}
    {signatureOk : Bool} {agent : State} {sig : HookSignature}
    (hset : h.agentSignatureSet address d signatureOk = .ok (agent, sig)) :
    address ≠ 0 ∧ d.parse = .ok sig ∧ signatureOk = true ∧
      h.agent.accepts address sig = true ∧ agent = h.agent.signatureSet address d := by
  rw [Hub.agentSignatureSet] at hset
  split at hset
  · exact nomatch hset
  next hne =>
  split at hset
  · exact nomatch hset
  next sig' hparse =>
  split at hset
  · exact nomatch hset
  next hok =>
  split at hset
  · exact nomatch hset
  next haccepts =>
    cases hset
    exact ⟨hne, hparse, by simpa using hok, by simpa using haccepts, rfl⟩

theorem Hub.agentSignatureSet_eq_error {h : Hub} {address : Nat} {d : Declaration}
    {signatureOk : Bool} {e : HubError}
    (hset : h.agentSignatureSet address d signatureOk = .error e) {sig : HookSignature}
    (hne : address ≠ 0) (hparse : d.parse = .ok sig) (hok : signatureOk = true) :
    h.agent.accepts address sig = false := by
  rw [Hub.agentSignatureSet, if_neg hne, hparse, hok] at hset
  cases haccepts : h.agent.accepts address sig with
  | false => rfl
  | true => simp [haccepts] at hset

theorem State.Ok.signatureSet {s : State} (h : s.Ok) (address : Nat) (d : Declaration) :
    (s.signatureSet address d).Ok :=
  h.hookSignatureSet address d.prototype d.source d.confidence

theorem State.Ok.trySignatureRemove {s : State} (h : s.Ok) (address : Nat) (ok : Bool) :
    (s.trySignatureRemove address ok).Ok := by
  cases ok with
  | false => exact h
  | true => exact h.removeFunctionSignature address

theorem State.Ok.functionSignature_trySignatureRemove {s : State} (h : s.Ok) (address a : Nat)
    (ok : Bool) :
    (s.trySignatureRemove address ok).functionSignature a =
      if a = address then if ok then none else s.functionSignature address
      else s.functionSignature a := by
  cases ok with
  | false =>
      rcases eq_or_ne a address with rfl | hne
      · simp [State.trySignatureRemove]
      · simp [State.trySignatureRemove, hne]
  | true => exact h.functionSignature_remove address a

theorem State.functionSignature_setBatch (s : State) (addresses : List Nat) (a : Nat) :
    (s.setBatch addresses).functionSignature a = s.functionSignature a := rfl

/-- A failed `hook_function_set` leaves the maps in agreement exactly when the
signature it took back, or could not take back, was not worth keeping. -/
theorem Hub.agree_failed_iff {h : Hub} (hagree : h.Agree) {address : Nat}
    {sig : HookSignature} {agent : State} (hagentOk : agent.Ok)
    (hagent : ∀ a, agent.functionSignature a =
      if a = address then some (sig.layoutAt address) else h.agent.functionSignature a)
    (removeOk : Bool) :
    Hub.Agree { h with agent := agent.trySignatureRemove address removeOk } ↔
      if removeOk then h.hookSignatures address = none
      else (h.hookSignatures address).map HookSignature.captureLayout = some sig.captureLayout := by
  have htried (a : Nat) : (agent.trySignatureRemove address removeOk).functionSignature a =
      if a = address then if removeOk then none else some (sig.layoutAt address)
      else h.agent.functionSignature a := by
    rw [hagentOk.functionSignature_trySignatureRemove, hagent, hagent, if_pos rfl]
    rcases eq_or_ne a address with rfl | hne
    · rw [if_pos rfl, if_pos rfl]
    · rw [if_neg hne, if_neg hne, if_neg hne]
  rw [Hub.agree_agent_iff hagree htried]
  cases removeOk with
  | true =>
      simp only [if_true]
      rw [eq_comm, Option.map_eq_none_iff]
  | false =>
      cases hold : h.hookSignatures address with
      | none => simp
      | some old =>
          simp only [Bool.false_eq_true, if_false, Option.map_some, Option.some.injEq]
          rw [HookSignature.layoutAt_inj, eq_comm]

theorem Hub.agree_hookFunctionSet_iff {h : Hub} (hok : h.agent.Ok) (hagree : h.Agree)
    (address : Nat) (d : Declaration) (signatureOk batchOk listOk removeOk : Bool) :
    (h.hookFunctionSet address d signatureOk batchOk listOk removeOk).1.Agree ↔
      h.Restores (.hookFunctionSet address d signatureOk batchOk listOk removeOk) := by
  rw [Hub.hookFunctionSet]
  cases hset : h.agentSignatureSet address d signatureOk with
  | error e =>
      refine iff_of_true hagree fun sig hne hparse hsignature haccepts => ?_
      rw [Hub.agentSignatureSet_eq_error hset hne hparse hsignature] at haccepts
      exact nomatch haccepts
  | ok result =>
      obtain ⟨agent, sig⟩ := result
      obtain ⟨hne, hparse, hsignature, haccepts, rfl⟩ := Hub.agentSignatureSet_eq_ok hset
      have hrestores : h.Restores (.hookFunctionSet address d signatureOk batchOk listOk removeOk) ↔
          (batchOk = true ∧ listOk = true ∧ h.agent.Room address) ∨
            if removeOk then h.hookSignatures address = none
            else (h.hookSignatures address).map HookSignature.captureLayout =
              some sig.captureLayout := by
        constructor
        · intro hall
          exact hall sig hne hparse hsignature haccepts
        · intro hone sig' _ hparse' _ _
          cases hparse.symm.trans hparse'
          exact hone
      have hagent := State.functionSignature_signatureSet hparse haccepts
      have hagentOk := hok.signatureSet address d
      have hbatchOk : ((h.agent.signatureSet address d).setBatch [address]).Ok :=
        hagentOk.step (.hookSetBatch [address])
      have hbatch (a : Nat) :=
        (State.functionSignature_setBatch (h.agent.signatureSet address d) [address] a).trans
          (hagent a)
      have hroom : address ∈ ((h.agent.signatureSet address d).setBatch [address]).functions ↔
          h.agent.Room address := by
        rw [State.mem_functions_setBatch hne, State.room_signatureSet]
      rw [hrestores]
      cases batchOk with
      | false =>
          simp only [Bool.not_false, if_true]
          rw [Hub.agree_failed_iff hagree hagentOk hagent]
          simp
      | true =>
          simp only [Bool.not_true, Bool.false_eq_true, if_false]
          cases listOk with
          | false =>
              simp only [Bool.not_false, if_true]
              rw [Hub.agree_failed_iff hagree hbatchOk hbatch]
              simp
          | true =>
              simp only [Bool.not_true, Bool.false_eq_true, if_false, hroom, true_and]
              rcases em (h.agent.Room address) with hyes | hno
              · rw [if_neg (not_not.mpr hyes)]
                refine iff_of_true ?_ (.inl hyes)
                exact (Hub.agree_update_iff hagree hbatch).mpr rfl
              · rw [if_pos hno, Hub.agree_failed_iff hagree hbatchOk hbatch]
                simp [hno]

theorem State.functionSignature_set (s : State) (address a : Nat) :
    (s.set address).functionSignature a = s.functionSignature a := by
  rw [State.set]
  split
  · rfl
  · rfl

theorem State.Ok.functionSignature_hookRemove {s : State} (h : s.Ok) (address a : Nat) :
    (s.remove address).functionSignature a =
      if a = address then none else s.functionSignature a := by
  have hremoved := h.functionSignature_remove address a
  rw [State.remove]
  split
  · exact hremoved
  · split
    · exact hremoved
    · exact hremoved

/-- What one call does to the agreement. -/
theorem Hub.agree_call_iff {h : Hub} (hok : h.agent.Ok) (hagree : h.Agree) (c : Call) :
    (h.call c).1.Agree ↔ h.Restores c := by
  cases c with
  | hookFunctionSet address d signatureOk batchOk listOk removeOk =>
      exact Hub.agree_hookFunctionSet_iff hok hagree address d signatureOk batchOk listOk removeOk
  | hookSignatureSet address d signatureOk =>
      refine iff_of_true ?_ trivial
      rw [Hub.call, Hub.hookSignatureSet]
      cases hset : h.agentSignatureSet address d signatureOk with
      | error e => exact hagree
      | ok result =>
          obtain ⟨agent, sig⟩ := result
          obtain ⟨-, hparse, -, haccepts, rfl⟩ := Hub.agentSignatureSet_eq_ok hset
          have hagent := State.functionSignature_signatureSet hparse haccepts
          exact (Hub.agree_update_iff hagree hagent).mpr rfl
  | hookSignatureRemove address removeOk =>
      refine iff_of_true ?_ trivial
      rw [Hub.call, Hub.hookSignatureRemove]
      split
      · exact (Hub.agree_update_iff hagree (hok.functionSignature_remove address)).mpr rfl
      · exact hagree
  | hookRemove address callbacks hookOk removeOk =>
      refine iff_of_true ?_ trivial
      simp only [Hub.call, Hub.hookRemove]
      split
      · exact hagree
      · split
        · exact hagree
        · split
          · exact hagree
          · have hremoved := hok.functionSignature_hookRemove address
            have hremovedOk : (h.agent.remove address).Ok := hok.step (.hookRemove address)
            have hagent (a : Nat) :
                ((h.agent.remove address).trySignatureRemove address removeOk).functionSignature a =
                  if a = address then none else h.agent.functionSignature a := by
              rw [hremovedOk.functionSignature_trySignatureRemove, hremoved, hremoved,
                if_pos rfl, ite_self]
              rcases eq_or_ne a address with rfl | hne
              · rw [if_pos rfl, if_pos rfl]
              · rw [if_neg hne, if_neg hne]
            exact (Hub.agree_update_iff hagree hagent).mpr rfl
  | hookClear callbacks listOk clearOk =>
      refine iff_of_true ?_ trivial
      simp only [Hub.call, Hub.hookClear]
      split
      · exact hagree
      · split
        · exact hagree
        · split
          · exact hagree
          · exact fun a => rfl
  | hookSet address =>
      refine iff_of_true (fun a => ?_) trivial
      rw [Hub.call, State.functionSignature_set]
      exact hagree a
  | hookSetBatch addresses =>
      refine iff_of_true (fun a => ?_) trivial
      rw [Hub.call, State.functionSignature_setBatch]
      exact hagree a
  | hookSetPlainBatch addresses => exact iff_of_true hagree trivial

theorem Hub.ok_call {h : Hub} (hok : h.agent.Ok) (c : Call) : (h.call c).1.agent.Ok := by
  cases c with
  | hookFunctionSet address d signatureOk batchOk listOk removeOk =>
      rw [Hub.call, Hub.hookFunctionSet]
      cases hset : h.agentSignatureSet address d signatureOk with
      | error e => exact hok
      | ok result =>
          obtain ⟨agent, sig⟩ := result
          obtain ⟨-, -, -, -, rfl⟩ := Hub.agentSignatureSet_eq_ok hset
          have hagent := hok.signatureSet address d
          have hbatch := hagent.step (.hookSetBatch [address])
          dsimp only
          split
          · exact hagent.trySignatureRemove address removeOk
          · split
            · exact hbatch.trySignatureRemove address removeOk
            · split
              · exact hbatch.trySignatureRemove address removeOk
              · exact hbatch
  | hookSignatureSet address d signatureOk =>
      rw [Hub.call, Hub.hookSignatureSet]
      cases hset : h.agentSignatureSet address d signatureOk with
      | error e => exact hok
      | ok result =>
          obtain ⟨agent, sig⟩ := result
          obtain ⟨-, -, -, -, rfl⟩ := Hub.agentSignatureSet_eq_ok hset
          exact hok.signatureSet address d
  | hookSignatureRemove address removeOk =>
      rw [Hub.call, Hub.hookSignatureRemove]
      split
      · exact hok.removeFunctionSignature address
      · exact hok
  | hookRemove address callbacks hookOk removeOk =>
      simp only [Hub.call, Hub.hookRemove]
      split
      · exact hok
      · split
        · exact hok
        · split
          · exact hok
          · exact (hok.step (.hookRemove address)).trySignatureRemove address removeOk
  | hookClear callbacks listOk clearOk =>
      simp only [Hub.call, Hub.hookClear]
      split
      · exact hok
      · split
        · exact hok
        · split
          · exact hok
          · exact hok.step .hookClear
  | hookSet address => exact hok.step (.hookSet address)
  | hookSetBatch addresses => exact hok.step (.hookSetBatch addresses)
  | hookSetPlainBatch addresses => exact hok.step (.hookSetPlainBatch addresses)

/-! ## Runs of calls -/

/-- Every sequence of calls can be made. -/
theorem Hub.exists_run (h : Hub) (calls : List Call) : ∃ t, run Hub.step h calls = some t := by
  induction calls generalizing h with
  | nil => exact ⟨h, rfl⟩
  | cons c calls ih => exact ih (h.call c).1

/-- The two maps agree after every call exactly when every failed
`hook_function_set` left things as they were. -/
theorem hub_agrees_iff (calls : List Call) :
    Always Hub.step Hub.Agree Hub.init calls ↔ Guarded Hub.step Hub.Restores Hub.init calls := by
  obtain ⟨t, hrun⟩ := Hub.exists_run Hub.init calls
  refine Guarded.always_iff (I := fun h => h.agent.Ok) ?_ ?_ State.Ok.init (fun _ => rfl) hrun
  · intro h c t hok hstep
    cases hstep
    exact Hub.ok_call hok c
  · intro h c t hok hagree hstep
    cases hstep
    exact Hub.agree_call_iff hok hagree c

/-- A function Hook is set twice, and the Agent fails to arm the second. -/
def failedRepeat : List Call :=
  [.hookFunctionSet 4096 ⟨"int f(int n)".toList, "header", 100⟩ true true true true,
    .hookFunctionSet 4096 ⟨"int f(int n, int m)".toList, "header", 100⟩ true false false true]

/-- The Agent loses the signature that the Hub keeps. -/
theorem signature_lost :
    ∃ t, run Hub.step Hub.init failedRepeat = some t ∧
      t.agent.functionSignature 4096 = none ∧ (t.hookSignatures 4096).isSome = true ∧
      ¬Always Hub.step Hub.Agree Hub.init failedRepeat := by
  have hrun : ∃ t, run Hub.step Hub.init failedRepeat = some t ∧
      t.agent.functionSignature 4096 = none ∧ (t.hookSignatures 4096).isSome = true := by
    refine ⟨_, rfl, ?_, ?_⟩
    · decide +kernel
    · decide +kernel
  obtain ⟨t, ht, hagent, hhub⟩ := hrun
  refine ⟨t, ht, hagent, hhub, fun halways => ?_⟩
  have hagree := halways.last ht 4096
  rw [hagent, eq_comm, Option.map_eq_none_iff] at hagree
  rw [hagree] at hhub
  exact nomatch hhub

end PinBridge.Hooks
