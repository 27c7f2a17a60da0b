import PinBridge.Intercept.Responses
import PinBridge.Lib.Fallible

/-!
# Merging the decisions of the interceptors

A dispatcher answers with the union of the responses of its handlers, or with the empty response
if a handler fails or two of them set a field differently (`dispatch_exact`).

The fields of a response are the cells of a partial map (`lawful_cells`), and every response that
is read sets only fields that its dispatcher merges (`parseResponse_within`).  A response is
normal if what is not set has the value it has in the empty response.  A normal response is
determined by its fields and its action (`Response.Normal.ext`), so the union determines what is
passed to `complete`, in any order of the handlers.
-/

namespace PinBridge.Interceptors

open Fallible (bind_eq_ok map_eq_ok)
open PartialMaps (Cells Lawful Consistent IsUnion copy)

/-! ## Words -/

section Words

variable {n : Nat} {words words' : Words n} {i j : Fin n} {value : UInt64}

theorem mask_ne_zero {mask : BitVec 32} {k : Nat} (hk : k < 32) :
    mask &&& 1#32 <<< k ≠ 0#32 ↔ mask.getLsbD k = true := by
  rw [← BitVec.twoPow_eq, BitVec.and_twoPow]
  split
  next h => exact iff_of_true (fun h' => by simpa [hk] using congrArg (·.getLsbD k) h') h
  next h => exact iff_of_false (fun h' => h' rfl) h

theorem Words.get_eq (hn : n ≤ 32) (words : Words n) (i : Fin n) :
    words.get i = if words.mask.getLsbD i then some (getElem words.values i i.isLt) else none := by
  rw [Words.get, if_congr (mask_ne_zero (i.isLt.trans_le hn)) rfl rfl]

theorem Words.value_of_get {words : Words n} {i : Fin n} {value : UInt64}
    (h : words.get i = some value) : getElem words.values i i.isLt = value := by
  rw [Words.get] at h
  split at h
  next => exact Option.some.inj h
  next => exact nomatch h

theorem Words.get_put_self (hn : n ≤ 32) (words : Words n) (i : Fin n) (value : UInt64) :
    (words.put i value).get i = some value := by
  have hbit : (words.mask ||| 1#32 <<< i.val).getLsbD i = true := by
    have := i.isLt.trans_le hn
    simp [this]
  rw [Words.get_eq hn, Words.put, if_pos hbit]
  simp

theorem Words.get_put_of_ne (hn : n ≤ 32) (words : Words n) (value : UInt64) (hij : j ≠ i) :
    (words.put i value).get j = words.get j := by
  have hne : j.val ≠ i.val := Fin.val_ne_of_ne hij
  have hbit : (words.mask ||| 1#32 <<< i.val).getLsbD j = words.mask.getLsbD j := by
    rw [← BitVec.twoPow_eq, BitVec.getLsbD_or, BitVec.getLsbD_twoPow]
    simp [hne.symm]
  rw [Words.get_eq hn, Words.get_eq hn, Words.put, hbit]
  simp [hne.symm]

/-- A word that is set already can only be set to its value. -/
theorem responseSet_eq (words : Words n) (i : Fin n) (value : UInt64)
    (field : String) :
    (∃ other, words.get i = some other ∧ other ≠ value ∧
      responseSet words i value field = .error s!"conflicting values for {field}") ∨
    ((∀ other, words.get i = some other → other = value) ∧
      responseSet words i value field = .ok (words.put i value)) := by
  rw [responseSet]
  by_cases hset : words.mask &&& 1#32 <<< i.val ≠ 0#32
  · have hget : words.get i = some words.values[i] := if_pos hset
    rw [hget]
    by_cases hvalue : words.values[i] = value
    · rw [if_neg fun h => h.2 hvalue]
      exact .inr ⟨fun other hother => Option.some.inj hother ▸ hvalue, rfl⟩
    · rw [if_pos (And.intro hset hvalue)]
      exact .inl ⟨_, rfl, hvalue, rfl⟩
  · have hget : words.get i = none := if_neg hset
    rw [hget, if_neg fun h => hset h.1]
    exact .inr ⟨fun other hother => absurd hother (Option.some_ne_none other).symm, rfl⟩

/-- The words that are not set are zero, and there are no other bits. -/
structure Words.Normal (words : Words n) : Prop where
  values : ∀ i, words.get i = none → getElem words.values i i.isLt = 0
  mask : ∀ k, n ≤ k → words.mask.getLsbD k = false

theorem Words.get_empty (i : Fin n) : (Words.empty : Words n).get i = none := by
  simp [Words.get, Words.empty]

theorem Words.normal_empty : (Words.empty : Words n).Normal where
  values := fun i _ => by simp [Words.empty]
  mask := fun k _ => by simp [Words.empty]

theorem Words.Normal.put (hn : n ≤ 32) (h : words.Normal) (i : Fin n) (value : UInt64) :
    (words.put i value).Normal where
  values := fun j hj => by
    have hne : j ≠ i := fun heq => by
      rw [heq, Words.get_put_self hn] at hj
      exact nomatch hj
    rw [Words.get_put_of_ne hn words value hne] at hj
    have hvalue : (words.put i value).values[j] = words.values[j] := by
      simp [Words.put, (Fin.val_ne_of_ne hne).symm]
    rw [hvalue, h.values j hj]
  mask := fun k hk => by
    have hne : i.val ≠ k := (i.isLt.trans_le hk).ne
    rw [Words.put, ← BitVec.twoPow_eq, BitVec.getLsbD_or, BitVec.getLsbD_twoPow, h.mask k hk]
    simp [hne]

/-- Normal words are determined by the words that are set. -/
theorem Words.Normal.ext (hn : n ≤ 32) (h : words.Normal) (h' : words'.Normal)
    (hget : ∀ i, words.get i = words'.get i) : words = words' := by
  have hmask : words.mask = words'.mask := by
    refine BitVec.eq_of_getLsbD_eq fun k hk => ?_
    rcases Nat.lt_or_ge k n with hkn | hkn
    · have hi := hget ⟨k, hkn⟩
      rw [Words.get_eq hn, Words.get_eq hn] at hi
      cases hbit : words.mask.getLsbD k <;> cases hbit' : words'.mask.getLsbD k <;>
        simp_all
    · rw [h.mask k hkn, h'.mask k hkn]
  have hvalues : words.values = words'.values := by
    refine Vector.ext fun k hk => ?_
    have hi := hget ⟨k, hk⟩
    cases hset : words.get ⟨k, hk⟩ with
    | none =>
        have hzero := h.values ⟨k, hk⟩ hset
        have hzero' := h'.values ⟨k, hk⟩ (hi ▸ hset)
        exact hzero.trans hzero'.symm
    | some value =>
        exact (Words.value_of_get hset).trans (Words.value_of_get (hi ▸ hset)).symm
  cases words
  cases words'
  cases hmask
  cases hvalues
  rfl

end Words

/-! ## Fields -/

/-- What is not set is as in the empty response. -/
structure Response.Normal (r : Response) : Prop where
  registers : r.registers.Normal
  stackArguments : r.stackArguments.Normal
  syscallNumber : r.syscallNumber.get = none → r.syscallNumber = ⟨false, 0⟩
  syscallArguments : r.syscallArguments.Normal
  syscallReturn : r.syscallReturn.get = none → r.syscallReturn = ⟨false, 0⟩
  syscallErrno : r.syscallErrno.get = none → r.syscallErrno = ⟨false, 0⟩
  debuggerPass : r.debuggerPassSet = false → r.debuggerPassToDebugger = true

/-- A word that is set already can only be set to its value. -/
theorem mergeOptionalWord_eq (word : OptionalWord) (incoming : UInt64) (field : String) :
    (∃ other, word.get = some other ∧ other ≠ incoming ∧
      mergeOptionalWord word incoming field = .error s!"conflicting values for {field}") ∨
    ((∀ other, word.get = some other → other = incoming) ∧
      mergeOptionalWord word incoming field = .ok ⟨true, incoming⟩) := by
  rw [mergeOptionalWord, OptionalWord.get]
  cases word.isSet with
  | false =>
      exact .inr ⟨fun other hother => absurd hother (Option.some_ne_none other).symm, rfl⟩
  | true =>
      by_cases hvalue : word.word = incoming
      · exact .inr ⟨fun other hother => Option.some.inj hother ▸ hvalue,
          if_neg fun h => h.2 hvalue⟩
      · exact .inl ⟨_, rfl, hvalue, if_pos ⟨rfl, hvalue⟩⟩

theorem setPassDecision_eq (response : Response) (pass : Bool) :
    (∃ other : Bool, response.get .debuggerPass = some other ∧ other ≠ pass ∧
      setPassDecision response pass = .error "conflicting pass_to_debugger values") ∨
    ((∀ other : Bool, response.get .debuggerPass = some other → other = pass) ∧
      setPassDecision response pass =
        .ok { response with debuggerPassSet := true, debuggerPassToDebugger := pass }) := by
  rw [setPassDecision, Response.get]
  cases response.debuggerPassSet with
  | false =>
      exact .inr ⟨fun other hother => absurd hother (Option.some_ne_none other).symm, rfl⟩
  | true =>
      by_cases hpass : response.debuggerPassToDebugger = pass
      · exact .inr ⟨fun other hother => Option.some.inj hother ▸ hpass, if_neg fun h => h.2 hpass⟩
      · exact .inl ⟨_, rfl, hpass, if_pos ⟨rfl, hpass⟩⟩

section

variable {n : Nat} {words : Words n} {i : Fin n} {value : UInt64} {label error : String}
  {f : Words n → Response} {g : OptionalWord → Response} {word : OptionalWord} {r : Response}

theorem ok_of_responseSet (h : (responseSet words i value label).map f = .ok r) :
    r = f (words.put i value) ∧ ∀ other, words.get i = some other → other = value := by
  obtain ⟨_, _, _, herror⟩ | ⟨hsame, hok⟩ := responseSet_eq words i value label
  · rw [herror] at h
    exact nomatch h
  · rw [hok] at h
    cases h
    exact ⟨rfl, hsame⟩

theorem conflict_of_responseSet (h : (responseSet words i value label).map f = .error error) :
    ∃ other, words.get i = some other ∧ other ≠ value := by
  obtain ⟨other, hget, hne, -⟩ | ⟨-, hok⟩ := responseSet_eq words i value label
  · exact ⟨other, hget, hne⟩
  · rw [hok] at h
    exact nomatch h

theorem ok_of_mergeOptionalWord (h : (mergeOptionalWord word value label).map g = .ok r) :
    r = g ⟨true, value⟩ ∧ ∀ other, word.get = some other → other = value := by
  obtain ⟨_, _, _, herror⟩ | ⟨hsame, hok⟩ := mergeOptionalWord_eq word value label
  · rw [herror] at h
    exact nomatch h
  · rw [hok] at h
    cases h
    exact ⟨rfl, hsame⟩

theorem conflict_of_mergeOptionalWord
    (h : (mergeOptionalWord word value label).map g = .error error) :
    ∃ other, word.get = some other ∧ other ≠ value := by
  obtain ⟨other, hget, hne, -⟩ | ⟨-, hok⟩ := mergeOptionalWord_eq word value label
  · exact ⟨other, hget, hne⟩
  · rw [hok] at h
    exact nomatch h

end

/-- What is known of a response after a field was set. -/
structure SetTo (r r' : Response) (field : Field) (value : field.Value) : Prop where
  get_self : r'.get field = some value
  get_other : ∀ other, other ≠ field → r'.get other = r.get other
  same : ∀ old, r.get field = some old → old = value
  action : r'.action = r.action
  normal : r.Normal → r'.Normal

theorem setTo_of_set {arch : Arch} {r r' : Response} {field : Field} {value : field.Value}
    (h : r.set arch field value = .ok r') : SetTo r r' field value := by
  cases field with
  | register i =>
      obtain ⟨rfl, hsame⟩ := ok_of_responseSet h
      refine ⟨Words.get_put_self (by decide) _ _ _, fun other hother => ?_, hsame, rfl,
        fun hr => { hr with registers := hr.registers.put (by decide) i value }⟩
      cases other with
      | register j => exact Words.get_put_of_ne (by decide) _ _ fun hj => hother (hj ▸ rfl)
      | _ => rfl
  | stackArgument i =>
      obtain ⟨rfl, hsame⟩ := ok_of_responseSet h
      refine ⟨Words.get_put_self (by decide) _ _ _, fun other hother => ?_, hsame, rfl,
        fun hr => { hr with stackArguments := hr.stackArguments.put (by decide) i value }⟩
      cases other with
      | stackArgument j => exact Words.get_put_of_ne (by decide) _ _ fun hj => hother (hj ▸ rfl)
      | _ => rfl
  | syscallArgument i =>
      obtain ⟨rfl, hsame⟩ := ok_of_responseSet h
      refine ⟨Words.get_put_self (by decide) _ _ _, fun other hother => ?_, hsame, rfl,
        fun hr => { hr with syscallArguments := hr.syscallArguments.put (by decide) i value }⟩
      cases other with
      | syscallArgument j => exact Words.get_put_of_ne (by decide) _ _ fun hj => hother (hj ▸ rfl)
      | _ => rfl
  | syscallNumber =>
      obtain ⟨rfl, hsame⟩ := ok_of_mergeOptionalWord h
      refine ⟨rfl, fun other hother => ?_, hsame, rfl,
        fun hr => { hr with syscallNumber := fun hnone => nomatch hnone }⟩
      cases other with
      | syscallNumber => exact absurd rfl hother
      | _ => rfl
  | syscallReturn =>
      obtain ⟨rfl, hsame⟩ := ok_of_mergeOptionalWord h
      refine ⟨rfl, fun other hother => ?_, hsame, rfl,
        fun hr => { hr with syscallReturn := fun hnone => nomatch hnone }⟩
      cases other with
      | syscallReturn => exact absurd rfl hother
      | _ => rfl
  | syscallErrno =>
      obtain ⟨rfl, hsame⟩ := ok_of_mergeOptionalWord h
      refine ⟨rfl, fun other hother => ?_, hsame, rfl,
        fun hr => { hr with syscallErrno := fun hnone => nomatch hnone }⟩
      cases other with
      | syscallErrno => exact absurd rfl hother
      | _ => rfl
  | debuggerPass =>
      obtain ⟨_, _, _, herror⟩ | ⟨hsame, hok⟩ := setPassDecision_eq r value
      · exact nomatch herror.symm.trans h
      · cases hok.symm.trans h
        refine ⟨rfl, fun other hother => ?_, hsame, rfl,
          fun hr => { hr with debuggerPass := fun hnone => nomatch hnone }⟩
        cases other with
        | debuggerPass => exact absurd rfl hother
        | _ => rfl

/-- A field that is set is set alone, and fails only if it has another value. -/
theorem lawful_cells (arch : Arch) : Lawful (cells arch) where
  set_ok := fun {s t i a} h => by
    have hset := setTo_of_set h
    exact ⟨hset.get_self, hset.same, hset.get_other⟩
  set_error := fun {s i a e} h => by
    cases i with
    | register i => exact conflict_of_responseSet h
    | stackArgument i => exact conflict_of_responseSet h
    | syscallNumber => exact conflict_of_mergeOptionalWord h
    | syscallArgument i => exact conflict_of_responseSet h
    | syscallReturn => exact conflict_of_mergeOptionalWord h
    | syscallErrno => exact conflict_of_mergeOptionalWord h
    | debuggerPass =>
        obtain ⟨other, hget, hne, -⟩ | ⟨-, hok⟩ := setPassDecision_eq s a
        · exact ⟨other, hget, hne⟩
        · exact nomatch hok.symm.trans h

theorem OptionalWord.ext_of_get {word word' : OptionalWord}
    (h : word.get = none → word = ⟨false, 0⟩) (h' : word'.get = none → word' = ⟨false, 0⟩)
    (hget : word.get = word'.get) : word = word' := by
  cases hword : word.get with
  | none => rw [h hword, h' (hget ▸ hword)]
  | some value =>
      have hvalue : ∀ w : OptionalWord, w.get = some value → w = ⟨true, value⟩ := by
        rintro ⟨_ | _, other⟩ hw
        · exact nomatch hw
        · cases hw
          rfl
      rw [hvalue word hword, hvalue word' (hget ▸ hword)]

/-- A normal response is determined by its fields and its action. -/
theorem Response.Normal.ext {r r' : Response} (h : r.Normal) (h' : r'.Normal)
    (hget : r.get = r'.get) (haction : r.action = r'.action) : r = r' := by
  have hfield : ∀ field, r.get field = r'.get field := fun field => congrFun hget field
  have hpass := hfield .debuggerPass
  have hregisters := h.registers.ext (by decide) h'.registers fun i => hfield (.register i)
  have hstack := h.stackArguments.ext (by decide) h'.stackArguments
    fun i => hfield (.stackArgument i)
  have harguments := h.syscallArguments.ext (by decide) h'.syscallArguments
    fun i => hfield (.syscallArgument i)
  have hnumber := OptionalWord.ext_of_get h.syscallNumber h'.syscallNumber (hfield .syscallNumber)
  have hreturn := OptionalWord.ext_of_get h.syscallReturn h'.syscallReturn (hfield .syscallReturn)
  have herrno := OptionalWord.ext_of_get h.syscallErrno h'.syscallErrno (hfield .syscallErrno)
  have hdebugger := h.debuggerPass
  have hdebugger' := h'.debuggerPass
  cases r with
  | mk action registers stack number arguments ret errno isSet pass =>
  cases r' with
  | mk action' registers' stack' number' arguments' ret' errno' isSet' pass' =>
  subst haction hregisters hstack harguments hnumber hreturn herrno
  cases isSet with
  | false =>
      cases isSet' with
      | false =>
          obtain rfl : pass = true := hdebugger rfl
          obtain rfl : pass' = true := hdebugger' rfl
          rfl
      | true => exact nomatch hpass
  | true =>
      cases isSet' with
      | false => exact nomatch hpass
      | true =>
          obtain rfl : pass = pass' := Option.some.inj hpass
          rfl

theorem Response.normal_empty : Response.empty.Normal where
  registers := Words.normal_empty
  stackArguments := Words.normal_empty
  syscallNumber := fun _ => rfl
  syscallArguments := Words.normal_empty
  syscallReturn := fun _ => rfl
  syscallErrno := fun _ => rfl
  debuggerPass := fun _ => rfl

theorem Response.get_empty (field : Field) : Response.empty.get field = none := by
  cases field with
  | register i => exact Words.get_empty i
  | stackArgument i => exact Words.get_empty i
  | syscallArgument i => exact Words.get_empty i
  | syscallNumber => rfl
  | syscallReturn => rfl
  | syscallErrno => rfl
  | debuggerPass => rfl

/-! ## Merging -/

/-- An aggregate has the fields of some responses and their action. -/
structure Merged (seen : List Response) (aggregate : Response) : Prop where
  union : IsUnion (seen.map Response.get) aggregate.get
  action : aggregate.action = .return ↔ ∃ r ∈ seen, r.action = .return
  normal : aggregate.Normal

theorem merged_empty : Merged [] .empty where
  union := by
    have hget : Response.empty.get = fun _ => none := funext Response.get_empty
    rw [hget]
    exact PartialMaps.isUnion_nil
  action := iff_of_false (fun h => nomatch h) fun ⟨_, h, _⟩ => absurd h List.not_mem_nil
  normal := Response.normal_empty

variable {arch : Arch} {kind : Kind} {seen : List Response} {aggregate response : Response}

/-- Merging a response adds it to the aggregate, or it disagrees with one before. -/
theorem Merged.merge (arch : Arch) (h : Merged seen aggregate)
    (hwithin : ∀ field value, response.get field = some value → field ∈ kind.fields) :
    ((mergeResponse arch kind aggregate response).2 = none ∧
      Merged (seen ++ [response]) (mergeResponse arch kind aggregate response).1) ∨
    ((mergeResponse arch kind aggregate response).2.isSome = true ∧
      ¬Consistent ((seen ++ [response]).map Response.get)) := by
  rw [mergeResponse]
  obtain ⟨start, hstart, hget, haction, hnormal⟩ : ∃ start, (if response.action = .return then
      { aggregate with action := .return } else aggregate) = start ∧ start.get = aggregate.get ∧
      (start.action = .return ↔ aggregate.action = .return ∨ response.action = .return) ∧
      start.Normal := by
    have hn := h.normal
    split
    next hreturn =>
      exact ⟨_, rfl, rfl, iff_of_true rfl (.inr hreturn),
        { registers := hn.registers, stackArguments := hn.stackArguments,
          syscallNumber := hn.syscallNumber, syscallArguments := hn.syscallArguments,
          syscallReturn := hn.syscallReturn, syscallErrno := hn.syscallErrno,
          debuggerPass := hn.debuggerPass }⟩
    next hreturn => exact ⟨_, rfl, rfl, (or_iff_left hreturn).symm, hn⟩
  rw [hstart]
  cases hcopy : copy (cells arch) response kind.fields start with
  | mk t error =>
      cases error with
      | none =>
          have hkept : (copy (cells arch) response kind.fields start).1.action = start.action ∧
              (copy (cells arch) response kind.fields start).1.Normal :=
            PartialMaps.copy_preserves (P := fun s : Response => s.action = start.action ∧ s.Normal)
              (fun s t field value hs ht => by
                have hset := setTo_of_set ht
                exact ⟨hset.action.trans hs.1, hset.normal hs.2⟩) ⟨rfl, hnormal⟩
          rw [hcopy] at hkept
          refine .inl ⟨rfl, ?_, ?_, hkept.2⟩
          · rw [List.map_append, List.map_singleton]
            refine h.union.append fun field value => ?_
            have hcell := PartialMaps.get_of_copy (lawful_cells arch) hcopy field value
            refine hcell.trans ?_
            show start.get field = some value ∨ _ ↔ _
            rw [hget]
            exact or_congr_right ⟨And.right, fun hv => ⟨hwithin field value hv, hv⟩⟩
          · rw [hkept.1, haction, h.action]
            simp [or_and_right, exists_or]
      | some error =>
          obtain ⟨field, a, b, ha, hb, hne⟩ :=
            PartialMaps.conflict_of_copy (lawful_cells arch) hcopy
          have ha : start.get field = some a := ha
          rw [hget] at ha
          obtain ⟨_, hmem, hvalue⟩ := (h.union field a).mp ha
          refine .inr ⟨rfl, fun hconsistent => hne ?_⟩
          refine hconsistent _ ?_ response.get ?_ field a b hvalue hb
          · rw [List.map_append]
            exact List.mem_append_left _ hmem
          · rw [List.map_append]
            exact List.mem_append_right _ (List.mem_singleton_self _)

/-- What the handlers answer that do not fail. -/
def responses (arch : Arch) (kind : Kind) (outcomes : List Outcome) : List Response :=
  outcomes.filterMap fun outcome => (respond arch kind outcome).toOption

/-- No handler fails and no two disagree. -/
def Complete (arch : Arch) (kind : Kind) (outcomes : List Outcome) : Prop :=
  (∀ outcome ∈ outcomes, (respond arch kind outcome).isOk = true) ∧
    Consistent ((responses arch kind outcomes).map Response.get)

theorem dispatchLoop_invalid (arch : Arch) (kind : Kind) (outcomes : List Outcome)
    (aggregate : Response) : (dispatchLoop arch kind outcomes aggregate false).2 = false := by
  induction outcomes generalizing aggregate with
  | nil => rfl
  | cons outcome outcomes ih =>
      rw [dispatchLoop]
      cases respond arch kind outcome with
      | error _ => exact ih aggregate
      | ok response => exact ih _

/-- The fields of a response are those that its dispatcher merges, and the instruction pointer is
moved only when a stop is not passed on. -/
structure Readable (arch : Arch) (kind : Kind) (r : Response) : Prop where
  within : ∀ field value, r.get field = some value → field ∈ kind.fields
  pointer : kind = .debuggerBreakpoint ∨ kind = .debuggerSingleStep →
    ∀ i, arch.position arch.instrPtrReg.toList = some i → r.get (.register i) ≠ none →
      r.get .debuggerPass = some false

theorem parseHook_ok {value : PyValue} (h : parseHook arch kind value = .ok response) :
    ∃ action registers stackArguments,
      response = { Response.empty with action, registers, stackArguments } := by
  cases value with
  | none =>
      cases h
      exact ⟨_, _, _, rfl⟩
  | dict items =>
      obtain ⟨action, -, h⟩ := bind_eq_ok.mp h
      obtain ⟨_, -, h⟩ := bind_eq_ok.mp h
      obtain ⟨stackArguments, -, h⟩ := bind_eq_ok.mp h
      obtain ⟨registers, -, rfl⟩ := map_eq_ok.mp h
      exact ⟨action, registers, stackArguments, rfl⟩
  | _ => exact nomatch h

theorem parseSyscall_ok {value : PyValue} (h : parseSyscall kind value = .ok response) :
    ∃ syscallNumber syscallArguments syscallReturn syscallErrno, response =
      { Response.empty with syscallNumber, syscallArguments, syscallReturn, syscallErrno } := by
  cases value with
  | none =>
      cases h
      exact ⟨_, _, _, _, rfl⟩
  | dict items =>
      obtain ⟨syscallNumber, -, h⟩ := bind_eq_ok.mp h
      obtain ⟨syscallArguments, -, h⟩ := bind_eq_ok.mp h
      obtain ⟨syscallReturn, -, h⟩ := bind_eq_ok.mp h
      obtain ⟨syscallErrno, -, rfl⟩ := map_eq_ok.mp h
      exact ⟨syscallNumber, syscallArguments, syscallReturn, syscallErrno, rfl⟩
  | _ => exact nomatch h

theorem parseException_ok {value : PyValue} (h : parseException arch value = .ok response) :
    ∃ registers, response = { Response.empty with registers } := by
  cases value with
  | none =>
      cases h
      exact ⟨_, rfl⟩
  | dict items =>
      obtain ⟨registers, -, rfl⟩ := map_eq_ok.mp h
      exact ⟨registers, rfl⟩
  | _ => exact nomatch h

/-- Only the decision to pass the stop on is set. -/
def OnlyPass (r : Response) : Prop :=
  ∃ isSet pass, r = { Response.empty with debuggerPassSet := isSet, debuggerPassToDebugger := pass }

theorem OnlyPass.set {r r' : Response} {pass : Bool} (h : OnlyPass r)
    (hset : setPassDecision r pass = .ok r') : OnlyPass r' := by
  obtain ⟨isSet, old, rfl⟩ := h
  obtain ⟨_, _, _, herror⟩ | ⟨-, hok⟩ := setPassDecision_eq
    { Response.empty with debuggerPassSet := isSet, debuggerPassToDebugger := old } pass
  · exact nomatch herror.symm.trans hset
  · cases hok.symm.trans hset
    exact ⟨true, pass, rfl⟩

theorem OnlyPass.parsePass {r r' : Response} {value : Option PyValue} (h : OnlyPass r)
    (hparse : parsePass value r = .ok r') : OnlyPass r' := by
  rw [Interceptors.parsePass.eq_def] at hparse
  split at hparse
  next =>
    cases hparse
    exact h
  next => exact h.set hparse
  next => exact nomatch hparse

theorem OnlyPass.parseAction {r r' : Response} {value : Option PyValue} (h : OnlyPass r)
    (hparse : parseDebuggerAction value r = .ok r') : OnlyPass r' := by
  rw [parseDebuggerAction.eq_def] at hparse
  split at hparse
  next =>
    cases hparse
    exact h
  next =>
    dsimp only at hparse
    split at hparse
    next => exact h.set hparse
    next =>
      split at hparse
      next => exact h.set hparse
      next => exact nomatch hparse
  next => exact nomatch hparse

/-- A response that moves the instruction pointer at a stop does not pass it on. -/
theorem validateResponse_ok (h : validateResponse arch kind response = .ok ())
    (hkind : kind = .debuggerBreakpoint ∨ kind = .debuggerSingleStep) {i : Fin maxRegisters}
    (hi : arch.position arch.instrPtrReg.toList = some i)
    (hget : response.get (.register i) ≠ none) : response.get .debuggerPass = some false := by
  rw [validateResponse] at h
  split at h
  next => exact nomatch h
  next =>
  split at h
  next => exact nomatch h
  next hmoves =>
    have hpointer : ((arch.position arch.instrPtrReg.toList).any fun index =>
        (response.registers.get index).isSome) = true := by
      rw [hi]
      exact Option.isSome_iff_ne_none.mpr hget
    have hpass : ¬(¬response.debuggerPassSet = true ∨ response.debuggerPassToDebugger = true) :=
      fun hpass => hmoves ⟨hkind, hpointer, hpass⟩
    rw [not_or, not_not, Bool.not_eq_true] at hpass
    rw [Response.get, if_pos hpass.1, hpass.2]
    rfl

theorem parseDebugger_ok {value : PyValue} (h : parseDebugger arch kind value = .ok response) :
    (∃ isSet pass registers, response = { Response.empty with
      debuggerPassSet := isSet, debuggerPassToDebugger := pass, registers }) ∧
    (response = .empty ∨ validateResponse arch kind response = .ok ()) := by
  cases value with
  | none =>
      cases h
      exact ⟨⟨_, _, _, rfl⟩, .inl rfl⟩
  | dict items =>
      obtain ⟨r, hr, h⟩ := bind_eq_ok.mp h
      obtain ⟨r', hr', h⟩ := bind_eq_ok.mp h
      obtain ⟨registers, -, h⟩ := bind_eq_ok.mp h
      obtain ⟨_, hvalid, rfl⟩ := map_eq_ok.mp h
      have hempty : OnlyPass .empty := ⟨_, _, rfl⟩
      obtain ⟨isSet, pass, rfl⟩ := (hempty.parsePass hr).parseAction hr'
      exact ⟨⟨isSet, pass, registers, rfl⟩, .inr hvalid⟩
  | _ => exact nomatch h

theorem readable_of_parseDebugger {value : PyValue}
    (h : parseDebugger arch kind value = .ok response)
    (hfields : kind.fields = .debuggerPass :: (List.finRange _).map .register) :
    Readable arch kind response := by
  obtain ⟨⟨isSet, pass, registers, hshape⟩, hvalid⟩ := parseDebugger_ok h
  constructor
  · intro field value hvalue
    rw [hshape] at hvalue
    rw [hfields]
    cases field with
    | register i => simp
    | debuggerPass => simp
    | stackArgument i => exact nomatch (Response.get_empty (.stackArgument i)).symm.trans hvalue
    | syscallArgument i => exact nomatch (Response.get_empty (.syscallArgument i)).symm.trans hvalue
    | _ => exact nomatch hvalue
  · intro hkind i hi hget
    obtain rfl | hvalid := hvalid
    · exact absurd (Response.get_empty _) hget
    · exact validateResponse_ok hvalid hkind hi hget

theorem readable_of_parseHook {value : PyValue} (h : parseHook arch kind value = .ok response)
    (hfields : kind.fields = (List.finRange _).map .register ++
      (List.finRange _).map .stackArgument)
    (hkind : ¬(kind = .debuggerBreakpoint ∨ kind = .debuggerSingleStep)) :
    Readable arch kind response := by
  obtain ⟨action, registers, stackArguments, rfl⟩ := parseHook_ok h
  refine ⟨fun field value hvalue => ?_, fun h => absurd h hkind⟩
  rw [hfields]
  cases field with
  | register i => simp
  | stackArgument i => simp
  | syscallArgument i => exact nomatch (Response.get_empty (.syscallArgument i)).symm.trans hvalue
  | _ => exact nomatch hvalue

theorem readable_of_parseSyscall {value : PyValue} (h : parseSyscall kind value = .ok response)
    (hfields : kind.fields = [.syscallNumber, .syscallReturn, .syscallErrno] ++
      (List.finRange _).map .syscallArgument)
    (hkind : ¬(kind = .debuggerBreakpoint ∨ kind = .debuggerSingleStep)) :
    Readable arch kind response := by
  obtain ⟨number, arguments, ret, errno, rfl⟩ := parseSyscall_ok h
  refine ⟨fun field value hvalue => ?_, fun h => absurd h hkind⟩
  rw [hfields]
  cases field with
  | register i => exact nomatch (Response.get_empty (.register i)).symm.trans hvalue
  | stackArgument i => exact nomatch (Response.get_empty (.stackArgument i)).symm.trans hvalue
  | debuggerPass => exact nomatch hvalue
  | _ => simp

theorem readable_of_parseException {value : PyValue}
    (h : parseException arch value = .ok response) : Readable arch .exceptionHandle response := by
  obtain ⟨registers, rfl⟩ := parseException_ok h
  refine ⟨fun field value hvalue => ?_, fun h => h.elim nofun nofun⟩
  rw [Kind.fields]
  cases field with
  | register i => simp
  | stackArgument i => exact nomatch (Response.get_empty (.stackArgument i)).symm.trans hvalue
  | syscallArgument i => exact nomatch (Response.get_empty (.syscallArgument i)).symm.trans hvalue
  | _ => exact nomatch hvalue

/-- Every dispatcher reads only fields that it merges. -/
theorem readable_of_respond {outcome : Outcome} (h : respond arch kind outcome = .ok response) :
    Readable arch kind response := by
  cases outcome with
  | raises error => exact nomatch h
  | returns value =>
      cases kind with
      | hookEntry => exact readable_of_parseHook h rfl (by simp)
      | hookReturn => exact readable_of_parseHook h rfl (by simp)
      | syscallEntry => exact readable_of_parseSyscall h rfl (by simp)
      | syscallExit => exact readable_of_parseSyscall h rfl (by simp)
      | exceptionHandle => exact readable_of_parseException h
      | debuggerBreakpoint => exact readable_of_parseDebugger h rfl
      | debuggerSingleStep => exact readable_of_parseDebugger h rfl
      | debuggerAsyncBreak => exact readable_of_parseDebugger h rfl

/-- The loop merges all responses, or one fails or two disagree. -/
theorem dispatchLoop_spec (arch : Arch) (kind : Kind) (outcomes : List Outcome)
    (h : Merged seen aggregate) :
    ((∀ outcome ∈ outcomes, (respond arch kind outcome).isOk = true) ∧
      Merged (seen ++ responses arch kind outcomes)
        (dispatchLoop arch kind outcomes aggregate true).1 ∧
      (dispatchLoop arch kind outcomes aggregate true).2 = true) ∨
    (¬((∀ outcome ∈ outcomes, (respond arch kind outcome).isOk = true) ∧
        Consistent ((seen ++ responses arch kind outcomes).map Response.get)) ∧
      (dispatchLoop arch kind outcomes aggregate true).2 = false) := by
  induction outcomes generalizing seen aggregate with
  | nil =>
      rw [responses, List.filterMap_nil, List.append_nil]
      exact .inl ⟨fun _ hmem => absurd hmem List.not_mem_nil, h, rfl⟩
  | cons outcome outcomes ih =>
      rw [dispatchLoop, List.forall_mem_cons]
      cases hrespond : respond arch kind outcome with
      | error e =>
          refine .inr ⟨fun hall => ?_, dispatchLoop_invalid arch kind outcomes aggregate⟩
          exact Bool.false_ne_true hall.1.1
      | ok response =>
          have hresponses : seen ++ responses arch kind (outcome :: outcomes) =
              (seen ++ [response]) ++ responses arch kind outcomes := by
            simp [responses, hrespond, Except.toOption]
          rw [hresponses]
          dsimp only
          obtain ⟨hnone, hmerged⟩ | ⟨hsome, hconflict⟩ := h.merge arch
            (readable_of_respond hrespond).within
          · rw [hnone, Option.isNone_none, Bool.and_self]
            obtain ⟨hall, hmerged, hvalid⟩ | ⟨hnot, hvalid⟩ := ih hmerged
            · exact .inl ⟨⟨rfl, hall⟩, hmerged, hvalid⟩
            · exact .inr ⟨fun hall => hnot ⟨hall.1.2, hall.2⟩, hvalid⟩
          · have hsome : (mergeResponse arch kind aggregate response).2.isNone = false := by
              rw [← Option.not_isSome, hsome]
              rfl
            rw [hsome, Bool.and_false]
            refine .inr ⟨fun hall => hconflict ?_, dispatchLoop_invalid ..⟩
            rw [List.map_append] at hall
            exact fun f hf g hg => hall.2 f (List.mem_append_left _ hf) g
              (List.mem_append_left _ hg)

/-! ## The response of a dispatcher -/

/-- The handlers for a request, in any order, do this. -/
def outcomes (request : Request) (registry : List Plugin) (outcome : Handler → Outcome) :
    List Outcome := (matchingHandlers request registry).map outcome

/-- What `complete` should get: the union of the responses if there is one, else nothing. -/
structure Decided (arch : Arch) (kind : Kind) (outcomes : List Outcome) (r : Response) : Prop where
  complete : Complete arch kind outcomes → Merged (responses arch kind outcomes) r
  empty : ¬Complete arch kind outcomes → r = .empty

theorem Complete.perm {os os' : List Outcome} (hperm : os.Perm os') (h : Complete arch kind os) :
    Complete arch kind os' :=
  ⟨fun outcome hmem => h.1 outcome (hperm.mem_iff.mpr hmem),
    h.2.perm ((hperm.filterMap _).map _)⟩

theorem Merged.perm {rs rs' : List Response} (hperm : rs.Perm rs') (h : Merged rs aggregate) :
    Merged rs' aggregate where
  union := h.union.perm (hperm.map _)
  action := by simp only [h.action, hperm.mem_iff]
  normal := h.normal

theorem Merged.unique {r r' : Response} (h : Merged seen r) (h' : Merged seen r') : r = r' := by
  refine h.normal.ext h'.normal (h.union.unique h'.union) ?_
  have haction := h.action.trans h'.action.symm
  cases hr : r.action <;> cases hr' : r'.action <;> simp_all

theorem Decided.perm {os os' : List Outcome} {r : Response} (hperm : os.Perm os')
    (h : Decided arch kind os r) : Decided arch kind os' r where
  complete := fun hc => (h.complete (hc.perm hperm.symm)).perm (hperm.filterMap _)
  empty := fun hc => h.empty fun hc' => hc (hc'.perm hperm)

theorem Decided.unique {os : List Outcome} {r r' : Response} (h : Decided arch kind os r)
    (h' : Decided arch kind os r') : r = r' := by
  by_cases hc : Complete arch kind os
  · exact (h.complete hc).unique (h'.complete hc)
  · rw [h.empty hc, h'.empty hc]

theorem decided_dispatch (arch : Arch) (request : Request) (registry : List Plugin)
    (outcome : Handler → Outcome) :
    Decided arch request.kind (outcomes request registry outcome)
      (dispatch arch request registry outcome) := by
  have hsort : ((sortHandlers (matchingHandlers request registry)).map outcome).Perm
      (outcomes request registry outcome) := (Handlers.sortHandlers_perm _ _ _).map outcome
  refine Decided.perm hsort ?_
  rw [dispatch]
  generalize (sortHandlers (matchingHandlers request registry)).map outcome = os
  obtain ⟨hall, hmerged, hvalid⟩ | ⟨hnot, hvalid⟩ :=
    dispatchLoop_spec arch request.kind os merged_empty
  · dsimp only
    rw [if_pos hvalid]
    rw [List.nil_append] at hmerged
    refine ⟨fun _ => hmerged, fun hc => absurd ⟨hall, hmerged.union.consistent⟩ hc⟩
  · dsimp only
    rw [hvalid, if_neg Bool.false_ne_true]
    exact ⟨fun hc => absurd hc hnot, fun _ => rfl⟩

theorem mem_responses {os : List Outcome} {r : Response} (h : r ∈ responses arch kind os) :
    Readable arch kind r := by
  obtain ⟨outcome, -, houtcome⟩ := List.mem_filterMap.mp h
  cases hrespond : respond arch kind outcome with
  | error e =>
      rw [hrespond] at houtcome
      exact nomatch houtcome
  | ok r' =>
      rw [hrespond] at houtcome
      cases houtcome
      exact readable_of_respond hrespond

theorem Decided.squashes {os : List Outcome} {r : Response} (h : Decided arch kind os r)
    (hkind : kind = .debuggerBreakpoint ∨ kind = .debuggerSingleStep) {i : Fin maxRegisters}
    (hi : arch.position arch.instrPtrReg.toList = some i) (hget : r.get (.register i) ≠ none) :
    r.debuggerPassToDebugger = false := by
  by_cases hc : Complete arch kind os
  · have hunion := (h.complete hc).union
    obtain ⟨value, hvalue⟩ := Option.ne_none_iff_exists'.mp hget
    obtain ⟨f, hf, hfi⟩ := (hunion _ value).mp hvalue
    obtain ⟨response, hmem, rfl⟩ := List.mem_map.mp hf
    have hpass := (mem_responses hmem).pointer hkind i hi (by rw [hfi]; exact Option.some_ne_none _)
    have hpass := (hunion .debuggerPass false).mpr ⟨_, hf, hpass⟩
    rw [Response.get] at hpass
    split at hpass
    next => exact Option.some.inj hpass
    next => exact nomatch hpass
  · rw [h.empty hc] at hget
    exact absurd (Response.get_empty _) hget

/-- The response to a request is the union of what its handlers answer, or empty if one fails or
two disagree.  It depends on nothing else, and a stop whose instruction pointer is moved is not
passed to the debugger. -/
theorem dispatch_exact (arch : Arch) (request : Request) (registry : List Plugin)
    (outcome : Handler → Outcome) :
    Decided arch request.kind (outcomes request registry outcome)
      (dispatch arch request registry outcome) ∧
    (∀ (other : Request) (registry' : List Plugin) (outcome' : Handler → Outcome),
      other.kind = request.kind →
      (outcomes other registry' outcome').Perm (outcomes request registry outcome) →
      dispatch arch other registry' outcome' = dispatch arch request registry outcome) ∧
    (request.kind = .debuggerBreakpoint ∨ request.kind = .debuggerSingleStep →
      ∀ i, arch.position arch.instrPtrReg.toList = some i →
        (dispatch arch request registry outcome).get (.register i) ≠ none →
        (dispatch arch request registry outcome).debuggerPassToDebugger = false) := by
  have hdecided := decided_dispatch arch request registry outcome
  refine ⟨hdecided, fun other registry' outcome' hkind hperm => ?_, fun hkind i hi hget => ?_⟩
  · have hother := decided_dispatch arch other registry' outcome'
    rw [hkind] at hother
    exact (hother.perm hperm).unique hdecided
  · exact hdecided.squashes hkind hi hget

end PinBridge.Interceptors
