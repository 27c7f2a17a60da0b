import Mathlib.Data.List.Sort
import PinBridge.Hooks.Arming

/-!
# Hook rules

A rule writes a register or a stack argument when its Hook is hit, on a condition on another one.
All rules are one vector, sorted by their addresses with an unstable sort after every call of
`set_rule`.  `apply_rules` takes the rules of one address from it, in their order in the vector.

`heldRules` says which rules an address has after some accepted calls: each once, in the order in
which they were first set, with the value that was set last.  The vector has exactly these
(`filter_run`), for any sort, but their order is that of the sort.  A call for a new rule is
accepted unless the vector is full.

A sort is any function that permutes and sorts (`Sorts`), a different one at every call.
-/

namespace PinBridge.HookRules

open Hooks (HookRule maxHookRules replaceRule)

/-! ## The rules -/

/-- `PB_INVALID_THREAD_ID`. -/
def invalidThreadId : Nat := 0xFFFFFFFF

/-- `HOOK_STACK_ARG_BASE`. -/
def hookStackArgBase : Nat := 0x80000000

/-- `stack_arg_index`. -/
def stackArgIndex (reg : Nat) : Option Nat :=
  if hookStackArgBase ≤ reg ∧ reg - hookStackArgBase < 1024 then some (reg - hookStackArgBase)
  else none

/-- An implementation of `sort_unstable_by_key`. -/
abbrev Sorting : Type := List HookRule → List HookRule

/-- Whether a rule is accepted at all. -/
def Admissible (rule : HookRule) : Prop :=
  rule.address ≠ 0 ∧ rule.setReg ≠ 0 ∧ (rule.matchReg = 0 ∨ rule.matchMask ≠ 0)

instance (rule : HookRule) : Decidable (Admissible rule) := inferInstanceAs (Decidable (_ ∧ _))

/-- `set_rule`: its result and the vector after it. -/
def setRule (sort : Sorting) (rules : List HookRule) (rule : HookRule) : Bool × List HookRule :=
  if rule.address = 0 ∨ rule.setReg = 0 ∨ (rule.matchReg ≠ 0 ∧ rule.matchMask = 0) then
    (false, rules)
  else if rules.any rule.same then (true, sort (replaceRule rule rules))
  else if maxHookRules ≤ rules.length then (false, rules)
  else (true, sort (rules ++ [rule]))

/-- A call. -/
inductive Call where
  | set (rule : HookRule)
  | clear
  deriving DecidableEq, Repr

/-- `set_rule` or `clear_rules`. -/
def call (sort : Sorting) (rules : List HookRule) : Call → Bool × List HookRule
  | .set rule => setRule sort rules rule
  | .clear => (true, [])

/-- The vector after some calls, each with its sort. -/
def run (rules : List HookRule) : List (Call × Sorting) → List HookRule
  | [] => rules
  | (c, sort) :: calls => run (call sort rules c).2 calls

/-- The calls that return true. -/
def accepted (rules : List HookRule) : List (Call × Sorting) → List Call
  | [] => []
  | (c, sort) :: calls =>
      if (call sort rules c).1 then c :: accepted (call sort rules c).2 calls
      else accepted (call sort rules c).2 calls

/-! ## Applying rules -/

/-- The context of a callback, which Pin reads and writes. -/
structure Native (γ : Type*) where
  /-- `pb_pin_get_context_reg`. -/
  getContextReg : γ → Nat → Option Nat
  /-- `pb_pin_get_context_stack_arg`. -/
  getContextStackArg : γ → Nat → Option Nat
  /-- `pb_pin_set_context_reg`. -/
  setContextReg : γ → Nat → Nat → Option γ
  /-- `pb_pin_set_context_stack_arg`. -/
  setContextStackArg : γ → Nat → Nat → Option γ
  /-- `hook_arg_regs`. -/
  hookArgRegs : Vector Nat 4

variable {γ : Type*} (native : Native γ)

/-- What a rule compares: a captured argument, a stack argument or a register. -/
def current (context : γ) (capturedArgs : Vector Nat 4) (reg : Nat) : Option Nat :=
  match native.hookArgRegs.toList.findIdx? (· = reg) with
  | some index => capturedArgs[index]?
  | none =>
      match stackArgIndex reg with
      | some index => native.getContextStackArg context index
      | none => native.getContextReg context reg

/-- One round of the loop of `apply_rules`, with the writes so far. -/
def applyRule (threadId : Nat) (capturedArgs : Vector Nat 4) (isReturnInstruction : Bool)
    (state : γ × Nat) (rule : HookRule) : γ × Nat :=
  let (context, writes) := state
  if rule.threadId ≠ invalidThreadId ∧ rule.threadId ≠ threadId then state
  else if isReturnInstruction ∧
      ((stackArgIndex rule.matchReg).isSome ∨ (stackArgIndex rule.setReg).isSome) then state
  else if rule.matchReg ≠ 0 ∧
      ((current native context capturedArgs rule.matchReg).map fun value =>
        decide (value &&& rule.matchMask = rule.matchValue &&& rule.matchMask)) ≠ some true then
    state
  else
    let applied :=
      match stackArgIndex rule.setReg with
      | some index => native.setContextStackArg context index rule.setValue
      | none => native.setContextReg context rule.setReg rule.setValue
    match applied with
    | some context => (context, writes + 1)
    | none => state

/-- The loop of `apply_rules`. -/
def applyLoop (address threadId : Nat) (capturedArgs : Vector Nat 4) (isReturnInstruction : Bool) :
    List HookRule → γ × Nat → γ × Nat
  | [], state => state
  | rule :: rules, state =>
      if rule.address = address then
        applyLoop address threadId capturedArgs isReturnInstruction rules
          (applyRule native threadId capturedArgs isReturnInstruction state rule)
      else state

/-- `apply_rules`, from the partition point of the address. -/
def applyRules (rules : List HookRule) (address threadId : Nat) (context : γ)
    (capturedArgs : Vector Nat 4) (isReturnInstruction : Bool) : γ × Nat :=
  applyLoop native address threadId capturedArgs isReturnInstruction
    (rules.dropWhile (·.address < address)) (context, 0)

/-! ## The rules of one address -/

/-- What an accepted call does to the rules of an address. -/
def ruleStep (address : Nat) (held : List HookRule) : Call → List HookRule
  | .set rule =>
      if rule.address = address then
        if held.any rule.same then replaceRule rule held else held ++ [rule]
      else held
  | .clear => []

/-- The rules of an address after some accepted calls, in the order in which they were first
set. -/
def heldRules (address : Nat) (calls : List Call) : List HookRule :=
  calls.foldl (ruleStep address) []

/-- A sort permutes the rules and sorts them by their address. -/
structure Sorts (sort : Sorting) : Prop where
  perm : ∀ rules, (sort rules).Perm rules
  sorted : ∀ rules, (sort rules).Pairwise fun a b => a.address ≤ b.address

/-- A sort keeps the order of the rules of one address. -/
def Stable (sort : Sorting) : Prop :=
  ∀ rules address, (sort rules).filter (·.address = address) = rules.filter (·.address = address)

/-- No two rules differ in the written value only. -/
abbrev Distinct (rules : List HookRule) : Prop := rules.Pairwise fun a b => a.same b = false

theorem same_iff {a b : HookRule} : a.same b = true ↔
    b.address = a.address ∧ b.threadId = a.threadId ∧ b.matchReg = a.matchReg ∧
      b.matchMask = a.matchMask ∧ b.matchValue = a.matchValue ∧ b.setReg = a.setReg := by
  simp [HookRule.same, and_assoc]

theorem same_symm {a b : HookRule} (h : a.same b = true) : b.same a = true := by
  rw [same_iff] at h ⊢
  omega

theorem same_trans {a b c : HookRule} (h : a.same b = true) (h' : b.same c = true) :
    a.same c = true := by
  rw [same_iff] at h h' ⊢
  omega

/-- The value of the rule that is the same. -/
def revalue (rule item : HookRule) : HookRule :=
  if rule.same item then { item with setValue := rule.setValue } else item

@[simp] theorem revalue_address (rule item : HookRule) :
    (revalue rule item).address = item.address := by
  rw [revalue]
  split
  next => rfl
  next => rfl

theorem same_revalue (rule a b : HookRule) : a.same (revalue rule b) = a.same b := by
  rw [revalue]
  split
  next => rfl
  next => rfl

theorem revalue_same (rule a b : HookRule) : (revalue rule a).same b = a.same b := by
  rw [revalue]
  split
  next => rfl
  next => rfl

/-- Among distinct rules, only one is the same. -/
theorem replaceRule_eq {rules : List HookRule} (h : Distinct rules) (rule : HookRule) :
    replaceRule rule rules = rules.map (revalue rule) := by
  induction rules with
  | nil => rfl
  | cons item rules ih =>
      obtain ⟨hitem, hrules⟩ := List.pairwise_cons.mp h
      rw [replaceRule, List.map_cons, revalue]
      split
      next hsame =>
        have hrest : ∀ other ∈ rules, revalue rule other = other := fun other hother => by
          refine if_neg fun hother' => ?_
          have := same_trans (same_symm hsame) hother'
          rw [hitem other hother] at this
          exact Bool.false_ne_true this
        rw [List.map_congr_left hrest, List.map_id']
      next => rw [ih hrules]

theorem Distinct.perm {rules rules' : List HookRule} (hperm : rules.Perm rules')
    (h : Distinct rules) : Distinct rules' :=
  List.Pairwise.perm h hperm fun {a b} hab => by
    rw [Bool.eq_false_iff] at hab ⊢
    exact mt same_symm hab

theorem Distinct.map_revalue {rules : List HookRule} (h : Distinct rules) (rule : HookRule) :
    Distinct (rules.map (revalue rule)) := by
  rw [Distinct, List.pairwise_map]
  exact h.imp fun hab => by rw [revalue_same, same_revalue, hab]

theorem Distinct.append {rules : List HookRule} {rule : HookRule} (h : Distinct rules)
    (hnew : rules.any rule.same = false) : Distinct (rules ++ [rule]) := by
  refine List.pairwise_append.mpr ⟨h, List.pairwise_singleton _ _, fun item hitem last hlast => ?_⟩
  obtain rfl := List.mem_singleton.mp hlast
  rw [Bool.eq_false_iff]
  exact fun hsame => List.any_eq_false.mp hnew item hitem (same_symm hsame)

/-! ## One call -/

/-- The vector is sorted, and its rules are distinct. -/
structure Ok (rules : List HookRule) : Prop where
  sorted : rules.Pairwise fun a b => a.address ≤ b.address
  distinct : Distinct rules

theorem ok_nil : Ok [] := ⟨.nil, .nil⟩

variable {sort : Sorting} {rules held : List HookRule} {address : Nat}

theorem Ok.call (h : Ok rules) (hsort : Sorts sort) (c : Call) : Ok (call sort rules c).2 := by
  cases c with
  | clear => exact ok_nil
  | set rule =>
      rw [HookRules.call, setRule]
      split
      next => exact h
      next =>
      split
      next =>
        rw [replaceRule_eq h.distinct]
        exact ⟨hsort.sorted _, (h.distinct.map_revalue rule).perm (hsort.perm _).symm⟩
      next hnew =>
      split
      next => exact h
      next =>
        exact ⟨hsort.sorted _,
          (h.distinct.append (Bool.eq_false_iff.mpr hnew)).perm (hsort.perm _).symm⟩

/-- A relation between the rules of an address in the vector and in the order of the calls. -/
structure Compatible (R : List HookRule → List HookRule → Prop) : Prop where
  refl : ∀ l, R l l
  trans : ∀ {l m n}, R l m → R m n → R l n
  append : ∀ {l m} rule, R l m → R (l ++ [rule]) (m ++ [rule])
  map : ∀ {l m} (f : HookRule → HookRule), R l m → R (l.map f) (m.map f)
  perm : ∀ {l m}, R l m → l.Perm m

theorem compatible_perm : Compatible List.Perm where
  refl := .refl
  trans := .trans
  append := fun rule h => h.append_right [rule]
  map := fun f h => h.map f
  perm := id

theorem compatible_eq : Compatible Eq where
  refl := fun _ => rfl
  trans := .trans
  append := fun _ h => h ▸ rfl
  map := fun _ h => h ▸ rfl
  perm := fun h => h ▸ .refl _

/-- The sort keeps the relation for every address. -/
def Keeps (R : List HookRule → List HookRule → Prop) (sort : Sorting) : Prop :=
  ∀ rules address,
    R ((sort rules).filter (·.address = address)) (rules.filter (·.address = address))

variable {R : List HookRule → List HookRule → Prop}

theorem filter_map_revalue (rules : List HookRule) (rule : HookRule) (address : Nat) :
    (rules.map (revalue rule)).filter (·.address = address) =
      (rules.filter (·.address = address)).map (revalue rule) := by
  rw [List.filter_map]
  congr 1
  exact List.filter_congr fun item _ => by simp

theorem any_same_iff (rules : List HookRule) (rule : HookRule) :
    (rules.filter (·.address = rule.address)).any rule.same = rules.any rule.same := by
  rw [List.any_filter]
  congr 1
  funext item
  cases hsame : rule.same item with
  | false => exact Bool.and_false _
  | true => simp [(same_iff.mp hsame).1]

/-- A call does to the rules of an address in the vector what `ruleStep` says. -/
theorem filter_call (hR : Compatible R) (hkeeps : Keeps R sort) (h : Ok rules)
    (hheld : R (rules.filter (·.address = address)) held) (c : Call) :
    R ((call sort rules c).2.filter (·.address = address))
      (if (call sort rules c).1 then ruleStep address held c else held) := by
  cases c with
  | clear => exact hR.refl []
  | set rule =>
      rw [call, setRule]
      split
      next => exact hheld
      next =>
      have hdistinct : Distinct held := Distinct.perm (hR.perm hheld) (h.distinct.filter _)
      have hany : rule.address = address → held.any rule.same = rules.any rule.same := by
        rintro rfl
        rw [← any_same_iff rules rule]
        exact ((hR.perm hheld).any_eq).symm
      split
      next hsame =>
        refine hR.trans (hkeeps _ address) ?_
        rw [replaceRule_eq h.distinct, filter_map_revalue, if_pos rfl, ruleStep]
        split
        next haddress =>
          rw [hany haddress, if_pos hsame, replaceRule_eq hdistinct]
          exact hR.map _ hheld
        next haddress =>
          have hother : ∀ item ∈ rules.filter (·.address = address), revalue rule item = item := by
            intro item hitem
            refine if_neg fun hsame => haddress ?_
            rw [← (same_iff.mp hsame).1]
            simpa using (List.mem_filter.mp hitem).2
          rw [List.map_congr_left hother, List.map_id']
          exact hheld
      next hnew =>
      split
      next => exact hheld
      next =>
        refine hR.trans (hkeeps _ address) ?_
        rw [List.filter_append, if_pos rfl, ruleStep]
        split
        next haddress =>
          rw [hany haddress, if_neg hnew, List.filter_singleton]
          simp only [haddress, decide_true, cond_true]
          exact hR.append rule hheld
        next haddress =>
          rw [List.filter_singleton]
          simp only [haddress, decide_false, cond_false, List.append_nil]
          exact hheld

/-! ## Runs -/

theorem filter_run (hR : Compatible R) {calls : List (Call × Sorting)}
    (hsorts : ∀ c ∈ calls, Sorts c.2) (hkeeps : ∀ c ∈ calls, Keeps R c.2) (h : Ok rules)
    (hheld : R (rules.filter (·.address = address)) held) :
    Ok (run rules calls) ∧ R ((run rules calls).filter (·.address = address))
      ((accepted rules calls).foldl (ruleStep address) held) := by
  induction calls generalizing rules held with
  | nil => exact ⟨h, hheld⟩
  | cons first calls ih =>
      obtain ⟨c, sort⟩ := first
      obtain ⟨hsort, hsorts⟩ := List.forall_mem_cons.mp hsorts
      obtain ⟨hkeep, hkeeps⟩ := List.forall_mem_cons.mp hkeeps
      have hcall := filter_call hR hkeep h hheld c
      have hnext := ih hsorts hkeeps (h.call hsort c) hcall
      rw [run, accepted]
      split at hnext
      next haccepted => rwa [if_pos haccepted, List.foldl_cons]
      next hrefused => rwa [if_neg hrefused]

theorem Sorts.keeps (h : Sorts sort) : Keeps List.Perm sort := fun rules _ =>
  (h.perm rules).filter _

/-! ## Application -/

variable {γ : Type*} (native : Native γ)

theorem applyLoop_eq (hsorted : rules.Pairwise fun a b => a.address ≤ b.address)
    (hfrom : ∀ rule ∈ rules, address ≤ rule.address) (threadId : Nat) (capturedArgs : Vector Nat 4)
    (isReturnInstruction : Bool) (state : γ × Nat) :
    applyLoop native address threadId capturedArgs isReturnInstruction rules state =
      (rules.filter (·.address = address)).foldl
        (applyRule native threadId capturedArgs isReturnInstruction) state := by
  induction rules generalizing state with
  | nil => rfl
  | cons rule rules ih =>
      obtain ⟨hrule, hrules⟩ := List.pairwise_cons.mp hsorted
      obtain ⟨hle, hfrom⟩ := List.forall_mem_cons.mp hfrom
      rw [applyLoop]
      split
      next heq =>
        rw [ih hrules hfrom, List.filter_cons, if_pos (decide_eq_true heq), List.foldl_cons]
      next hne =>
        have hnone : (rule :: rules).filter (·.address = address) = [] := by
          refine List.filter_eq_nil_iff.mpr fun other hother => ?_
          rw [decide_eq_true_iff]
          obtain rfl | hother := List.mem_cons.mp hother
          · exact hne
          · have := hrule other hother
            omega
        rw [hnone, List.foldl_nil]

/-- The rules of the address are applied, in their order in the vector. -/
theorem applyRules_eq (hsorted : rules.Pairwise fun a b => a.address ≤ b.address) (threadId : Nat)
    (context : γ) (capturedArgs : Vector Nat 4) (isReturnInstruction : Bool) :
    applyRules native rules address threadId context capturedArgs isReturnInstruction =
      (rules.filter (·.address = address)).foldl
        (applyRule native threadId capturedArgs isReturnInstruction) (context, 0) := by
  induction rules with
  | nil => rfl
  | cons rule rules ih =>
      obtain ⟨hrule, hrules⟩ := List.pairwise_cons.mp hsorted
      rcases Nat.lt_or_ge rule.address address with hlt | hge
      · have hne : ¬decide (rule.address = address) = true := by
          rw [decide_eq_true_iff]
          omega
        rw [List.filter_cons, if_neg hne, ← ih hrules, applyRules, applyRules, List.dropWhile_cons,
          if_pos (decide_eq_true hlt)]
      · have hnot : ¬decide (rule.address < address) = true := by
          rw [decide_eq_true_iff]
          omega
        rw [applyRules, List.dropWhile_cons, if_neg hnot]
        refine applyLoop_eq native hsorted (fun other hother => ?_) ..
        obtain rfl | hother := List.mem_cons.mp hother
        · exact hge
        · exact hge.trans (hrule other hother)

/-- A call for a rule is refused only if it is not admissible, or new when the vector is full. -/
theorem setRule_accepts (sort : Sorting) (rules : List HookRule) (rule : HookRule) :
    (setRule sort rules rule).1 = true ↔
      Admissible rule ∧ (rules.any rule.same = true ∨ rules.length < maxHookRules) := by
  have hadmissible : Admissible rule ↔
      ¬(rule.address = 0 ∨ rule.setReg = 0 ∨ (rule.matchReg ≠ 0 ∧ rule.matchMask = 0)) := by
    rw [Admissible]
    omega
  rw [hadmissible, setRule]
  split
  next hnot => exact iff_of_false Bool.false_ne_true fun h => h.1 hnot
  next hok =>
  split
  next hsame => exact iff_of_true rfl ⟨hok, .inl hsame⟩
  next hnew =>
  split
  next hfull => exact iff_of_false Bool.false_ne_true fun h => h.2.elim hnew (by omega)
  next hroom => exact iff_of_true rfl ⟨hok, .inr (Nat.not_le.mp hroom)⟩

/-- Setting a rule again changes its value only. -/
theorem setRule_again (hsort : Sorts sort) (h : Ok rules) {rule : HookRule}
    (haccepted : (setRule sort rules rule).1 = true) (hsame : rules.any rule.same = true) :
    (setRule sort rules rule).2.Perm (rules.map (revalue rule)) := by
  rw [setRule] at haccepted ⊢
  split at haccepted
  next => exact nomatch haccepted
  next hok =>
    rw [if_neg hok, if_pos hsame, replaceRule_eq h.distinct]
    exact hsort.perm _

/-- The rules of an address are those of the calls for it that were accepted, each with the value
that was set last.  They are applied in some order, the same for every thread and context, which is
that of the first calls if the sorts are stable. -/
theorem rules_independent (calls : List (Call × Sorting)) (hsorts : ∀ c ∈ calls, Sorts c.2)
    (address : Nat) :
    let held := heldRules address (accepted [] calls)
    (∃ order : List HookRule, order.Perm held ∧
      ∀ threadId context capturedArgs isReturnInstruction,
        applyRules native (run [] calls) address threadId context capturedArgs
            isReturnInstruction =
          order.foldl (applyRule native threadId capturedArgs isReturnInstruction) (context, 0)) ∧
    ((∀ c ∈ calls, Stable c.2) → ∀ threadId context capturedArgs isReturnInstruction,
      applyRules native (run [] calls) address threadId context capturedArgs isReturnInstruction =
        held.foldl (applyRule native threadId capturedArgs isReturnInstruction) (context, 0)) ∧
    ∀ (sort : Sorting) (rule : HookRule), Sorts sort →
      ((setRule sort (run [] calls) rule).1 = true ↔ Admissible rule ∧
        ((run [] calls).any rule.same = true ∨ (run [] calls).length < maxHookRules)) ∧
      ((setRule sort (run [] calls) rule).1 = true → (run [] calls).any rule.same = true →
        (setRule sort (run [] calls) rule).2.Perm ((run [] calls).map (revalue rule))) := by
  intro held
  have hkeeps : ∀ c ∈ calls, Keeps List.Perm c.2 := fun c hc => (hsorts c hc).keeps
  obtain ⟨hok, hperm⟩ : Ok (run [] calls) ∧
      ((run [] calls).filter (·.address = address)).Perm held :=
    filter_run compatible_perm hsorts hkeeps ok_nil (.refl [])
  refine ⟨⟨_, hperm, applyRules_eq native hok.sorted⟩, fun hstable => ?_, fun sort rule hsort =>
    ⟨setRule_accepts sort _ rule, setRule_again hsort hok⟩⟩
  have heq : (run [] calls).filter (·.address = address) = held :=
    (filter_run compatible_eq hsorts hstable ok_nil rfl).2
  intro threadId context capturedArgs isReturnInstruction
  rw [applyRules_eq native hok.sorted, heq]

/-! ## An unstable sort -/

/-- A register file. -/
def registers : Native (Nat → Nat) where
  getContextReg context reg := some (context reg)
  getContextStackArg _ _ := none
  setContextReg context reg value := some (Function.update context reg value)
  setContextStackArg _ _ _ := none
  hookArgRegs := #v[9, 10, 11, 12]

/-- The order of the sort. -/
def AddressLe (a b : HookRule) : Prop := a.address ≤ b.address

instance : DecidableRel AddressLe := fun a b => inferInstanceAs (Decidable (a.address ≤ b.address))

instance : Std.Total AddressLe where
  total a b := Nat.le_total a.address b.address

instance : IsTrans HookRule AddressLe where
  trans _ _ _ h h' := Nat.le_trans h h'

/-- A sort that turns the rules of an address round. -/
def turning : Sorting := fun rules => rules.reverse.insertionSort AddressLe

theorem turning_sorts : Sorts turning where
  perm := fun rules => (List.perm_insertionSort _ _).trans (List.reverse_perm rules)
  sorted := fun _ => List.pairwise_insertionSort AddressLe _

/-- A rule that writes register 1 of one thread, or of all. -/
def writing (threadId value : Nat) : HookRule := ⟨4096, threadId, 0, 0, 0, 1, value⟩

/-- A rule of an address above 4096. -/
def other (i : Nat) : HookRule := ⟨4097 + i, invalidThreadId, 0, 0, 0, 1, 0⟩

/-- Calls that set rules of other addresses. -/
def filling (n : Nat) : List (Call × Sorting) :=
  (List.range n).map fun i => (.set (other i), turning)

theorem run_append (calls calls' : List (Call × Sorting)) :
    run rules (calls ++ calls') = run (run rules calls) calls' := by
  induction calls generalizing rules with
  | nil => rfl
  | cons first calls ih => exact ih

theorem filling_perm {n : Nat} (h : n ≤ maxHookRules) :
    (run [] (filling n)).Perm ((List.range n).map other) := by
  induction n with
  | zero => exact .refl []
  | succ n ih =>
      have hperm := ih (by omega)
      have hlength : (run [] (filling n)).length = n := by simpa using hperm.length_eq
      have hnew : ¬(run [] (filling n)).any (other n).same = true := by
        intro hany
        obtain ⟨rule, hrule, hsame⟩ := List.any_eq_true.mp hany
        obtain ⟨i, hi, rfl⟩ := List.mem_map.mp (hperm.mem_iff.mp hrule)
        have haddress : 4097 + i = 4097 + n := (same_iff.mp hsame).1
        have := List.mem_range.mp hi
        omega
      have hset : (setRule turning (run [] (filling n)) (other n)).2 =
          turning (run [] (filling n) ++ [other n]) := by
        rw [setRule, if_neg (by simp [other]), if_neg hnew, if_neg (by omega)]
      have hrun : run [] (filling (n + 1)) = turning (run [] (filling n) ++ [other n]) := by
        rw [filling, List.range_succ, List.map_append, run_append]
        exact hset
      rw [hrun, List.range_succ, List.map_append]
      exact (turning_sorts.perm _).trans (hperm.append_right _)

/-- Two rules of an address are applied in the other order, and a rule of an address is refused
when rules of other addresses fill the vector. -/
theorem rules_turned :
    (¬∀ (calls : List (Call × Sorting)), (∀ c ∈ calls, Sorts c.2) →
      ∀ address threadId, (applyRules registers (run [] calls) address threadId (fun _ => 0)
          #v[0, 0, 0, 0] false).1 1 =
        ((heldRules address (calls.map (·.1))).foldl
          (applyRule registers threadId #v[0, 0, 0, 0] false) (fun _ => 0, 0)).1 1) ∧
    (setRule turning (run [] []) (writing 7 1)).1 = true ∧
    (setRule turning (run [] (filling maxHookRules)) (writing 7 1)).1 = false := by
  refine ⟨fun h => ?_, rfl, ?_⟩
  · have hturned := h [(.set (writing 7 1), turning), (.set (writing invalidThreadId 2), turning)]
      (by simpa using turning_sorts) 4096 7
    revert hturned
    decide
  · rw [Bool.eq_false_iff]
    intro haccepted
    have hperm := filling_perm (Nat.le_refl maxHookRules)
    have hlength : (run [] (filling maxHookRules)).length = maxHookRules := by
      simpa using hperm.length_eq
    obtain ⟨-, hany | hroom⟩ := (setRule_accepts turning _ _).mp haccepted
    · obtain ⟨rule, hrule, hsame⟩ := List.any_eq_true.mp hany
      obtain ⟨i, -, rfl⟩ := List.mem_map.mp (hperm.mem_iff.mp hrule)
      have haddress : 4097 + i = 4096 := (same_iff.mp hsame).1
      omega
    · omega

/-- Rules of three addresses, one of which is set again. -/
def mixing : List (Call × Sorting) :=
  [writing 7 1, other 0, writing invalidThreadId 2, ⟨4095, invalidThreadId, 0, 0, 0, 2, 5⟩,
    writing 8 3, writing 7 4].map fun rule => (.set rule, turning)

/-- The three rules of their address are applied in some order, with the last values. -/
theorem rules_independent_mixing :
    ∃ order : List HookRule,
      order.Perm [writing 7 4, writing invalidThreadId 2, writing 8 3] ∧
      ∀ threadId context capturedArgs isReturnInstruction,
        applyRules registers (run [] mixing) 4096 threadId context capturedArgs
            isReturnInstruction =
          order.foldl (applyRule registers threadId capturedArgs isReturnInstruction)
            (context, 0) := by
  have hheld : heldRules 4096 (accepted [] mixing) =
      [writing 7 4, writing invalidThreadId 2, writing 8 3] := by decide +kernel
  rw [← hheld]
  refine (rules_independent registers mixing (fun c hc => ?_) 4096).1
  obtain ⟨rule, -, rfl⟩ := List.mem_map.mp hc
  exact turning_sorts

end PinBridge.HookRules
