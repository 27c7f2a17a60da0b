import Mathlib.Data.List.Perm.Basic
import PinBridge.Lib.Transition

/-!
# Pairing entries and returns

For every thread the Agent keeps a stack of at most 64 frames of logged
functions.  An entry first discards the frames at or above which the stack has
unwound, and then pushes its own (`trackFunctionEntryStack`).  A `ret` is the
return of the top frame when the function and the stack pointer agree
(`takeFunctionReturnStack`).

`Thread` puts beside these frames what really happens: which functions are
live, which frames an unwind has left behind, and how many live functions were
entered when the stack was full.  A frame that was left behind is discarded by
the next entry that reaches it, and by nothing else.  Until then it hides the
frames of its callers, or takes the place of the `ret` of another function.

`Thread.Ok` relates the stack to what happened as long as all answers are right.
`answers_right_iff` says exactly in which histories they are.
-/

namespace PinBridge.FunctionReturns

open Transition (run Always Guarded)

/-! ## The stack of the Agent -/

/-- A frame of a logged function. -/
structure FunctionCallFrame where
  functionAddress : Nat
  entryStackPointer : Nat
  deriving DecidableEq, Repr

/-- `MAX_FUNCTION_CALL_DEPTH`. -/
def maxFunctionCallDepth : Nat := 64

/-- Discard the frames the stack has unwound to, and push a frame.  The top frame
is the first of the list. -/
def trackFunctionEntryStack (frames : List FunctionCallFrame)
    (stackPointer functionAddress : Nat) : List FunctionCallFrame :=
  let frames := frames.dropWhile fun frame => frame.entryStackPointer ≤ stackPointer
  if frames.length = maxFunctionCallDepth then frames
  else ⟨functionAddress, stackPointer⟩ :: frames

/-- Whether a `ret` is the return of the top frame, which it then takes. -/
def takeFunctionReturnStack (frames : List FunctionCallFrame)
    (stackPointer functionAddress : Nat) : Bool × List FunctionCallFrame :=
  match frames with
  | [] => (false, [])
  | frame :: rest =>
      if frame.functionAddress ≠ functionAddress || frame.entryStackPointer ≠ stackPointer then
        (false, frames)
      else (true, rest)

/-- Take back the entry of a function whose Hook returned at once. -/
def cancelFunctionEntry (frames : List FunctionCallFrame) (functionAddress : Nat) :
    List FunctionCallFrame :=
  match frames with
  | [] => []
  | frame :: rest => if frame.functionAddress = functionAddress then rest else frames

/-! ## What happens to a thread -/

/-- A thread, its stack in the Agent, and what has happened to it. -/
structure Thread where
  /-- `FunctionCallState`, the top frame first. -/
  frames : List FunctionCallFrame
  /-- The live logged functions, the innermost first. -/
  live : List FunctionCallFrame
  /-- How many of the innermost live functions found the stack full. -/
  missed : Nat
  /-- The frames that an unwind has left behind and no entry has reached since. -/
  left : List FunctionCallFrame
  /-- For every `ret` so far, what the Agent answered, and whether it was the `ret` of
  the innermost live function. -/
  told : List (Bool × Bool)
  deriving DecidableEq, Repr

/-- A thread that has just started. -/
def Thread.init : Thread := ⟨[], [], 0, [], []⟩

/-- An event of a thread. -/
inductive Event where
  /-- A logged function is entered. -/
  | enter (frame : FunctionCallFrame)
  /-- A `ret` is executed. -/
  | ret (frame : FunctionCallFrame)
  /-- An exception, a `longjmp` or a tail call abandons the innermost live functions. -/
  | unwind (count : Nat)

namespace Thread

/-- The live functions that found room. -/
def recorded (t : Thread) : List FunctionCallFrame := t.live.drop t.missed

/-- A `ret` is that of the innermost live function. -/
def own (t : Thread) (frame : FunctionCallFrame) : Bool := t.live.head? = some frame

/-- The frames left behind that an entry does not reach. -/
def leftBelow (t : Thread) (frame : FunctionCallFrame) : List FunctionCallFrame :=
  t.left.filter fun g => frame.entryStackPointer < g.entryStackPointer

/-- An entry finds room. -/
def hasRoom (t : Thread) (frame : FunctionCallFrame) : Bool :=
  t.recorded.length + (t.leftBelow frame).length < maxFunctionCallDepth

/-- A logged function can be entered: with a stack pointer below that of its caller,
and at most 64 deep. -/
def mayEnter (t : Thread) (frame : FunctionCallFrame) : Bool :=
  t.live.head?.all (fun caller => frame.entryStackPointer < caller.entryStackPointer) &&
    t.live.length < maxFunctionCallDepth

/-- A logged function is entered. -/
def enter (t : Thread) (frame : FunctionCallFrame) : Thread where
  frames := trackFunctionEntryStack t.frames frame.entryStackPointer frame.functionAddress
  live := frame :: t.live
  missed := if t.hasRoom frame then t.missed else t.missed + 1
  left := t.leftBelow frame
  told := t.told

/-- A `ret` is executed. -/
def ret (t : Thread) (frame : FunctionCallFrame) : Thread :=
  let (answer, frames) :=
    takeFunctionReturnStack t.frames frame.entryStackPointer frame.functionAddress
  { t with
    frames
    live := if t.own frame then t.live.tail else t.live
    told := t.told ++ [(answer, t.own frame)] }

/-- The innermost live functions are abandoned. -/
def unwind (t : Thread) (count : Nat) : Thread :=
  { t with
    live := t.live.drop count
    missed := t.missed - count
    left := (t.live.take count).drop t.missed ++ t.left }

/-- The thread after an event that can happen. -/
def step (t : Thread) : Event → Option Thread
  | .enter frame => if t.mayEnter frame then some (t.enter frame) else none
  | .ret frame => some (t.ret frame)
  | .unwind count => if count ≤ t.live.length then some (t.unwind count) else none

/-- The stack pointers of the frames are strictly decreasing from the bottom to the
top, and every `ret` so far was answered as it should. -/
structure Right (t : Thread) : Prop where
  decreasing : t.frames.Pairwise fun g h => g.entryStackPointer < h.entryStackPointer
  answers : ∀ told ∈ t.told, told.1 = told.2

/-- The return of the innermost live function is hidden: it found no room, or a frame
below it was left behind and not reached since. -/
def Hidden (t : Thread) (frame : FunctionCallFrame) : Prop :=
  t.own frame = true ∧
    (0 < t.missed ∨ ∃ g ∈ t.left, g.entryStackPointer < frame.entryStackPointer)

/-- Another `ret` is taken for a return: its function and stack pointer are those of
the lowest frame that was left behind or belongs to a live function that found room. -/
def Mistaken (t : Thread) (frame : FunctionCallFrame) : Prop :=
  t.own frame = false ∧ frame ∈ t.recorded ++ t.left ∧
    ∀ g ∈ t.recorded ++ t.left, frame.entryStackPointer ≤ g.entryStackPointer

instance (t : Thread) (frame : FunctionCallFrame) : Decidable (t.Hidden frame) :=
  inferInstanceAs (Decidable (_ ∧ _))

instance (t : Thread) (frame : FunctionCallFrame) : Decidable (t.Mistaken frame) :=
  inferInstanceAs (Decidable (_ ∧ _))

/-- No return is hidden and none is mistaken. -/
def Clear (t : Thread) : Event → Prop
  | .ret frame => ¬t.Hidden frame ∧ ¬t.Mistaken frame
  | _ => True

instance (t : Thread) : (event : Event) → Decidable (t.Clear event)
  | .ret _ => inferInstanceAs (Decidable (_ ∧ _))
  | .enter _ => inferInstanceAs (Decidable True)
  | .unwind _ => inferInstanceAs (Decidable True)

/-! ## The frames -/

/-- The frame is entered below all of these. -/
def Below (frame : FunctionCallFrame) (l : List FunctionCallFrame) : Prop :=
  ∀ g ∈ l, frame.entryStackPointer < g.entryStackPointer

/-- The order of the frames. -/
def Ordered (l : List FunctionCallFrame) : Prop :=
  l.Pairwise fun g h => g.entryStackPointer < h.entryStackPointer

end Thread

open Thread (Below Ordered)

section

variable {l : List FunctionCallFrame} {f g : FunctionCallFrame} {sp : Nat}

/-- In an ordered stack the discarded frames are those at or below a stack pointer. -/
theorem dropWhile_eq_filter (h : Ordered l) :
    l.dropWhile (fun g => g.entryStackPointer ≤ sp) =
      l.filter fun g => sp < g.entryStackPointer := by
  induction l with
  | nil => rfl
  | cons g l ih =>
      rcases le_or_gt g.entryStackPointer sp with hle | hlt
      · rw [List.dropWhile_cons_of_pos (by simpa using hle),
          List.filter_cons_of_neg (by simpa using hle)]
        exact ih h.of_cons
      · rw [List.dropWhile_cons_of_neg (by simpa using hlt)]
        refine (List.filter_eq_self.mpr fun k hk => decide_eq_true ?_).symm
        obtain rfl | hk := List.mem_cons.mp hk
        · exact hlt
        · exact hlt.trans (List.rel_of_pairwise_cons h hk)

theorem track_eq (h : Ordered l) (f : FunctionCallFrame) :
    trackFunctionEntryStack l f.entryStackPointer f.functionAddress =
      let kept := l.filter fun g => f.entryStackPointer < g.entryStackPointer
      if kept.length = maxFunctionCallDepth then kept else f :: kept := by
  rw [trackFunctionEntryStack, dropWhile_eq_filter h]

/-- An entry keeps the stack ordered. -/
theorem ordered_track (h : Ordered l) (f : FunctionCallFrame) :
    Ordered (trackFunctionEntryStack l f.entryStackPointer f.functionAddress) := by
  have hkept : Ordered (l.filter fun g => f.entryStackPointer < g.entryStackPointer) :=
    h.sublist List.filter_sublist
  rw [track_eq h]
  show Ordered (if _ then _ else _)
  split
  next => exact hkept
  next => exact hkept.cons fun g hg => of_decide_eq_true (List.mem_filter.mp hg).2

/-- A `ret` is answered by the top frame alone. -/
theorem take_eq (l : List FunctionCallFrame) (f : FunctionCallFrame) :
    takeFunctionReturnStack l f.entryStackPointer f.functionAddress =
      if l.head? = some f then (true, l.tail) else (false, l) := by
  cases l with
  | nil => rfl
  | cons g l =>
      obtain ⟨fa, sp⟩ := f
      obtain ⟨ga, gp⟩ := g
      rw [takeFunctionReturnStack]
      simp only [List.head?_cons, Option.some.injEq, FunctionCallFrame.mk.injEq, List.tail_cons,
        ne_eq, ← Bool.decide_or, decide_eq_true_eq, ← not_and_or, ite_not]

/-- An entry that finds room and is taken back only discards. -/
theorem cancel_track (h : Ordered l)
    (hroom : (l.filter fun g => f.entryStackPointer < g.entryStackPointer).length ≠
      maxFunctionCallDepth) :
    cancelFunctionEntry (trackFunctionEntryStack l f.entryStackPointer f.functionAddress)
        f.functionAddress =
      l.filter fun g => f.entryStackPointer < g.entryStackPointer := by
  rw [track_eq h]
  simp only [if_neg hroom, cancelFunctionEntry, if_true]

/-- The top frame of an ordered stack is the lowest one. -/
theorem head?_eq_some_iff (h : Ordered l) :
    l.head? = some f ↔ f ∈ l ∧ ∀ g ∈ l, f.entryStackPointer ≤ g.entryStackPointer := by
  cases l with
  | nil => simp
  | cons k l =>
      rw [List.head?_cons, Option.some.injEq]
      constructor
      · rintro rfl
        refine ⟨List.mem_cons_self .., fun g hg => ?_⟩
        obtain rfl | hg := List.mem_cons.mp hg
        · exact le_rfl
        · exact (List.rel_of_pairwise_cons h hg).le
      · rintro ⟨hmem, hle⟩
        obtain rfl | hmem := List.mem_cons.mp hmem
        · rfl
        · have := List.rel_of_pairwise_cons h hmem
          have := hle k (List.mem_cons_self ..)
          omega

end

/-! ## The stack and what happened -/

namespace Thread

variable {t : Thread} {f g : FunctionCallFrame}

/-- As long as all answers are right, the stack holds the live functions that found room
and the frames left behind, and nothing else. -/
structure Ok (t : Thread) : Prop where
  ordered : Ordered t.frames
  live : Ordered t.live
  perm : t.frames.Perm (t.recorded ++ t.left)
  bounded : t.frames.length ≤ maxFunctionCallDepth
  missed : t.missed ≤ t.live.length
  full : 0 < t.missed → t.frames.length = maxFunctionCallDepth
  below : ∀ g ∈ t.live.take t.missed, Below g t.frames

theorem Ok.init : Thread.init.Ok where
  ordered := List.Pairwise.nil
  live := List.Pairwise.nil
  perm := List.Perm.nil
  bounded := Nat.zero_le _
  missed := le_rfl
  full h := absurd h (lt_irrefl 0)
  below _ h := absurd h List.not_mem_nil

/-- A function that is entered is below all live ones. -/
theorem Ok.below_live (h : t.Ok) (hf : t.mayEnter f = true) : Below f t.live := by
  intro g hg
  rw [mayEnter, Bool.and_eq_true] at hf
  have hcaller := hf.1
  cases hl : t.live with
  | nil =>
      rw [hl] at hg
      cases hg
  | cons caller rest =>
      have hlive := h.live
      rw [hl] at hg hcaller hlive
      have hlt : f.entryStackPointer < caller.entryStackPointer := by simpa using hcaller
      obtain rfl | hg := List.mem_cons.mp hg
      · exact hlt
      · exact hlt.trans (List.rel_of_pairwise_cons hlive hg)

/-- What an entry keeps of the stack. -/
theorem Ok.perm_filter (h : t.Ok) (hf : t.mayEnter f = true) :
    (t.frames.filter fun g => f.entryStackPointer < g.entryStackPointer).Perm
      (t.recorded ++ t.leftBelow f) := by
  have hrecorded : t.recorded.filter (fun g => f.entryStackPointer < g.entryStackPointer) =
      t.recorded := by
    refine List.filter_eq_self.mpr fun g hg => decide_eq_true ?_
    exact h.below_live hf g (List.mem_of_mem_drop hg)
  have hperm := h.perm.filter fun g => f.entryStackPointer < g.entryStackPointer
  rwa [List.filter_append, hrecorded] at hperm

/-- Under a full stack there is no room. -/
theorem Ok.missed_eq_zero (h : t.Ok) (hf : t.mayEnter f = true) (hroom : t.hasRoom f = true) :
    t.missed = 0 := by
  by_contra hne
  have hall : t.frames.filter (fun g => f.entryStackPointer < g.entryStackPointer) =
      t.frames := by
    cases hl : t.live.take t.missed with
    | nil =>
        have := h.missed
        rw [List.take_eq_nil_iff] at hl
        rcases hl with hl | hl
        · exact absurd hl hne
        · rw [hl] at this
          exact absurd (Nat.le_zero.mp this) hne
    | cons m rest =>
        have hm : m ∈ t.live.take t.missed := hl ▸ List.mem_cons_self ..
        refine List.filter_eq_self.mpr fun g hg => decide_eq_true ?_
        exact (h.below_live hf m (List.mem_of_mem_take hm)).trans (h.below m hm g hg)
  have hlength := (h.perm_filter hf).length_eq
  rw [hall, h.full (Nat.pos_of_ne_zero hne), List.length_append] at hlength
  have := of_decide_eq_true hroom
  omega

theorem Ok.enter (h : t.Ok) (hf : t.mayEnter f = true) : (t.enter f).Ok := by
  have hperm := h.perm_filter hf
  have hlength := hperm.length_eq
  rw [List.length_append] at hlength
  have hlive : Ordered (f :: t.live) := h.live.cons (h.below_live hf)
  have hkept : Below f (t.frames.filter fun g => f.entryStackPointer < g.entryStackPointer) :=
    fun g hg => of_decide_eq_true (List.mem_filter.mp hg).2
  have hle := (List.length_filter_le (fun g => decide (f.entryStackPointer < g.entryStackPointer))
    t.frames).trans h.bounded
  cases hroom : t.hasRoom f with
  | true =>
      have hzero := h.missed_eq_zero hf hroom
      have hlt := of_decide_eq_true hroom
      have hframes : (t.enter f).frames =
          f :: t.frames.filter fun g => f.entryStackPointer < g.entryStackPointer :=
        (track_eq h.ordered f).trans (if_neg (by omega))
      have hmissed : (t.enter f).missed = 0 := by
        show (if t.hasRoom f then _ else _) = _
        rw [hroom, if_pos rfl, hzero]
      have hrecorded : (t.enter f).recorded = f :: t.recorded := by
        rw [recorded, recorded, hmissed, hzero]
        rfl
      refine ⟨?_, hlive, ?_, ?_, ?_, fun hpos => ?_, fun g hg => ?_⟩
      · rw [hframes]
        exact (h.ordered.sublist List.filter_sublist).cons hkept
      · rw [hframes, hrecorded]
        exact hperm.cons f
      · rw [hframes, List.length_cons]
        omega
      · rw [hmissed]
        exact Nat.zero_le _
      · rw [hmissed] at hpos
        exact absurd hpos (lt_irrefl 0)
      · rw [hmissed] at hg
        exact absurd hg List.not_mem_nil
  | false =>
      have hge := of_decide_eq_false hroom
      have hframes : (t.enter f).frames =
          t.frames.filter fun g => f.entryStackPointer < g.entryStackPointer :=
        (track_eq h.ordered f).trans (if_pos (by omega))
      have hmissed : (t.enter f).missed = t.missed + 1 := by
        show (if t.hasRoom f then _ else _) = _
        rw [hroom]
        rfl
      have hrecorded : (t.enter f).recorded = t.recorded := by
        rw [recorded, hmissed]
        rfl
      refine ⟨?_, hlive, ?_, ?_, ?_, fun _ => ?_, fun g hg => ?_⟩
      · rw [hframes]
        exact h.ordered.sublist List.filter_sublist
      · rw [hframes, hrecorded]
        exact hperm
      · rw [hframes]
        exact hle
      · rw [hmissed]
        exact Nat.succ_le_succ h.missed
      · rw [hframes]
        omega
      · rw [hmissed] at hg
        rw [hframes]
        obtain rfl | hg := List.mem_cons.mp hg
        · exact hkept
        · exact fun k hk => h.below g hg k (List.mem_of_mem_filter hk)

/-- Abandoned functions that found room leave their frames behind. -/
theorem Ok.unwind (h : t.Ok) {count : Nat} (hcount : count ≤ t.live.length) :
    (t.unwind count).Ok where
  ordered := h.ordered
  live := h.live.sublist (List.drop_sublist ..)
  perm := by
    have hsplit : t.recorded = (t.live.take count).drop t.missed ++ (t.unwind count).recorded := by
      show t.live.drop t.missed = _ ++ (t.live.drop count).drop (t.missed - count)
      nth_rewrite 1 [← List.take_append_drop count t.live]
      rw [List.drop_append, List.length_take_of_le hcount]
    refine h.perm.trans ?_
    rw [hsplit, List.append_assoc]
    exact List.perm_append_comm_assoc ..
  bounded := h.bounded
  missed := by
    have := h.missed
    show t.missed - count ≤ (t.live.drop count).length
    rw [List.length_drop]
    omega
  full hpos := by
    have hpos : 0 < t.missed - count := hpos
    exact h.full (by omega)
  below g hg := by
    have hg : g ∈ (t.live.drop count).take (t.missed - count) := hg
    rcases le_total count t.missed with hle | hle
    · rw [List.take_drop, Nat.add_sub_cancel' hle] at hg
      exact h.below g (List.mem_of_mem_drop hg)
    · rw [Nat.sub_eq_zero_of_le hle] at hg
      exact absurd hg List.not_mem_nil

/-- The top frame is the lowest of the frames that were left behind or belong to a live
function that found room. -/
theorem Ok.head?_iff (h : t.Ok) : t.frames.head? = some f ↔
    f ∈ t.recorded ++ t.left ∧
      ∀ g ∈ t.recorded ++ t.left, f.entryStackPointer ≤ g.entryStackPointer := by
  simp only [head?_eq_some_iff h.ordered, h.perm.mem_iff]

/-- The innermost live function is on top exactly when it found room and nothing below
it was left behind. -/
theorem Ok.head?_iff_of_own (h : t.Ok) (hown : t.own f = true) :
    t.frames.head? = some f ↔
      ¬(0 < t.missed ∨ ∃ g ∈ t.left, g.entryStackPointer < f.entryStackPointer) := by
  obtain ⟨rest, hlive⟩ : ∃ rest, t.live = f :: rest := by
    have hhead : t.live.head? = some f := of_decide_eq_true hown
    exact ⟨_, (List.cons_head?_tail hhead).symm⟩
  constructor
  · rintro htop (hmissed | ⟨g, hg, hlt⟩)
    · have hf : f ∈ t.live.take t.missed := by
        rw [hlive, List.take_cons hmissed]
        exact List.mem_cons_self ..
      exact lt_irrefl _ (h.below f hf f (List.mem_of_head? htop))
    · exact absurd ((h.head?_iff.mp htop).2 g (List.mem_append_right _ hg)) (not_le.mpr hlt)
  · intro hclear
    obtain ⟨hmissed, hleft⟩ := not_or.mp hclear
    have hzero : t.missed = 0 := Nat.eq_zero_of_not_pos hmissed
    have hrecorded : t.recorded = f :: rest := by
      rw [recorded, hzero, List.drop_zero, hlive]
    have hordered := h.live
    rw [hlive] at hordered
    rw [h.head?_iff, hrecorded]
    refine ⟨List.mem_append_left _ (List.mem_cons_self ..), fun g hg => ?_⟩
    obtain hg | hg := List.mem_append.mp hg
    · obtain rfl | hg := List.mem_cons.mp hg
      · exact le_rfl
      · exact (List.rel_of_pairwise_cons hordered hg).le
    · exact not_lt.mp fun hlt => hleft ⟨g, hg, hlt⟩

theorem answer_eq (t : Thread) (f : FunctionCallFrame) :
    (takeFunctionReturnStack t.frames f.entryStackPointer f.functionAddress).1 =
      decide (t.frames.head? = some f) := by
  rw [take_eq]
  split
  next h => exact (decide_eq_true h).symm
  next h => exact (decide_eq_false h).symm

/-- The Agent answers as it should exactly when the return is not hidden and not
mistaken. -/
theorem Ok.answer_iff (h : t.Ok) (f : FunctionCallFrame) :
    (takeFunctionReturnStack t.frames f.entryStackPointer f.functionAddress).1 = t.own f ↔
      t.Clear (.ret f) := by
  rw [answer_eq, Clear, Hidden, Mistaken, ← h.head?_iff]
  cases hown : t.own f with
  | true => simp [h.head?_iff_of_own hown]
  | false => simp

theorem ret_eq (t : Thread) (f : FunctionCallFrame) :
    t.ret f =
      { t with
        frames := if t.frames.head? = some f then t.frames.tail else t.frames
        live := if t.own f then t.live.tail else t.live
        told := t.told ++ [(decide (t.frames.head? = some f), t.own f)] } := by
  rw [ret, take_eq]
  rcases em (t.frames.head? = some f) with h | h
  · simp only [if_pos h, decide_eq_true h]
  · simp only [if_neg h, decide_eq_false h]

/-- A `ret` that is answered as it should keeps the stack. -/
theorem Ok.ret (h : t.Ok)
    (hanswer : (takeFunctionReturnStack t.frames f.entryStackPointer f.functionAddress).1 =
      t.own f) : (t.ret f).Ok := by
  rw [answer_eq] at hanswer
  rw [ret_eq]
  cases hown : t.own f with
  | true =>
      have htop : t.frames.head? = some f := of_decide_eq_true (hanswer.trans hown)
      have hzero : t.missed = 0 :=
        Nat.eq_zero_of_not_pos fun hpos => (h.head?_iff_of_own hown).mp htop (.inl hpos)
      have hlive : f :: t.live.tail = t.live :=
        List.cons_head?_tail (of_decide_eq_true hown : t.live.head? = some f)
      have hframes : f :: t.frames.tail = t.frames := List.cons_head?_tail htop
      have hperm := h.perm
      rw [recorded, hzero, List.drop_zero, ← hlive, ← hframes] at hperm
      rw [if_pos htop, if_pos rfl]
      refine ⟨h.ordered.tail, h.live.tail, ?_, ?_, ?_, fun hpos => ?_, fun g hg => ?_⟩
      · rw [recorded, hzero]
        exact hperm.cons_inv
      · exact (List.tail_sublist _).length_le.trans h.bounded
      · exact hzero.le.trans (Nat.zero_le _)
      · exact absurd hpos hzero.not_gt
      · rw [hzero] at hg
        exact absurd hg List.not_mem_nil
  | false =>
      have htop : t.frames.head? ≠ some f := of_decide_eq_false (hanswer.trans hown)
      rw [if_neg htop, if_neg Bool.false_ne_true]
      exact ⟨h.ordered, h.live, h.perm, h.bounded, h.missed, h.full, h.below⟩

/-! ## Histories -/

/-- The stack is ordered whatever happens, and it is as it should be as long as all
answers are right. -/
structure OkWhileRight (t : Thread) : Prop where
  ordered : Ordered t.frames
  ok : (∀ told ∈ t.told, told.1 = told.2) → t.Ok

theorem OkWhileRight.init : Thread.init.OkWhileRight := ⟨List.Pairwise.nil, fun _ => .init⟩

theorem Right.init : Thread.init.Right := ⟨List.Pairwise.nil, fun _ h => absurd h List.not_mem_nil⟩

theorem ordered_ret (h : Ordered t.frames) (f : FunctionCallFrame) : Ordered (t.ret f).frames := by
  rw [ret_eq]
  show Ordered (if _ then _ else _)
  split
  next => exact h.tail
  next => exact h

/-- All answers are right after a `ret` if they were before and this one is. -/
theorem answers_ret : (∀ told ∈ (t.ret f).told, told.1 = told.2) ↔
    (∀ told ∈ t.told, told.1 = told.2) ∧
      (takeFunctionReturnStack t.frames f.entryStackPointer f.functionAddress).1 = t.own f := by
  rw [answer_eq, ret_eq]
  simp only [List.forall_mem_append, List.forall_mem_singleton]

/-- What an event does. -/
theorem step_cases {event : Event} {u : Thread} (h : t.step event = some u) :
    (∃ f, event = .enter f ∧ t.mayEnter f = true ∧ u = t.enter f) ∨
      (∃ f, event = .ret f ∧ u = t.ret f) ∨
      ∃ count, event = .unwind count ∧ count ≤ t.live.length ∧ u = t.unwind count := by
  cases event with
  | enter f =>
      obtain ⟨hf, hu⟩ := Option.ite_none_right_eq_some.mp h
      exact .inl ⟨f, rfl, hf, (Option.some.inj hu).symm⟩
  | ret f => exact .inr (.inl ⟨f, rfl, (Option.some.inj h).symm⟩)
  | unwind count =>
      obtain ⟨hcount, hu⟩ := Option.ite_none_right_eq_some.mp h
      exact .inr (.inr ⟨count, rfl, hcount, (Option.some.inj hu).symm⟩)

theorem OkWhileRight.step (h : t.OkWhileRight) {event : Event} {u : Thread}
    (hstep : t.step event = some u) : u.OkWhileRight := by
  obtain ⟨f, -, hf, rfl⟩ | ⟨f, -, rfl⟩ | ⟨count, -, hcount, rfl⟩ := step_cases hstep
  · exact ⟨ordered_track h.ordered f, fun hanswers => (h.ok hanswers).enter hf⟩
  · refine ⟨ordered_ret h.ordered f, fun hanswers => ?_⟩
    obtain ⟨hbefore, hanswer⟩ := answers_ret.mp hanswers
    exact (h.ok hbefore).ret hanswer
  · exact ⟨h.ordered, fun hanswers => (h.ok hanswers).unwind hcount⟩

/-- After an event all is right exactly when nothing was hidden or mistaken. -/
theorem OkWhileRight.right_iff (h : t.OkWhileRight) (hright : t.Right) {event : Event} {u : Thread}
    (hstep : t.step event = some u) : u.Right ↔ t.Clear event := by
  have hu := h.step hstep
  obtain ⟨f, rfl, -, rfl⟩ | ⟨f, rfl, rfl⟩ | ⟨count, rfl, -, rfl⟩ := step_cases hstep
  · exact iff_of_true ⟨hu.ordered, hright.answers⟩ trivial
  · rw [← (h.ok hright.answers).answer_iff f]
    constructor
    · exact fun hr => (answers_ret.mp hr.answers).2
    · exact fun hanswer => ⟨hu.ordered, answers_ret.mpr ⟨hright.answers, hanswer⟩⟩
  · exact iff_of_true ⟨hu.ordered, hright.answers⟩ trivial

end Thread

/-- Whatever happens, the stack pointers of the frames are strictly decreasing from the
bottom to the top. -/
theorem always_ordered {events : List Event} {u : Thread}
    (hrun : run Thread.step .init events = some u) :
    u.frames.Pairwise fun g h => g.entryStackPointer < h.entryStackPointer :=
  (Transition.run_invariant (fun h hstep => Thread.OkWhileRight.step h hstep)
    Thread.OkWhileRight.init hrun).ordered

/-- All along a history every return is paired with its entry and no other `ret` is
exactly when no return of a live function is hidden and no other `ret` is mistaken. -/
theorem answers_right_iff {events : List Event} {u : Thread}
    (hrun : run Thread.step .init events = some u) :
    Always Thread.step Thread.Right .init events ↔
      Guarded Thread.step Thread.Clear .init events :=
  Guarded.always_iff (fun h hstep => Thread.OkWhileRight.step h hstep)
    (fun h hright hstep => h.right_iff hright hstep) .init .init hrun

/-- A caller, a callee that calls back, and a tail of returns. -/
theorem answers_right_recursion :
    Always Thread.step Thread.Right .init
      [.enter ⟨1, 100⟩, .enter ⟨2, 80⟩, .enter ⟨1, 60⟩, .ret ⟨3, 50⟩, .ret ⟨1, 60⟩, .ret ⟨2, 80⟩,
        .ret ⟨1, 100⟩] :=
  (answers_right_iff (u := ⟨[], [], 0, [],
    [(false, false), (true, true), (true, true), (true, true)]⟩) (by decide)).mpr (by decide)

/-- After a `longjmp` out of a callee the return of its caller is missed, and the `ret` of
another function is taken for that of the callee. -/
theorem unwind_breaks_pairing :
    ¬Always Thread.step Thread.Right .init
        [.enter ⟨1, 100⟩, .enter ⟨2, 80⟩, .unwind 1, .ret ⟨1, 100⟩] ∧
      ¬Always Thread.step Thread.Right .init
        [.enter ⟨1, 100⟩, .enter ⟨2, 80⟩, .unwind 1, .ret ⟨2, 80⟩] := by
  have hhidden : run Thread.step .init
      [.enter ⟨1, 100⟩, .enter ⟨2, 80⟩, .unwind 1, .ret ⟨1, 100⟩] =
        some ⟨[⟨2, 80⟩, ⟨1, 100⟩], [], 0, [⟨2, 80⟩], [(false, true)]⟩ := by
    decide
  have hmistaken : run Thread.step .init
      [.enter ⟨1, 100⟩, .enter ⟨2, 80⟩, .unwind 1, .ret ⟨2, 80⟩] =
        some ⟨[⟨1, 100⟩], [⟨1, 100⟩], 0, [⟨2, 80⟩], [(true, false)]⟩ := by
    decide
  constructor
  · intro h
    exact absurd ((h.last hhidden).answers _ (List.mem_singleton_self _)) (by decide)
  · intro h
    exact absurd ((h.last hmistaken).answers _ (List.mem_singleton_self _)) (by decide)

/-! ## Histories without unwinding -/

namespace Thread

variable {t : Thread} {f : FunctionCallFrame}

/-- Nothing was left behind and every live function found room. -/
structure Plain (t : Thread) : Prop where
  ok : t.Ok
  left : t.left = []
  missed : t.missed = 0

theorem Plain.clear (h : t.Plain) (event : Event) : t.Clear event := by
  have hrecorded : t.recorded ++ t.left = t.live := by
    rw [recorded, h.missed, h.left, List.append_nil, List.drop_zero]
  cases event with
  | ret f =>
      constructor
      · rintro ⟨-, hpos | ⟨g, hg, -⟩⟩
        · exact absurd hpos h.missed.not_gt
        · rw [h.left] at hg
          cases hg
      · rintro ⟨hown, hlowest⟩
        rw [hrecorded, ← head?_eq_some_iff h.ok.live] at hlowest
        exact of_decide_eq_false hown hlowest
  | enter f => trivial
  | unwind count => trivial

theorem Plain.enter (h : t.Plain) (hf : t.mayEnter f = true) : (t.enter f).Plain where
  ok := h.ok.enter hf
  left := by
    show t.left.filter _ = []
    rw [h.left, List.filter_nil]
  missed := by
    have hlt : t.live.length < maxFunctionCallDepth :=
      of_decide_eq_true (Bool.and_eq_true_iff.mp hf).2
    have hroom : t.hasRoom f = true := by
      rw [hasRoom, leftBelow, recorded, h.left, h.missed]
      exact decide_eq_true hlt
    show (if t.hasRoom f then t.missed else _) = 0
    rw [hroom, if_pos rfl, h.missed]

theorem Plain.ret (h : t.Plain) (f : FunctionCallFrame) : (t.ret f).Plain :=
  ⟨h.ok.ret ((h.ok.answer_iff f).mpr (h.clear _)), h.left, h.missed⟩

/-- Without unwinding nothing is left behind, and all answers are right. -/
theorem Plain.step (h : t.Plain) (hright : t.Right) {event : Event} {u : Thread}
    (hevent : ∀ count, event ≠ .unwind count) (hstep : t.step event = some u) :
    u.Plain ∧ u.Right := by
  have hgood : t.OkWhileRight := ⟨h.ok.ordered, fun _ => h.ok⟩
  refine ⟨?_, (hgood.right_iff hright hstep).mpr (h.clear event)⟩
  obtain ⟨f, -, hf, rfl⟩ | ⟨f, -, rfl⟩ | ⟨count, hcount, -⟩ := step_cases hstep
  · exact h.enter hf
  · exact h.ret f
  · exact absurd hcount (hevent count)

end Thread

/-- Recursion and functions that are not logged do no harm: in a history without
unwinding all answers are right. -/
theorem answers_right_of_no_unwind {events : List Event}
    (hplain : ∀ event ∈ events, ∀ count, event ≠ .unwind count) :
    Always Thread.step Thread.Right .init events := by
  have hguarded : Guarded Thread.step (fun _ event => ∀ count, event ≠ .unwind count) .init
      events := Guarded.of_forall_mem _ hplain
  have halways : Always Thread.step (fun t => t.Plain ∧ t.Right) .init events :=
    hguarded.always (fun h hevent hstep => h.1.step h.2 hevent hstep) ⟨⟨.init, rfl, rfl⟩, .init⟩
  exact fun pre t hpre hrun => (halways pre t hpre hrun).2

end PinBridge.FunctionReturns
