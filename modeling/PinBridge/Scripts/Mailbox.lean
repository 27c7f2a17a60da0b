import PinBridge.Lib.Transition

/-!
# The script mailbox

The query server hands script commands to the scripting thread (`send_command`
in `scripting/mod.rs`).  A caller takes `SEND_LOCK`, empties the reply slot,
clears the ready flag, announces itself, queues the command and polls the flag
until it is set or a minute has passed.  The scripting thread receives the
commands in order and answers each one once: it stores the result in the one
slot and then sets the flag (`reply`).

Neither the slot nor the flag says which command was answered.  A caller that
gives up leaves its command in the queue, and the next caller polls for the
same flag.

One step is one access to the shared data.  Calls are numbered, and the number
of a call travels with its command and its result; no step reads it.
`replies_match` says which calls may start so that nobody gets another's
result.
-/

namespace PinBridge.Mailbox

variable {κ ρ : Type*}

/-! ## The two parties -/

/-- Where a call of `send_command` is. -/
inductive SenderPc (κ : Type*) where
  /-- Nobody holds `SEND_LOCK`. -/
  | free
  /-- The lock is held and nothing is done yet. -/
  | locked (cmd : κ)
  /-- `REPLY_SLOT` is emptied. -/
  | emptied (cmd : κ)
  /-- `REPLY_READY` is cleared. -/
  | cleared (cmd : κ)
  /-- `SEND_WAITING` is set. -/
  | announced (cmd : κ)
  /-- The command is queued. -/
  | polling
  /-- The flag was seen set. -/
  | ready
  deriving DecidableEq, Repr

/-- Where the scripting thread is. -/
inductive HostPc (κ : Type*) where
  /-- Between commands. -/
  | idle
  /-- A command is being carried out. -/
  | executing (call : Nat) (cmd : κ)
  /-- The result is stored and the flag not yet set. -/
  | stored
  deriving DecidableEq, Repr

/-- The shared data, the two parties and the log of the calls that returned
what was in the slot. -/
structure State (κ ρ : Type*) where
  /-- The mailbox. -/
  queue : List (Nat × κ)
  /-- `REPLY_SLOT`. -/
  slot : Option (Nat × ρ)
  /-- `REPLY_READY`. -/
  replyReady : Bool
  /-- `SEND_WAITING`. -/
  sendWaiting : Bool
  /-- The caller. -/
  sender : SenderPc κ
  /-- The scripting thread. -/
  host : HostPc κ
  /-- The number of the current or last call. -/
  call : Nat
  /-- Each call that got a host result, with that result and the number of the
  call it was computed for. -/
  returns : List (Nat × Nat × ρ)

/-- Nothing is queued and nobody calls. -/
def State.init : State κ ρ where
  queue := []
  slot := none
  replyReady := false
  sendWaiting := false
  sender := .free
  host := .idle
  call := 0
  returns := []

/-- The steps of the two parties. -/
inductive Action (κ ρ : Type*) where
  /-- A caller takes the lock. -/
  | begin (cmd : κ)
  /-- The caller goes on to the next access. -/
  | send
  /-- The caller polls the flag. -/
  | poll
  /-- The caller gives up. -/
  | timeout
  /-- The caller takes what is in the slot. -/
  | take
  /-- The scripting thread receives a command. -/
  | receive
  /-- The scripting thread stores a result. -/
  | store (result : ρ)
  /-- The scripting thread sets the flag. -/
  | publish

/-- A step. -/
def State.step (s : State κ ρ) : Action κ ρ → Option (State κ ρ)
  | .begin cmd =>
      match s.sender with
      | .free => some { s with sender := .locked cmd, call := s.call + 1 }
      | _ => none
  | .send =>
      match s.sender with
      | .locked cmd => some { s with slot := none, sender := .emptied cmd }
      | .emptied cmd => some { s with replyReady := false, sender := .cleared cmd }
      | .cleared cmd => some { s with sendWaiting := true, sender := .announced cmd }
      | .announced cmd => some { s with queue := s.queue ++ [(s.call, cmd)], sender := .polling }
      | _ => none
  | .poll =>
      match s.sender with
      | .polling =>
          if s.replyReady then some { s with sendWaiting := false, sender := .ready } else some s
      | _ => none
  | .timeout =>
      match s.sender with
      | .polling => some { s with sendWaiting := false, sender := .free }
      | _ => none
  | .take =>
      match s.sender with
      | .ready =>
          some { s with
            slot := none
            sender := .free
            -- an empty slot is reported as an error of its own
            returns := s.returns ++ (s.slot.map fun answer => (s.call, answer)).toList }
      | _ => none
  | .receive =>
      match s.host, s.queue with
      | .idle, (call, cmd) :: queue => some { s with queue, host := .executing call cmd }
      | _, _ => none
  | .store result =>
      match s.host with
      | .executing call _ => some { s with slot := some (call, result), host := .stored }
      | _ => none
  | .publish =>
      match s.host with
      | .stored => some { s with replyReady := true, host := .idle }
      | _ => none

/-! ## Calls and results -/

/-- Every call that got a host result got its own. -/
def State.Matched (s : State κ ρ) : Prop := ∀ r ∈ s.returns, r.2.1 = r.1

/-- No command is waiting for its result to be computed. -/
def State.Answered (s : State κ ρ) : Prop :=
  s.queue = [] ∧ ∀ call cmd, s.host ≠ .executing call cmd

/-- A call starts only when every earlier command has its result. -/
def Patient (s : State κ ρ) (a : Action κ ρ) : Prop :=
  ∀ cmd, a = .begin cmd → s.Answered

/-- The commands that have no result yet, with the number of their calls. -/
def State.outstanding (s : State κ ρ) : List Nat :=
  match s.host with
  | .executing call _ => call :: s.queue.map (·.1)
  | _ => s.queue.map (·.1)

theorem State.outstanding_eq_nil {s : State κ ρ} : s.outstanding = [] ↔ s.Answered := by
  rw [State.outstanding, State.Answered]
  cases s.host <;> simp

/-! ## What the parties hold -/

/-- The calls are numbered in the order in which they start. -/
structure State.Numbered (s : State κ ρ) : Prop where
  /-- Earlier commands, and the current one once it is queued. -/
  le : ∀ call ∈ s.outstanding, call ≤ s.call
  /-- Before it is queued only earlier ones. -/
  lt (h : s.sender ≠ .free) (hpolling : s.sender ≠ .polling) (hready : s.sender ≠ .ready) :
    ∀ call ∈ s.outstanding, call < s.call

/-- What a patient call finds: before it is queued there is no other command,
and from the moment it has emptied the slot there is no result but its own. -/
def State.Private (s : State κ ρ) : Prop :=
  match s.sender with
  | .free => True
  | .locked _ => s.Answered
  | .emptied _ | .cleared _ | .announced _ => s.Answered ∧ s.slot = none
  | .polling | .ready =>
      (∀ call ∈ s.outstanding, call = s.call) ∧ ∀ answer ∈ s.slot, answer.1 = s.call

/-- What holds all along a run whose calls are patient. -/
structure State.Ok (s : State κ ρ) : Prop where
  /-- Nobody got another's result. -/
  matched : s.Matched
  /-- Nobody will. -/
  mine : s.Private

theorem State.Ok.init : (State.init : State κ ρ).Ok := ⟨nofun, trivial⟩

theorem State.Numbered.init : (State.init : State κ ρ).Numbered := ⟨nofun, nofun⟩

theorem State.mem_outstanding {s : State κ ρ} {call : Nat} :
    call ∈ s.outstanding ↔
      (∃ cmd, s.host = .executing call cmd) ∨ ∃ cmd, (call, cmd) ∈ s.queue := by
  rw [State.outstanding]
  cases s.host with
  | executing c cmd => simp [eq_comm]
  | idle => simp
  | stored => simp

/-- What a step of the scripting thread may do. -/
structure HostStep (s t : State κ ρ) : Prop where
  /-- The caller stays where it is. -/
  sender : t.sender = s.sender
  /-- The call is the same. -/
  call : t.call = s.call
  /-- Nobody returns. -/
  returns : t.returns = s.returns
  /-- No command is added. -/
  outstanding : ∀ call ∈ t.outstanding, call ∈ s.outstanding
  /-- A result is that of an outstanding command. -/
  slot : ∀ answer ∈ t.slot, answer ∈ s.slot ∨ answer.1 ∈ s.outstanding

theorem State.receive_cases {s t : State κ ρ} (hstep : s.step .receive = some t) :
    HostStep s t := by
  simp only [State.step] at hstep
  split at hstep
  next call cmd queue hhost hqueue =>
    cases hstep
    refine ⟨rfl, rfl, rfl, fun c hc => ?_, fun _ h => .inl h⟩
    rw [State.outstanding, hhost, hqueue]
    exact hc
  next => exact nomatch hstep

theorem State.store_cases {s t : State κ ρ} {result : ρ} (hstep : s.step (.store result) = some t) :
    HostStep s t := by
  simp only [State.step] at hstep
  split at hstep
  next call cmd hhost =>
    cases hstep
    have hhead : s.outstanding = call :: s.queue.map (·.1) := by rw [State.outstanding, hhost]
    refine ⟨rfl, rfl, rfl, fun c hc => ?_, fun answer h => .inr ?_⟩
    · rw [hhead]
      exact List.mem_cons_of_mem _ hc
    · cases h
      simp [hhead]
  next => exact nomatch hstep

theorem State.publish_cases {s t : State κ ρ} (hstep : s.step .publish = some t) :
    HostStep s t := by
  simp only [State.step] at hstep
  split at hstep
  next hhost =>
    cases hstep
    refine ⟨rfl, rfl, rfl, fun c hc => ?_, fun _ h => .inl h⟩
    rw [State.outstanding, hhost]
    exact hc
  next => exact nomatch hstep

theorem State.Numbered.host {s t : State κ ρ} (h : s.Numbered) (hst : HostStep s t) :
    t.Numbered where
  le c hc := by
    rw [hst.call]
    exact h.le c (hst.outstanding c hc)
  lt h1 h2 h3 c hc := by
    rw [hst.sender] at h1 h2 h3
    rw [hst.call]
    exact h.lt h1 h2 h3 c (hst.outstanding c hc)

/-- Every step keeps the numbers in order. -/
theorem State.Numbered.step {s t : State κ ρ} (h : s.Numbered) {a : Action κ ρ}
    (hstep : s.step a = some t) : t.Numbered := by
  obtain ⟨hle, hlt⟩ := h
  cases a with
  | begin cmd =>
      simp only [State.step] at hstep
      split at hstep
      next hsender =>
        cases hstep
        refine ⟨fun call hcall => ?_, fun _ _ _ call hcall => ?_⟩
        · have := hle call hcall
          show call ≤ s.call + 1
          omega
        · have := hle call hcall
          show call < s.call + 1
          omega
      next => exact nomatch hstep
  | send =>
      simp only [State.step] at hstep
      split at hstep
      next cmd hsender =>
        cases hstep
        exact ⟨hle, fun _ _ _ => hlt (by simp [hsender]) (by simp [hsender]) (by simp [hsender])⟩
      next cmd hsender =>
        cases hstep
        exact ⟨hle, fun _ _ _ => hlt (by simp [hsender]) (by simp [hsender]) (by simp [hsender])⟩
      next cmd hsender =>
        cases hstep
        exact ⟨hle, fun _ _ _ => hlt (by simp [hsender]) (by simp [hsender]) (by simp [hsender])⟩
      next cmd hsender =>
        cases hstep
        refine ⟨fun call hcall => ?_, fun _ hpolling => absurd rfl hpolling⟩
        rcases State.mem_outstanding.mp hcall with hexec | ⟨cmd', hmem⟩
        · exact hle call (State.mem_outstanding.mpr (.inl hexec))
        · rcases List.mem_append.mp hmem with hmem | hmem
          · exact hle call (State.mem_outstanding.mpr (.inr ⟨cmd', hmem⟩))
          · cases List.mem_singleton.mp hmem
            exact Nat.le_refl s.call
      next => exact nomatch hstep
  | poll =>
      simp only [State.step] at hstep
      split at hstep
      next hsender =>
        split at hstep <;> cases hstep
        · exact ⟨hle, fun _ _ hready => absurd rfl hready⟩
        · exact ⟨hle, hlt⟩
      next => exact nomatch hstep
  | timeout =>
      simp only [State.step] at hstep
      split at hstep
      next hsender =>
        cases hstep
        exact ⟨hle, fun hfree => absurd rfl hfree⟩
      next => exact nomatch hstep
  | take =>
      simp only [State.step] at hstep
      split at hstep
      next hsender =>
        cases hstep
        exact ⟨hle, fun hfree => absurd rfl hfree⟩
      next => exact nomatch hstep
  | receive => exact State.Numbered.host ⟨hle, hlt⟩ (State.receive_cases hstep)
  | store result => exact State.Numbered.host ⟨hle, hlt⟩ (State.store_cases hstep)
  | publish => exact State.Numbered.host ⟨hle, hlt⟩ (State.publish_cases hstep)

theorem State.Ok.host {s t : State κ ρ} (h : s.Ok) (hst : HostStep s t) : t.Ok := by
  obtain ⟨hmatched, hmine⟩ := h
  have hanswered (hs : s.Answered) : t.Answered := by
    rw [← State.outstanding_eq_nil] at hs ⊢
    refine List.eq_nil_iff_forall_not_mem.mpr fun c hc => ?_
    exact nomatch hs ▸ hst.outstanding c hc
  have hempty (hs : s.Answered) (hslot : s.slot = none) : t.slot = none := by
    rw [← State.outstanding_eq_nil] at hs
    cases hslot' : t.slot with
    | none => rfl
    | some answer =>
        rcases hst.slot answer hslot' with h | h
        · exact nomatch hslot ▸ h
        · exact nomatch hs ▸ h
  refine ⟨by rw [State.Matched, hst.returns]; exact hmatched, ?_⟩
  rw [State.Private] at hmine ⊢
  rw [hst.sender, hst.call]
  cases hsender : s.sender with
  | free => trivial
  | locked cmd =>
      rw [hsender] at hmine
      exact hanswered hmine
  | emptied cmd | cleared cmd | announced cmd =>
      rw [hsender] at hmine
      exact ⟨hanswered hmine.1, hempty hmine.1 hmine.2⟩
  | polling | ready =>
      rw [hsender] at hmine
      refine ⟨fun c hc => hmine.1 c (hst.outstanding c hc), fun answer h => ?_⟩
      rcases hst.slot answer h with h | h
      · exact hmine.2 answer h
      · exact hmine.1 _ h

/-- Every step of a run of patient calls keeps it so. -/
theorem State.Ok.step {s t : State κ ρ} (h : s.Ok) {a : Action κ ρ} (hpatient : Patient s a)
    (hstep : s.step a = some t) : t.Ok := by
  have ⟨hmatched, hmine⟩ := h
  cases a with
  | begin cmd =>
      simp only [State.step] at hstep
      split at hstep
      next hsender =>
        cases hstep
        exact ⟨hmatched, hpatient cmd rfl⟩
      next => exact nomatch hstep
  | send =>
      simp only [State.step] at hstep
      split at hstep
      next cmd hsender =>
        cases hstep
        rw [State.Private, hsender] at hmine
        exact ⟨hmatched, hmine, rfl⟩
      next cmd hsender =>
        cases hstep
        rw [State.Private, hsender] at hmine
        exact ⟨hmatched, hmine⟩
      next cmd hsender =>
        cases hstep
        rw [State.Private, hsender] at hmine
        exact ⟨hmatched, hmine⟩
      next cmd hsender =>
        cases hstep
        rw [State.Private, hsender] at hmine
        obtain ⟨⟨hqueue, hidle⟩, hslot⟩ := hmine
        refine ⟨hmatched, fun call hcall => ?_, by simp [hslot]⟩
        rcases State.mem_outstanding.mp hcall with ⟨cmd', hexec⟩ | ⟨cmd', hmem⟩
        · exact absurd hexec (hidle call cmd')
        · simp only [hqueue, List.nil_append, List.mem_singleton, Prod.mk.injEq] at hmem
          exact hmem.1
      next => exact nomatch hstep
  | poll =>
      simp only [State.step] at hstep
      split at hstep
      next hsender =>
        rw [State.Private, hsender] at hmine
        split at hstep <;> cases hstep
        · exact ⟨hmatched, hmine⟩
        · exact h
      next => exact nomatch hstep
  | timeout =>
      simp only [State.step] at hstep
      split at hstep
      next hsender =>
        cases hstep
        exact ⟨hmatched, trivial⟩
      next => exact nomatch hstep
  | take =>
      simp only [State.step] at hstep
      split at hstep
      next hsender =>
        cases hstep
        rw [State.Private, hsender] at hmine
        refine ⟨fun r hr => ?_, trivial⟩
        rcases List.mem_append.mp hr with hr | hr
        · exact hmatched r hr
        · obtain ⟨answer, hanswer, rfl⟩ := Option.map_eq_some_iff.mp (Option.mem_toList.mp hr)
          exact hmine.2 answer hanswer
      next => exact nomatch hstep
  | receive => exact h.host (State.receive_cases hstep)
  | store result => exact h.host (State.store_cases hstep)
  | publish => exact h.host (State.publish_cases hstep)

/-! ## Which calls may start -/

open Transition

/-- Without a new call every step is patient. -/
theorem guarded_of_no_begin {as : List (Action κ ρ)} (h : ∀ a ∈ as, ∀ cmd, a ≠ .begin cmd)
    (s : State κ ρ) : Guarded State.step Patient s as := by
  induction as generalizing s with
  | nil => trivial
  | cons a as ih =>
      refine ⟨fun cmd ha => absurd ha (h a (by simp) cmd), fun t _ => ?_⟩
      exact ih (fun b hb => h b (by simp [hb])) t

/-- The caller's four accesses before it polls. -/
def enqueue : List (Action κ ρ) := [.send, .send, .send, .send]

theorem run_enqueue {s : State κ ρ} {cmd : κ} (h : s.sender = .locked cmd) :
    run State.step s enqueue = some { s with
      slot := none, replyReady := false, sendWaiting := true
      queue := s.queue ++ [(s.call, cmd)], sender := .polling } := by
  simp [enqueue, run_cons, State.step, h]

/-- A result that is stored while a caller polls goes to that caller. -/
theorem run_answer {s : State κ ρ} {call : Nat} {cmd : κ} (hsender : s.sender = .polling)
    (hhost : s.host = .executing call cmd) (result : ρ) :
    ∃ t, run State.step s [.store result, .publish, .poll, .take] = some t ∧
      t.returns = s.returns ++ [(s.call, call, result)] := by
  simp [run_cons, State.step, hsender, hhost]

/-- The scripting thread gets to an outstanding command. -/
theorem exists_executing {s : State κ ρ} (hnot : ¬ s.Answered) :
    ∃ as t, (∀ a ∈ as, ∀ c : κ, a ≠ .begin c) ∧ run State.step s as = some t ∧
      t.sender = s.sender ∧ t.call = s.call ∧
      ∃ call ∈ s.outstanding, ∃ cmd, t.host = .executing call cmd := by
  cases hhost : s.host with
  | executing call cmd =>
      exact ⟨[], s, nofun, rfl, rfl, rfl, call, by simp [State.outstanding, hhost], cmd, hhost⟩
  | idle =>
      cases hqueue : s.queue with
      | nil => exact absurd ⟨hqueue, by simp [hhost]⟩ hnot
      | cons entry queue =>
          obtain ⟨call, cmd⟩ := entry
          refine ⟨[.receive], { s with queue, host := .executing call cmd }, by simp, ?_, rfl, rfl,
            call, by simp [State.outstanding, hhost, hqueue], cmd, rfl⟩
          simp [run_cons, State.step, hhost, hqueue]
  | stored =>
      cases hqueue : s.queue with
      | nil => exact absurd ⟨hqueue, by simp [hhost]⟩ hnot
      | cons entry queue =>
          obtain ⟨call, cmd⟩ := entry
          refine ⟨[.publish, .receive],
            { s with replyReady := true, queue, host := .executing call cmd }, by simp, ?_, rfl,
            rfl, call, by simp [State.outstanding, hhost, hqueue], cmd, rfl⟩
          simp [run_cons, State.step, hhost, hqueue]

/-- A call that starts while a command is outstanding can get its result. -/
theorem exists_mismatch {s : State κ ρ} (hs : s.Numbered) (hfree : s.sender = .free)
    (hnot : ¬ s.Answered) (cmd : κ) (result : ρ) :
    ∃ as t, (∀ a ∈ as, ∀ c : κ, a ≠ .begin c) ∧
      run State.step s (.begin cmd :: as) = some t ∧ ¬ t.Matched := by
  have hbegin : s.step (.begin cmd) =
      some { s with sender := .locked cmd, call := s.call + 1 } := by
    simp [State.step, hfree]
  obtain ⟨as, u, has, hu, hsender, hcall, call, hout, cmd', hhost⟩ :=
    exists_executing (s := { s with sender := .locked cmd, call := s.call + 1 }) hnot
  have hle : call ≤ s.call := hs.le call hout
  obtain ⟨t, ht, hreturns⟩ := run_answer (s := { u with
      slot := none, replyReady := false, sendWaiting := true
      queue := u.queue ++ [(u.call, cmd)], sender := .polling }) rfl hhost result
  refine ⟨as ++ (enqueue ++ [.store result, .publish, .poll, .take]), t, ?_, ?_, fun hmatched => ?_⟩
  · intro a ha c
    rcases List.mem_append.mp ha with ha | ha
    · exact has a ha c
    · simp only [enqueue, List.cons_append, List.nil_append, List.mem_cons, List.not_mem_nil,
        or_false] at ha
      rcases ha with rfl | rfl | rfl | rfl | rfl | rfl | rfl | rfl <;> exact nofun
  · refine run_cons_eq_some.mpr ⟨_, hbegin, ?_⟩
    rw [run_append, hu, Option.bind_some, run_append, run_enqueue hsender, Option.bind_some, ht]
  · have := hmatched (u.call, call, result) (by rw [hreturns]; simp)
    have hcall : u.call = s.call + 1 := hcall
    simp only at this
    omega

/-- In a run of patient calls every host result goes to its own call.  And a
call that starts next is sure to get no other's result if and only if every
earlier command has its result. -/
theorem replies_match {as : List (Action κ ρ)} {s : State κ ρ}
    (hrun : run State.step .init as = some s) (hpatient : Guarded State.step Patient .init as)
    (result : ρ) :
    s.Matched ∧ ∀ cmd, s.sender = .free →
      ((∀ bs t, (∀ b ∈ bs, ∀ c, b ≠ .begin c) →
          run State.step s (.begin cmd :: bs) = some t → t.Matched) ↔ s.Answered) := by
  have hok : s.Ok := hpatient.invariant (fun h hC hstep => h.step hC hstep) .init hrun
  have hnumbered : s.Numbered := run_invariant (fun h hstep => h.step hstep) .init hrun
  refine ⟨hok.matched, fun cmd hfree => ⟨fun hall => ?_, fun hanswered bs t hbs ht => ?_⟩⟩
  · by_contra hnot
    obtain ⟨bs, t, hbs, ht, hmismatch⟩ := exists_mismatch hnumbered hfree hnot cmd result
    exact hmismatch (hall bs t hbs ht)
  · have hguarded : Guarded State.step Patient s (.begin cmd :: bs) :=
      ⟨fun _ _ => hanswered, fun u _ => guarded_of_no_begin hbs u⟩
    exact (hguarded.invariant (fun h hC hstep => h.step hC hstep) hok ht).matched

/-- One command that is answered in time, and then any other. -/
theorem replies_match_in_turn :
    ∃ t, run State.step (State.init : State Nat Nat)
        (.begin 1 :: (enqueue ++ [.receive, .store 10, .publish, .poll, .take])) = some t ∧
      t.returns = [(1, 1, 10)] ∧ t.Matched ∧
      ∀ bs u, (∀ b ∈ bs, ∀ c, b ≠ .begin c) →
        run State.step t (.begin 2 :: bs) = some u → u.Matched := by
  have hrun : run State.step (State.init : State Nat Nat)
      (.begin 1 :: (enqueue ++ [.receive, .store 10, .publish, .poll, .take])) =
        some ⟨[], none, true, false, .free, .idle, 1, [(1, 1, 10)]⟩ := rfl
  obtain ⟨hmatched, hnext⟩ := replies_match hrun
    ⟨fun _ _ => ⟨rfl, nofun⟩, fun t _ => guarded_of_no_begin (by simp [enqueue]) t⟩ 0
  exact ⟨_, hrun, rfl, hmatched, (hnext 2 rfl).mpr ⟨rfl, nofun⟩⟩

/-- A call that gives up leaves its command behind, and the next call returns
its result. -/
theorem late_reply_returned :
    ∃ t, run State.step (State.init : State Nat Nat)
        (.begin 1 :: (enqueue ++ [.receive, .timeout, .begin 2] ++ enqueue ++
          [.store 10, .publish, .poll, .take])) = some t ∧
      t.returns = [(2, 1, 10)] ∧ ¬ t.Matched :=
  ⟨⟨[(2, 2)], none, true, false, .free, .idle, 2, [(2, 1, 10)]⟩, rfl, rfl,
    fun h => absurd (h (2, 1, 10) (by simp)) (by decide)⟩

end PinBridge.Mailbox
