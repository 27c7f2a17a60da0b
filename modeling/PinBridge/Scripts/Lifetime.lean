import PinBridge.Lib.Transition

/-!
# Loading and unloading plugins

`cmd_load` only compiles.  The code waits in a pending list, one entry for each
name, until a tick of the scripting thread finds the startup gate open
(`exec_pending`).  Then its top level and `pb_init` run.  When they succeed the
plugin takes its place in the registry, after the one that had the name before
has run its `on_unload`.  When they fail the one before stays.  `cmd_unload`
retires plugins of the registry and does not look at the pending list.

Loads are numbered, and the `history` records what was answered, what was
executed and which loads took their place.  `executed_of_last_load` says, for
each name, in which runs every execution is of the last load's code or of the
plugin that this load is to replace.
-/

namespace PinBridge.Plugins

/-! ## Histories -/

/-- What happens, in order.  The name of an unload is empty for all plugins. -/
inductive Event where
  /-- A `Load` was answered, and the source did compile. -/
  | loaded (name : String) (load : Nat)
  /-- An `Unload` was answered. -/
  | unloaded (name : String)
  /-- Top level, `pb_init` or a callback of a plugin ran. -/
  | executed (name : String) (load : Nat)
  /-- A loaded plugin took its place. -/
  | installed (name : String) (load : Nat)
  deriving DecidableEq, Repr

/-- Whether an unload is meant for a name. -/
def affects (unloaded name : String) : Bool := unloaded = "" || unloaded = name

/-- The last answered command for a name: `some (some n)` for load `n`,
`some none` for an unload. -/
def lastAnswered (name : String) : List Event → Option (Option Nat) :=
  List.foldl (fun last event =>
    match event with
    | .loaded m n => if m = name then some (some n) else last
    | .unloaded u => if affects u name then some none else last
    | _ => last) none

/-- The load whose plugin has the name, as far as the history tells. -/
def standing (name : String) : List Event → Option Nat :=
  List.foldl (fun current event =>
    match event with
    | .installed m n => if m = name then some n else current
    | .unloaded u => if affects u name then none else current
    | _ => current) none

/-! ## The scripting thread -/

/-- A plugin of the registry. -/
structure Plugin where
  /-- The name. -/
  name : String
  /-- The load it comes from. -/
  load : Nat
  /-- Whether it is `STATE_RUNNING`, not `STATE_ERROR`. -/
  running : Bool
  /-- Whether its callbacks were taken up, which is after `pb_init`. -/
  installed : Bool
  /-- Whether it has an `on_unload`. -/
  onUnload : Bool
  deriving DecidableEq, Repr

/-- The scripting thread's data. -/
structure State where
  /-- Compiled code, at most one entry for a name. -/
  pending : List (String × Nat)
  /-- The plugins. -/
  registry : List Plugin
  /-- How many sources were compiled. -/
  loads : Nat
  /-- What happened. -/
  history : List Event
  deriving DecidableEq, Repr

/-- Nothing is loaded. -/
def State.init : State := ⟨[], [], 0, []⟩

/-- Record an event. -/
def State.record (s : State) (event : Event) : State := { s with history := s.history ++ [event] }

/-- The plugin of a name. -/
def State.find (s : State) (name : String) : Option Plugin := s.registry.find? (·.name = name)

/-- A registry without a name. -/
def without (registry : List Plugin) (name : String) : List Plugin :=
  registry.filter (·.name ≠ name)

/-- Compile a source.  A newer one replaces the one that waits. -/
def State.cmdLoad (s : State) (name : String) (compiles : Bool) : State :=
  if compiles then
    let n := s.loads + 1
    State.record { s with
      pending := s.pending.filter (·.1 ≠ name) ++ [(name, n)]
      loads := n } (.loaded name n)
  else s

/-- Run `on_unload` and drop the plugin. -/
def State.retirePlugin (s : State) (name : String) : State :=
  let t := match s.find name with
    | some p => if p.installed && p.onUnload then s.record (.executed name p.load) else s
    | none => s
  { t with registry := without t.registry name }

/-- Retire one plugin, or all of them. -/
def State.cmdUnload (s : State) (name : String) : State :=
  let names := if name = "" then s.registry.map (·.name) else [name]
  (names.foldl State.retirePlugin s).record (.unloaded name)

/-- Run a compiled plugin.  `succeeds` tells whether its top level, its
`pb_init` and the publication of its policies succeed, `onUnload` whether it
has an `on_unload`. -/
def State.execOne (s : State) (name : String) (load : Nat) (succeeds onUnload : Bool) : State :=
  let t := s.record (.executed name load)
  if succeeds then
    let u := t.retirePlugin name
    State.record { u with
      registry := u.registry ++ [⟨name, load, true, true, onUnload⟩] } (.installed name load)
  else match t.find name with
    | some _ => t
    | none => { t with registry := t.registry ++ [⟨name, load, false, false, false⟩] }

/-- Run everything that waits. -/
def State.execPending (s : State) (succeeds onUnload : Nat → Bool) : State :=
  s.pending.foldl (fun s entry => s.execOne entry.1 entry.2 (succeeds entry.2) (onUnload entry.2))
    { s with pending := [] }

/-- Run a callback of a plugin, if the plugin runs.  A callback that fails puts
the plugin in error. -/
def State.callback (s : State) (name : String) (fails : Bool) : State :=
  match s.find name with
  | some p =>
      if p.running then
        let t := s.record (.executed name p.load)
        if fails then
          { t with registry := without t.registry name ++ [{ p with running := false }] }
        else t
      else s
  | none => s

/-- What the scripting thread does. -/
inductive Action where
  /-- `ScriptCmd::Load`, and whether the source compiles. -/
  | load (name : String) (compiles : Bool)
  /-- `ScriptCmd::Unload`. -/
  | unload (name : String)
  /-- A tick: whether a command waits, whether the startup gate is open, which
  loads succeed and have an `on_unload`, and which callbacks run and fail.  The
  gate stays open once it is, and here it may be open or closed at any tick. -/
  | tick (sendWaiting gateOpen : Bool) (succeeds onUnload : Nat → Bool)
      (callbacks : List (String × Bool))

/-- One command or tick. -/
def State.step (s : State) : Action → State
  | .load name compiles => s.cmdLoad name compiles
  | .unload name => s.cmdUnload name
  | .tick sendWaiting gateOpen succeeds onUnload callbacks =>
      if sendWaiting then s
      else
        let t := if gateOpen then s.execPending succeeds onUnload else s
        callbacks.foldl (fun t c => t.callback c.1 c.2) t

/-! ## What is claimed of an execution -/

/-- The last answered command for the name is a load, and the executed code is
that load's or, as long as that load's plugin has not taken its place, the code
of the plugin that has the name. -/
def OfLastLoad (history : List Event) (name : String) (load : Nat) : Prop :=
  ∃ n, lastAnswered name history = some (some n) ∧
    (load = n ∨ (standing name history = some load ∧ .installed name n ∉ history))

/-- Every execution of the name is `OfLastLoad` when it happens. -/
def Orderly (name : String) (history : List Event) : Prop :=
  ∀ pre load, pre ++ [.executed name load] <+: history → OfLastLoad pre name load

/-- A tick that runs what waits finds no code of the name that waits since
before the last answered unload of it. -/
def NotOvertaken (name : String) (s : State) : Action → Prop
  | .tick false true _ _ _ =>
      ∀ entry ∈ s.pending, entry.1 = name → lastAnswered name s.history ≠ some none
  | _ => True

instance (name : String) (s : State) (a : Action) : Decidable (NotOvertaken name s a) := by
  unfold NotOvertaken
  split <;> infer_instance

/-! ## Histories one event longer -/

/-- Whether an event is about a name. -/
def Event.concerns (name : String) : Event → Bool
  | .loaded m _ => m = name
  | .unloaded u => affects u name
  | .executed m _ => m = name
  | .installed m _ => m = name

theorem lastAnswered_concat (name : String) (history : List Event) (event : Event) :
    lastAnswered name (history ++ [event]) =
      match event with
      | .loaded m n => if m = name then some (some n) else lastAnswered name history
      | .unloaded u => if affects u name then some none else lastAnswered name history
      | _ => lastAnswered name history := by
  simp only [lastAnswered, List.foldl_append, List.foldl_cons, List.foldl_nil]

theorem standing_concat (name : String) (history : List Event) (event : Event) :
    standing name (history ++ [event]) =
      match event with
      | .installed m n => if m = name then some n else standing name history
      | .unloaded u => if affects u name then none else standing name history
      | _ => standing name history := by
  simp only [standing, List.foldl_append, List.foldl_cons, List.foldl_nil]

theorem lastAnswered_of_not_concerns {name : String} {event : Event}
    (h : event.concerns name = false) (history : List Event) :
    lastAnswered name (history ++ [event]) = lastAnswered name history := by
  rw [lastAnswered_concat]
  cases event <;> simp_all [Event.concerns]

theorem standing_of_not_concerns {name : String} {event : Event}
    (h : event.concerns name = false) (history : List Event) :
    standing name (history ++ [event]) = standing name history := by
  rw [standing_concat]
  cases event <;> simp_all [Event.concerns]

theorem Orderly.of_prefix {name : String} {history longer : List Event} (h : Orderly name longer)
    (hsub : history <+: longer) : Orderly name history :=
  fun pre load hpre => h pre load (hpre.trans hsub)

theorem Orderly.concat {name : String} {history : List Event} {event : Event}
    (h : Orderly name history)
    (hevent : ∀ load, event = .executed name load → OfLastLoad history name load) :
    Orderly name (history ++ [event]) := by
  intro pre load hpre
  rcases List.prefix_concat_iff.mp hpre with heq | hpre
  · obtain ⟨rfl, hlast⟩ := List.append_inj' heq rfl
    exact hevent load (List.singleton_inj.mp hlast).symm
  · exact h pre load hpre

/-! ## What every run keeps -/

/-- A plugin stands for the last load of its name. -/
structure Plugin.Stands (p : Plugin) (history : List Event) : Prop where
  /-- It has the name. -/
  standing : standing p.name history = some p.load
  /-- A later load has not taken its place. -/
  last : ∃ n, lastAnswered p.name history = some (some n) ∧
    (p.load = n ∨ .installed p.name n ∉ history)

theorem Plugin.Stands.ofLastLoad {p : Plugin} {history : List Event} (h : p.Stands history) :
    OfLastLoad history p.name p.load := by
  obtain ⟨n, hn, hor⟩ := h.last
  exact ⟨n, hn, hor.imp id fun hnot => ⟨h.standing, hnot⟩⟩

/-- The invariant of runs in which no code of the name is overtaken. -/
structure State.Ok (name : String) (s : State) : Prop where
  /-- So far every execution was that of its last load. -/
  orderly : Orderly name s.history
  /-- What waits is the last load of its name, unless an unload came after. -/
  pending {load : Nat} (h : (name, load) ∈ s.pending) :
    lastAnswered name s.history = some none ∨ lastAnswered name s.history = some (some load)
  /-- A plugin with callbacks stands for the last load of its name. -/
  registry {p : Plugin} (h : p ∈ s.registry) (hname : p.name = name)
    (hinstalled : p.installed = true) : p.Stands s.history
  /-- Only such plugins run. -/
  running {p : Plugin} (h : p ∈ s.registry) (hrunning : p.running = true) : p.installed = true
  /-- Loads that took their place were counted. -/
  bound {n : Nat} (h : .installed name n ∈ s.history) : n ≤ s.loads
  /-- So were those that wait. -/
  pending_bound {load : Nat} (h : (name, load) ∈ s.pending) : load ≤ s.loads

theorem State.Ok.init (name : String) : State.init.Ok name where
  orderly _ _ h := absurd (List.prefix_nil.mp h) (by simp)
  pending h := nomatch h
  registry h := nomatch h
  running h := nomatch h
  bound h := nomatch h
  pending_bound h := nomatch h

section

variable {name : String} {s : State}

theorem Plugin.Stands.concat {p : Plugin} {history : List Event} (h : p.Stands history)
    {event : Event} (hevent : ∀ load, event ≠ .installed p.name load)
    (hlast : lastAnswered p.name (history ++ [event]) = lastAnswered p.name history)
    (hstanding : Plugins.standing p.name (history ++ [event]) =
      Plugins.standing p.name history) : p.Stands (history ++ [event]) := by
  obtain ⟨n, hn, hor⟩ := h.last
  refine ⟨hstanding.trans h.standing, n, hlast.trans hn, hor.imp id fun hnot hmem => ?_⟩
  rcases List.mem_append.mp hmem with hmem | hmem
  · exact hnot hmem
  · exact hevent n (List.mem_singleton.mp hmem).symm

/-- What is about another name keeps the invariant. -/
theorem State.Ok.record (h : s.Ok name) {event : Event} (hevent : event.concerns name = false) :
    (s.record event).Ok name := by
  have hlast := lastAnswered_of_not_concerns hevent s.history
  have hinstalled (load : Nat) : event ≠ .installed name load := by
    rintro rfl
    simp [Event.concerns] at hevent
  refine ⟨h.orderly.concat ?_, fun hentry => ?_, fun hp hname hinst => ?_, h.running,
    fun hmem => ?_, h.pending_bound⟩
  · rintro load rfl
    simp [Event.concerns] at hevent
  · rw [State.record, hlast]
    exact h.pending hentry
  · subst hname
    exact (h.registry hp rfl hinst).concat hinstalled hlast
      (standing_of_not_concerns hevent s.history)
  · rcases List.mem_append.mp hmem with hmem | hmem
    · exact h.bound hmem
    · exact absurd (List.mem_singleton.mp hmem).symm (hinstalled _)

/-- Executing the last load of a name keeps the invariant. -/
theorem State.Ok.executed (h : s.Ok name) {m : String} {load : Nat}
    (hlast : m = name → OfLastLoad s.history name load) :
    (s.record (.executed m load)).Ok name where
  orderly := h.orderly.concat fun n heq => by
    cases heq
    exact hlast rfl
  pending hentry := by
    rw [State.record, lastAnswered_concat]
    exact h.pending hentry
  registry hp hname hinstalled :=
    (h.registry hp hname hinstalled).concat nofun (lastAnswered_concat _ _ _)
      (standing_concat _ _ _)
  running := h.running
  bound hmem := by
    rcases List.mem_append.mp hmem with hmem | hmem
    · exact h.bound hmem
    · simp at hmem
  pending_bound := h.pending_bound

/-- Dropping plugins keeps the invariant. -/
theorem State.Ok.mono (h : s.Ok name) {registry : List Plugin}
    (hsub : ∀ p ∈ registry, p ∈ s.registry) : State.Ok name { s with registry } :=
  { h with
    registry := fun hp => h.registry (hsub _ hp)
    running := fun hp => h.running (hsub _ hp) }

end

theorem State.find_eq_some {s : State} {name : String} {p : Plugin} (h : s.find name = some p) :
    p ∈ s.registry ∧ p.name = name :=
  ⟨List.mem_of_find?_eq_some h, by simpa using List.find?_some h⟩

theorem mem_without {registry : List Plugin} {name : String} {p : Plugin} :
    p ∈ without registry name ↔ p ∈ registry ∧ p.name ≠ name := by
  simp [without]

/-- Retiring a plugin drops its name, and at most its `on_unload` runs. -/
theorem State.retirePlugin_cases (s : State) (name : String) :
    s.retirePlugin name = { s with registry := without s.registry name } ∨
      ∃ p ∈ s.registry, p.name = name ∧ p.installed = true ∧
        s.retirePlugin name =
          { s.record (.executed name p.load) with registry := without s.registry name } := by
  rw [State.retirePlugin]
  cases hfind : s.find name with
  | none => exact .inl rfl
  | some p =>
      dsimp only
      split
      next hcallback =>
        obtain ⟨hp, hname⟩ := State.find_eq_some hfind
        exact .inr ⟨p, hp, hname, (Bool.and_eq_true_iff.mp hcallback).1, rfl⟩
      next => exact .inl rfl

theorem State.retirePlugin_frame (s : State) (name : String) :
    (s.retirePlugin name).pending = s.pending ∧ (s.retirePlugin name).loads = s.loads ∧
      (s.retirePlugin name).registry = without s.registry name ∧
      s.history <+: (s.retirePlugin name).history ∧
      ∀ m, lastAnswered m (s.retirePlugin name).history = lastAnswered m s.history := by
  rcases s.retirePlugin_cases name with heq | ⟨p, -, -, -, heq⟩ <;> rw [heq]
  · exact ⟨rfl, rfl, rfl, List.prefix_refl _, fun _ => rfl⟩
  · exact ⟨rfl, rfl, rfl, List.prefix_append _ _, fun m => lastAnswered_concat m _ _⟩

section

variable {name : String} {s : State}

theorem State.Ok.retirePlugin (h : s.Ok name) (m : String) : (s.retirePlugin m).Ok name := by
  rcases s.retirePlugin_cases m with heq | ⟨p, hp, hname, hinstalled, heq⟩ <;> rw [heq]
  · exact h.mono fun p hp => (mem_without.mp hp).1
  · refine (h.executed fun hm => ?_).mono fun p hp => (mem_without.mp hp).1
    have hpname := hname.trans hm
    exact hpname ▸ (h.registry hp hpname hinstalled).ofLastLoad

/-- The names of a list are retired one after the other. -/
theorem State.Ok.retireAll (h : s.Ok name) (names : List String) :
    (names.foldl State.retirePlugin s).Ok name ∧
      (names.foldl State.retirePlugin s).pending = s.pending ∧
      s.history <+: (names.foldl State.retirePlugin s).history ∧
      ∀ p ∈ (names.foldl State.retirePlugin s).registry, p ∈ s.registry ∧ p.name ∉ names := by
  induction names generalizing s with
  | nil => exact ⟨h, rfl, List.prefix_refl _, fun p hp => ⟨hp, by simp⟩⟩
  | cons m names ih =>
      obtain ⟨hpending, -, hregistry, hsub, -⟩ := s.retirePlugin_frame m
      obtain ⟨hok, hpending', hsub', hleft⟩ := ih (h.retirePlugin m)
      refine ⟨hok, hpending'.trans hpending, hsub.trans hsub', fun p hp => ?_⟩
      obtain ⟨hp, hnames⟩ := hleft p hp
      rw [hregistry] at hp
      obtain ⟨hp, hne⟩ := mem_without.mp hp
      exact ⟨hp, by simp [hne, hnames]⟩

theorem State.Ok.cmdUnload (h : s.Ok name) (u : String) : (s.cmdUnload u).Ok name := by
  obtain ⟨hok, -, -, hleft⟩ := h.retireAll (if u = "" then s.registry.map (·.name) else [u])
  rw [State.cmdUnload]
  rcases hu : affects u name with _ | _
  · exact hok.record hu
  refine ⟨hok.orderly.concat nofun, fun _ => .inl ?_, fun {p} hp hname _ => ?_, hok.running,
    fun hmem => ?_, hok.pending_bound⟩
  · rw [State.record, lastAnswered_concat]
    exact if_pos hu
  · -- every plugin the unload is meant for was retired
    obtain ⟨hp, hnot⟩ := hleft p hp
    split at hnot
    next => exact absurd (List.mem_map.mpr ⟨p, hp, rfl⟩) hnot
    next hne => simp_all [affects]
  · rcases List.mem_append.mp hmem with hmem | hmem
    · exact hok.bound hmem
    · simp at hmem

theorem State.Ok.cmdLoad (h : s.Ok name) (m : String) (compiles : Bool) :
    (s.cmdLoad m compiles).Ok name := by
  rw [State.cmdLoad]
  split
  next =>
    rcases eq_or_ne m name with rfl | hne
    · have hlast : lastAnswered m (s.history ++ [.loaded m (s.loads + 1)]) =
          some (some (s.loads + 1)) := by
        rw [lastAnswered_concat]
        exact if_pos rfl
      have hpending {load : Nat}
          (hentry : (m, load) ∈ s.pending.filter (·.1 ≠ m) ++ [(m, s.loads + 1)]) :
          load = s.loads + 1 := by simpa using hentry
      refine ⟨h.orderly.concat nofun, fun hentry => .inr ?_, fun {p} hp hname hinstalled => ?_,
        h.running, fun hmem => ?_, fun hentry => (hpending hentry).le⟩
      · rw [hpending hentry]
        exact hlast
      · -- the new load did not exist before
        subst hname
        refine ⟨(standing_concat _ _ _).trans (h.registry hp rfl hinstalled).standing,
          s.loads + 1, hlast, .inr fun hmem => ?_⟩
        rcases List.mem_append.mp hmem with hmem | hmem
        · exact absurd (h.bound hmem) (by omega)
        · simp at hmem
      · rcases List.mem_append.mp hmem with hmem | hmem
        · exact (h.bound hmem).trans (Nat.le_succ _)
        · simp at hmem
    · refine State.Ok.record ?_ (by simp [Event.concerns, hne])
      have hpending {load : Nat}
          (hentry : (name, load) ∈ s.pending.filter (·.1 ≠ m) ++ [(m, s.loads + 1)]) :
          (name, load) ∈ s.pending := by
        rcases List.mem_append.mp hentry with hentry | hentry
        · exact (List.mem_filter.mp hentry).1
        · simp [hne.symm] at hentry
      exact { h with
        pending := fun hentry => h.pending (hpending hentry)
        bound := fun hmem => (h.bound hmem).trans (Nat.le_succ _)
        pending_bound := fun hentry => (h.pending_bound (hpending hentry)).trans (Nat.le_succ _) }
  next => exact h

/-- A plugin takes its place after the one before is gone. -/
theorem State.Ok.install (h : s.Ok name) {m : String} {load : Nat}
    (hlast : m = name → lastAnswered name s.history = some (some load)) (hbound : m = name →
      load ≤ s.loads) (hnone : ∀ p ∈ s.registry, p.name ≠ m) (onUnload : Bool) :
    State.Ok name (State.record { s with
      registry := s.registry ++ [⟨m, load, true, true, onUnload⟩] } (.installed m load)) := by
  refine ⟨h.orderly.concat nofun, fun hentry => ?_, fun {p} hp hname hinstalled => ?_,
    fun {p} hp hrunning => ?_, fun {n} hmem => ?_, h.pending_bound⟩
  · rw [State.record, lastAnswered_concat]
    exact h.pending hentry
  · subst hname
    rcases List.mem_append.mp hp with hp | hp
    · have hne := (hnone p hp).symm
      refine (h.registry hp rfl hinstalled).concat ?_ (lastAnswered_concat _ _ _)
        ((standing_concat _ _ _).trans (if_neg hne))
      rintro n heq
      exact hne (Event.installed.inj heq).1
    · cases List.mem_singleton.mp hp
      exact ⟨(standing_concat _ _ _).trans (if_pos rfl), load,
        (lastAnswered_concat _ _ _).trans (hlast rfl), .inl rfl⟩
  · rcases List.mem_append.mp hp with hp | hp
    · exact h.running hp hrunning
    · cases List.mem_singleton.mp hp
      rfl
  · rcases List.mem_append.mp hmem with hmem | hmem
    · exact h.bound hmem
    · cases List.mem_singleton.mp hmem
      exact hbound rfl

/-- Code that runs is recorded first, and no command is answered meanwhile. -/
theorem State.execOne_frame (s : State) (name : String) (load : Nat) (succeeds onUnload : Bool) :
    (s.execOne name load succeeds onUnload).loads = s.loads ∧
      s.history ++ [.executed name load] <+: (s.execOne name load succeeds onUnload).history ∧
      ∀ m, lastAnswered m (s.execOne name load succeeds onUnload).history =
        lastAnswered m s.history := by
  obtain ⟨-, hloads, -, hsub, hlast⟩ := (s.record (.executed name load)).retirePlugin_frame name
  rw [State.execOne]
  dsimp only
  split
  next =>
    refine ⟨hloads, hsub.trans (List.prefix_append _ _), fun m => ?_⟩
    exact (lastAnswered_concat _ _ _).trans ((hlast m).trans (lastAnswered_concat _ _ _))
  next =>
    split <;> exact ⟨rfl, List.prefix_refl _, fun m => lastAnswered_concat _ _ _⟩

theorem State.Ok.execOne (h : s.Ok name) {m : String} {load : Nat}
    (hlast : m = name → lastAnswered name s.history = some (some load))
    (hbound : m = name → load ≤ s.loads) (succeeds onUnload : Bool) :
    (s.execOne m load succeeds onUnload).Ok name := by
  have hok := h.executed (m := m) fun hm => ⟨load, hlast hm, .inl rfl⟩
  rw [State.execOne]
  dsimp only
  split
  next =>
    obtain ⟨-, hloads, hregistry, -, hsame⟩ :=
      (s.record (.executed m load)).retirePlugin_frame m
    refine (hok.retirePlugin m).install (fun hm => ?_) (fun hm => hloads ▸ hbound hm)
      (fun p hp => ?_) onUnload
    · exact (hsame name).trans ((lastAnswered_concat _ _ _).trans (hlast hm))
    · rw [hregistry] at hp
      exact (mem_without.mp hp).2
  next =>
    split
    next => exact hok
    next =>
      -- a plugin in error has no callbacks
      refine { hok with
        registry := fun {p} hp hname hinstalled => ?_, running := fun {p} hp hr => ?_ }
      · rcases List.mem_append.mp hp with hp | hp
        · exact hok.registry hp hname hinstalled
        · cases List.mem_singleton.mp hp
          exact nomatch hinstalled
      · rcases List.mem_append.mp hp with hp | hp
        · exact hok.running hp hr
        · cases List.mem_singleton.mp hp
          exact nomatch hr

theorem State.Ok.execPending (h : s.Ok name)
    (hnot : ∀ entry ∈ s.pending, entry.1 = name → lastAnswered name s.history ≠ some none)
    (succeeds onUnload : Nat → Bool) : (s.execPending succeeds onUnload).Ok name := by
  have hfold : ∀ (entries : List (String × Nat)) (t : State), t.Ok name →
      (∀ entry ∈ entries, entry.1 = name →
        lastAnswered name t.history = some (some entry.2) ∧ entry.2 ≤ t.loads) →
      (entries.foldl (fun s entry => s.execOne entry.1 entry.2 (succeeds entry.2)
        (onUnload entry.2)) t).Ok name := by
    intro entries
    induction entries with
    | nil => exact fun t ht _ => ht
    | cons entry entries ih =>
        intro t ht hentries
        have hentry := hentries entry (by simp)
        obtain ⟨hloads, -, hsame⟩ := t.execOne_frame entry.1 entry.2 (succeeds entry.2)
          (onUnload entry.2)
        refine ih _ (ht.execOne (fun hm => (hentry hm).1) (fun hm => (hentry hm).2) _ _)
          fun e he => ?_
        rw [hsame, hloads]
        exact hentries e (by simp [he])
  refine hfold s.pending _ { h with pending := nofun, pending_bound := nofun } ?_
  rintro ⟨m, load⟩ hentry rfl
  exact ⟨(h.pending hentry).resolve_left (hnot _ hentry rfl), h.pending_bound hentry⟩

theorem State.Ok.callback (h : s.Ok name) (m : String) (fails : Bool) :
    (s.callback m fails).Ok name := by
  rw [State.callback]
  split
  next p hfind =>
    obtain ⟨hp, rfl⟩ := State.find_eq_some hfind
    split
    next hrunning =>
      have hinstalled := h.running hp hrunning
      have hok : (s.record (.executed p.name p.load)).Ok name :=
        h.executed fun hm => hm ▸ (h.registry hp hm hinstalled).ofLastLoad
      dsimp only
      split
      next =>
        refine { hok with registry := fun {q} hq hname hq' => ?_, running := fun {q} hq hr => ?_ }
        · rcases List.mem_append.mp hq with hq | hq
          · exact hok.registry (mem_without.mp hq).1 hname hq'
          · cases List.mem_singleton.mp hq
            have hstands := hok.registry hp hname hinstalled
            exact ⟨hstands.standing, hstands.last⟩
        · rcases List.mem_append.mp hq with hq | hq
          · exact hok.running (mem_without.mp hq).1 hr
          · cases List.mem_singleton.mp hq
            exact nomatch hr
      next => exact hok
    next => exact h
  next => exact h

theorem State.Ok.callbacks {t : State} (h : t.Ok name) (callbacks : List (String × Bool)) :
    (callbacks.foldl (fun t c => t.callback c.1 c.2) t).Ok name := by
  induction callbacks generalizing t with
  | nil => exact h
  | cons c callbacks ih => exact ih (h.callback c.1 c.2)

/-- A step that overtakes nothing keeps the invariant. -/
theorem State.Ok.step (h : s.Ok name) {a : Action} (hnot : NotOvertaken name s a) :
    (s.step a).Ok name := by
  cases a with
  | load m compiles => exact h.cmdLoad m compiles
  | unload u => exact h.cmdUnload u
  | tick sendWaiting gateOpen succeeds onUnload callbacks =>
      rcases sendWaiting with _ | _
      · rcases gateOpen with _ | _
        · exact h.callbacks callbacks
        · exact (h.execPending hnot succeeds onUnload).callbacks callbacks
      · exact h

end

/-! ## Code that an unload overtook -/

theorem State.history_callbacks (callbacks : List (String × Bool)) (t : State) :
    t.history <+: (callbacks.foldl (fun t c => t.callback c.1 c.2) t).history := by
  induction callbacks generalizing t with
  | nil => exact List.prefix_refl _
  | cons c callbacks ih =>
      refine List.IsPrefix.trans ?_ (ih (t.callback c.1 c.2))
      rw [State.callback]
      split
      next =>
        split
        next =>
          dsimp only
          split <;> exact List.prefix_append _ _
        next => exact List.prefix_refl _
      next => exact List.prefix_refl _

/-- What waits is executed, and no command is answered before. -/
theorem State.execPending_history (succeeds onUnload : Nat → Bool)
    (entries : List (String × Nat)) (t : State) :
    t.history <+: (entries.foldl (fun s entry => s.execOne entry.1 entry.2 (succeeds entry.2)
        (onUnload entry.2)) t).history ∧
      ∀ entry ∈ entries, ∃ pre, (∀ m, lastAnswered m pre = lastAnswered m t.history) ∧
        pre ++ [.executed entry.1 entry.2] <+: (entries.foldl (fun s entry =>
          s.execOne entry.1 entry.2 (succeeds entry.2) (onUnload entry.2)) t).history := by
  induction entries generalizing t with
  | nil => exact ⟨List.prefix_refl _, nofun⟩
  | cons first entries ih =>
      obtain ⟨-, hsub, hsame⟩ := t.execOne_frame first.1 first.2 (succeeds first.2)
        (onUnload first.2)
      obtain ⟨hrest, hexecuted⟩ := ih (t.execOne first.1 first.2 (succeeds first.2)
        (onUnload first.2))
      refine ⟨(List.prefix_append _ _).trans (hsub.trans hrest), fun entry hentry => ?_⟩
      rcases List.mem_cons.mp hentry with rfl | hentry
      · exact ⟨t.history, fun _ => rfl, hsub.trans hrest⟩
      · obtain ⟨pre, hpre, hmem⟩ := hexecuted entry hentry
        exact ⟨pre, fun m => (hpre m).trans (hsame m), hmem⟩

theorem State.step_history (s : State) (a : Action) : s.history <+: (s.step a).history := by
  cases a with
  | load m compiles =>
      rw [State.step, State.cmdLoad]
      split
      · exact List.prefix_append _ _
      · exact List.prefix_refl _
  | unload u =>
      have hretired (names : List String) (t : State) :
          t.history <+: (names.foldl State.retirePlugin t).history := by
        induction names generalizing t with
        | nil => exact List.prefix_refl _
        | cons m names ih => exact (t.retirePlugin_frame m).2.2.2.1.trans (ih _)
      exact (hretired _ s).trans (List.prefix_append _ _)
  | tick sendWaiting gateOpen succeeds onUnload callbacks =>
      rcases sendWaiting with _ | _
      · refine List.IsPrefix.trans ?_ (State.history_callbacks callbacks _)
        rcases gateOpen with _ | _
        · exact List.prefix_refl _
        · exact (State.execPending_history succeeds onUnload s.pending { s with pending := [] }).1
      · exact List.prefix_refl _

/-- A tick that runs overtaken code runs it after the unload. -/
theorem State.not_orderly {name : String} {s : State} {a : Action}
    (hnot : ¬ NotOvertaken name s a) : ¬ Orderly name (s.step a).history := by
  intro horderly
  cases a with
  | load m compiles => exact hnot trivial
  | unload u => exact hnot trivial
  | tick sendWaiting gateOpen succeeds onUnload callbacks =>
      rcases sendWaiting with _ | _
      · rcases gateOpen with _ | _
        · exact hnot trivial
        · refine hnot fun entry hentry hname hlast => ?_
          subst hname
          obtain ⟨pre, hpre, hsub⟩ :=
            (State.execPending_history succeeds onUnload s.pending
              { s with pending := [] }).2 entry hentry
          obtain ⟨n, hn, -⟩ := horderly pre entry.2
            (hsub.trans (State.history_callbacks callbacks _))
          rw [hpre, hlast] at hn
          cases hn
      · exact hnot trivial

/-! ## Every execution -/

/-- Every execution of a name is of its last load or of the plugin that this
load is to replace, exactly in the runs in which no tick runs code of the name
that an unload has overtaken. -/
theorem executed_of_last_load {actions : List Action} {s : State}
    (hrun : Transition.run (fun s a => some (s.step a)) State.init actions = some s)
    (name : String) :
    Orderly name s.history ↔
      Transition.Guarded (fun s a => some (s.step a)) (NotOvertaken name) State.init actions := by
  have hiff : Transition.Always (fun s a => some (s.step a)) (fun s => Orderly name s.history)
        State.init actions ↔
      Transition.Guarded (fun s a => some (s.step a)) (NotOvertaken name) State.init actions := by
    refine Transition.Guarded.always_iff (I := fun s => Orderly name s.history → s.Ok name)
      ?_ ?_ (fun _ => State.Ok.init name) (State.Ok.init name).orderly hrun
    · intro s a t hI hstep ht
      cases hstep
      by_cases hnot : NotOvertaken name s a
      · exact (hI (ht.of_prefix (s.step_history a))).step hnot
      · exact absurd ht (State.not_orderly hnot)
    · intro s a t hI hP hstep
      cases hstep
      refine ⟨fun ht => ?_, fun hnot => ((hI hP).step hnot).orderly⟩
      by_contra hnot
      exact State.not_orderly hnot ht
  rw [← hiff]
  refine ⟨fun h pre t hpre hrun' => ?_, fun h => h.last hrun⟩
  -- histories only grow
  obtain ⟨rest, rfl⟩ := hpre
  rw [Transition.run_append, hrun'] at hrun
  refine h.of_prefix (Transition.run_invariant (I := fun u => t.history <+: u.history)
    (fun hsub hstep => ?_) (List.prefix_refl _) hrun)
  cases hstep
  exact hsub.trans (State.step_history _ _)

/-- A tick with the gate open, at which the loads that are given fail. -/
def openTick (failing : List Nat) (callbacks : List (String × Bool)) : Action :=
  .tick false true (fun load => load ∉ failing) (fun _ => false) callbacks

/-- A tick with the gate closed. -/
def closedTick (callbacks : List (String × Bool)) : Action :=
  .tick false false (fun _ => true) (fun _ => false) callbacks

/-- A plugin runs on when the load that was to replace it fails.  A load that an
unload overtook does not run when a newer one takes its place in the list. -/
theorem executed_of_last_load_replaced :
    ∃ s, Transition.run (fun s a => some (s.step a)) State.init
        [.load "p" true, closedTick [], .unload "p", .load "p" true, openTick [] [],
          .load "p" true, openTick [3] [("p", false)]] = some s ∧
      s.history = [.loaded "p" 1, .unloaded "p", .loaded "p" 2, .executed "p" 2,
        .installed "p" 2, .loaded "p" 3, .executed "p" 3, .executed "p" 2] ∧
      Orderly "p" s.history := by
  have hrun : Transition.run (fun s a => some (s.step a)) State.init
      [.load "p" true, closedTick [], .unload "p", .load "p" true, openTick [] [],
        .load "p" true, openTick [3] [("p", false)]] = some _ := rfl
  refine ⟨_, hrun, by decide, (executed_of_last_load hrun "p").mpr (by decide)⟩

/-- After a load is answered the plugin that it was to replace can still run,
for the load can fail, and after an unload is answered the code that waits can
still run. -/
theorem executed_after_answer :
    (∃ s, Transition.run (fun s a => some (s.step a)) State.init
        [.load "p" true, openTick [] [], .load "p" true, openTick [2] [("p", false)]] = some s ∧
      ∃ pre, pre ++ [.executed "p" 1] <+: s.history ∧ lastAnswered "p" pre = some (some 2)) ∧
    (∃ s, Transition.run (fun s a => some (s.step a)) State.init
        [.load "p" true, .unload "p", openTick [] []] = some s ∧
      ∃ pre, pre ++ [.executed "p" 1] <+: s.history ∧ lastAnswered "p" pre = some none) := by
  constructor
  · refine ⟨_, rfl, [.loaded "p" 1, .executed "p" 1, .installed "p" 1, .loaded "p" 2,
      .executed "p" 2], ?_, ?_⟩
    · exact ⟨[], rfl⟩
    · decide
  · refine ⟨_, rfl, [.loaded "p" 1, .unloaded "p"], ?_, ?_⟩
    · exact ⟨[.installed "p" 1], rfl⟩
    · decide

end PinBridge.Plugins
