import PinBridge.Scripts.Routing

/-!
# What a dispatch calls

A dispatch offers a sequence of events to each `pb.on` handler of the plugin
(`DispatchSnapshot.offers`).  The handler decides on each with the state the
earlier ones have left it in, so the number it accepts is computed without
running anything (`Handler.accepted`).

`dispatch_invariant` lifts what every single call keeps to the whole dispatch.
`dispatch_measure_le` bounds the calls of a handler by the offers it accepts.
A callback that fails makes it fewer.
-/

namespace PinBridge.Routing

/-! ## Offers -/

/-- An event with its lane. -/
abbrev Offer : Type := EventLane × Event

/-- A handler after an offer. -/
def Handler.after (h : Handler) (o : Offer) : Handler := (h.accept o.1 o.2).getD h

/-- How many offers of a sequence a handler accepts. -/
def Handler.accepted (h : Handler) : List Offer → Nat
  | [] => 0
  | o :: os => (if (h.accept o.1 o.2).isSome then 1 else 0) + (h.after o).accepted os

theorem Handler.accepted_append (h : Handler) (os ps : List Offer) :
    h.accepted (os ++ ps) = h.accepted os + (os.foldl Handler.after h).accepted ps := by
  induction os generalizing h with
  | nil => simp [Handler.accepted]
  | cons o os ih => rw [List.cons_append, Handler.accepted, Handler.accepted, ih, List.foldl_cons,
      Nat.add_assoc]

/-- The offers of a page from a place in its lane. -/
def pageOffers (lane : EventLane) : List Event → Nat → List Offer
  | [], _ => []
  | e :: es, place =>
      if e.sequence.toNat ≤ place then pageOffers lane es place
      else
        (if withheld lane e then [] else [(lane, e)]) ++ pageOffers lane es e.sequence.toNat

/-- The offers of the events that are in no lane. -/
def syntheticOffers (es : List Event) : List Offer := es.map (Prod.mk .synthetic)

/-- The offers of a dispatch. -/
def DispatchSnapshot.offers (s : DispatchSnapshot) (shared : TickShared) : List Offer :=
  syntheticOffers shared.lifecycle ++ pageOffers .priority shared.priorityEvents s.priorityCursor ++
    pageOffers .observation shared.observationEvents s.observationCursor ++
    syntheticOffers shared.oom.toList ++ pageOffers .main shared.events s.cursor

/-! ## What an acceptance leaves alone -/

/-- What a handler never changes. -/
def Handler.tag (h : Handler) : Nat × Bool := (h.id, h.once)

theorem Handler.acceptSyscall_tag {h h' : Handler} {e : Event}
    (ha : h.acceptSyscall e = some h') : h'.tag = h.tag := by
  rw [Handler.acceptSyscall] at ha
  split_ifs at ha
  · cases ha
    rfl
  · obtain ⟨_, -, rfl⟩ := Option.map_eq_some_iff.mp ha
    rfl
  · cases ha
    rfl

theorem Handler.acceptOom_tag {h h' : Handler} {e : Event} (ha : h.acceptOom e = some h') :
    h'.tag = h.tag := by
  rw [Handler.acceptOom] at ha
  split_ifs at ha <;> cases ha <;> rfl

theorem Handler.acceptContext_tag {h h' : Handler} {e : Event}
    (ha : h.acceptContext e = some h') : h'.tag = h.tag := by
  rw [Handler.acceptContext] at ha
  split at ha
  · obtain ⟨_, -, rfl⟩ := Option.map_eq_some_iff.mp ha
    rfl
  · cases ha
    rfl

theorem Handler.acceptModule_tag {h h' : Handler} {e : Event} (ha : h.acceptModule e = some h') :
    h'.tag = h.tag := by
  rw [Handler.acceptModule] at ha
  split_ifs at ha <;> cases ha <;> rfl

theorem Handler.deliver_tag (h : Handler) : h.deliver.tag = h.tag := by
  rw [Handler.deliver]
  split <;> rfl

theorem Handler.accept_tag {h h' : Handler} {lane : EventLane} {e : Event}
    (ha : h.accept lane e = some h') : h'.tag = h.tag := by
  rw [Handler.accept] at ha
  split at ha
  · obtain ⟨h₄, hbind, rfl⟩ := Option.map_eq_some_iff.mp ha
    obtain ⟨h₃, hbind, h4⟩ := Option.bind_eq_some_iff.mp hbind
    obtain ⟨h₂, hbind, h3⟩ := Option.bind_eq_some_iff.mp hbind
    obtain ⟨h₁, h1, h2⟩ := Option.bind_eq_some_iff.mp hbind
    rw [deliver_tag, acceptModule_tag h4, acceptContext_tag h3, acceptOom_tag h2,
      acceptSyscall_tag h1]
  · cases ha

@[simp] theorem Handler.after_tag (h : Handler) (o : Offer) : (h.after o).tag = h.tag := by
  rw [Handler.after]
  cases ha : h.accept o.1 o.2 with
  | none => rfl
  | some h' => exact Handler.accept_tag ha

@[simp] theorem Handler.foldl_after_tag (h : Handler) (os : List Offer) :
    (os.foldl Handler.after h).tag = h.tag := by
  induction os generalizing h with
  | nil => rfl
  | cons o os ih => rw [List.foldl_cons, ih, Handler.after_tag]

theorem map_id_eq (hs : List Handler) : hs.map Handler.id = (hs.map Handler.tag).map Prod.fst := by
  rw [List.map_map]
  rfl

/-! ## Invariants of a dispatch -/

section

variable {σ : Type*} {c : Callbacks σ}

theorem routeNamedHandlers_tag (lane : EventLane) (e : Event) (r : Routed σ) (hs : List Handler) :
    (routeNamedHandlers c lane e r hs).2.map Handler.tag = hs.map Handler.tag := by
  induction hs generalizing r with
  | nil => rfl
  | cons h hs ih =>
      rw [routeNamedHandlers_cons]
      split
      next => simp only [List.map_cons, ih]
      next h' ha =>
        have htag := Handler.accept_tag ha
        simp only
        split
        · rw [List.map_cons, List.map_cons, htag]
        · simp only [List.map_cons, ih, htag]

/-- A handler that no callback's failure cuts off has decided on the event. -/
theorem routeNamedHandlers_after {lane : EventLane} {e : Event} {r : Routed σ}
    {hs : List Handler} (hok : (routeNamedHandlers c lane e r hs).1.failed = false) :
    (routeNamedHandlers c lane e r hs).2 = hs.map fun h => h.after (lane, e) := by
  induction hs generalizing r with
  | nil => rfl
  | cons h hs ih =>
      rw [routeNamedHandlers_cons] at hok ⊢
      cases ha : h.accept lane e with
      | none =>
          simp only [ha] at hok ⊢
          rw [List.map_cons, ih hok]
          simp [Handler.after, ha]
      | some h' =>
          simp only [ha] at hok ⊢
          split at hok
          next hfail => simp_all
          next hfail =>
            rw [if_neg hfail, List.map_cons, ih hok]
            simp [Handler.after, ha]

/-- A property of the environment and the record of a dispatch that each of its
calls keeps.  The handlers have the given tags. -/
structure Kept (c : Callbacks σ) (tags : List (Nat × Bool)) (P : Routed σ → Prop) : Prop where
  /-- A handler is called. -/
  named : ∀ {r : Routed σ} {h : Handler} {e : Event}, h.tag ∈ tags → P r → P (r.call c h e)
  /-- A fixed callback is called. -/
  fixed : ∀ {r : Routed σ} {callee : Callee} {e : Event}, (∀ id, callee ≠ .named id) → P r →
    P (r.after (c.call r.env callee e))
  /-- The callbacks of a stop are called. -/
  stop : ∀ {r : Routed σ}, P r → P (r.after (c.stop r.env))
  /-- `on_event_batch` is called. -/
  batch : ∀ {r : Routed σ}, P r → P (r.after (c.batch r.env))

/-- A part of a dispatch keeps a property and the tags. -/
def PartKeeps (tags : List (Nat × Bool)) (P : Routed σ → Prop)
    (part : Routed σ → DispatchSnapshot → Routed σ × DispatchSnapshot) : Prop :=
  ∀ (r : Routed σ) (s : DispatchSnapshot), s.handlers.map Handler.tag = tags → P r →
    P (part r s).1 ∧ (part r s).2.handlers.map Handler.tag = tags

variable {tags : List (Nat × Bool)} {P : Routed σ → Prop}

theorem PartKeeps.unlessFailed {f : Routed σ → DispatchSnapshot → Routed σ × DispatchSnapshot}
    (h : PartKeeps tags P f) : PartKeeps tags P (unlessFailed f) := by
  intro r s htags hP
  rw [Routing.unlessFailed]
  split
  · exact ⟨hP, htags⟩
  · exact h r s htags hP

theorem Kept.route (hk : Kept c tags P) (lane : EventLane) (e : Event) {r : Routed σ}
    {hs : List Handler} (htags : ∀ h ∈ hs, h.tag ∈ tags) (hP : P r) :
    P (routeNamedHandlers c lane e r hs).1 := by
  refine Handlers.routeHandlers_induct (Q := fun _ => True) (fun _ _ => trivial) ?_ hP trivial
  intro h hh r h' hP _ ha
  exact hk.named (Handler.accept_tag ha ▸ htags h hh) hP

theorem Kept.offer (hk : Kept c tags P) (lane : EventLane) (e : Event) :
    PartKeeps tags P (DispatchSnapshot.offer c lane e) := by
  intro r s htags hP
  refine ⟨hk.route lane e (fun h hh => ?_) hP, ?_⟩
  · rw [← htags]
    exact List.mem_map_of_mem hh
  · rw [← htags]
    exact routeNamedHandlers_tag lane e r s.handlers

theorem Legacy.callee_ne_named {l : Legacy} {e : Event} {callee : Callee}
    (h : l.callee e = some callee) (id : Nat) : callee ≠ .named id := by
  rw [Legacy.callee] at h
  split_ifs at h <;> cases h <;> nofun

theorem Kept.routeEvent (hk : Kept c tags P) (e : Event) {r : Routed σ} (l : Legacy) (hP : P r) :
    P (routeEvent c e r l).1 := by
  rw [Routing.routeEvent]
  split
  next => exact hP
  next =>
    split
    next => exact hP
    next callee hcallee => exact hk.fixed (Legacy.callee_ne_named hcallee) hP

theorem Kept.event (hk : Kept c tags P) (lane : EventLane) (e : Event) :
    PartKeeps tags P (DispatchSnapshot.event c lane e) := by
  intro r s htags hP
  have hP' := hk.routeEvent e (s.moveTo e.sequence.toNat lane).legacy hP
  have htags' : (s.moveTo e.sequence.toNat lane).handlers.map Handler.tag = tags := by
    cases lane <;> exact htags
  simp only [DispatchSnapshot.event]
  split
  · exact ⟨hP', htags'⟩
  · exact (hk.offer lane e).unlessFailed _ _ htags' hP'

theorem Kept.page (hk : Kept c tags P) (lane : EventLane) (es : List Event) :
    PartKeeps tags P (DispatchSnapshot.page c lane es) := by
  induction es with
  | nil => exact fun r s htags hP => ⟨hP, htags⟩
  | cons e es ih =>
      intro r s htags hP
      rw [DispatchSnapshot.page]
      split
      · exact ih r s htags hP
      · obtain ⟨hP', htags'⟩ := hk.event lane e r s htags hP
        simp only
        split
        · exact ⟨hP', htags'⟩
        · exact ih _ _ htags' hP'

theorem Kept.synthetic (hk : Kept c tags P) (es : List Event) :
    PartKeeps tags P (DispatchSnapshot.synthetic c es) := by
  induction es with
  | nil => exact fun r s htags hP => ⟨hP, htags⟩
  | cons e es ih =>
      intro r s htags hP
      obtain ⟨hP', htags'⟩ := hk.offer .synthetic e r s htags hP
      rw [DispatchSnapshot.synthetic]
      simp only
      split
      · exact ⟨hP', htags'⟩
      · exact ih _ _ htags' hP'

/-- What every call keeps holds after the dispatch. -/
theorem dispatch_invariant {shared : TickShared} {env : σ} {s : DispatchSnapshot}
    (hk : Kept c (s.handlers.map Handler.tag) P) (hP : P (.init env)) :
    P (s.dispatch c shared env).1 := by
  obtain ⟨h1, t1⟩ := hk.synthetic shared.lifecycle _ s rfl hP
  obtain ⟨h2, t2⟩ := (hk.page .priority shared.priorityEvents).unlessFailed _ _ t1 h1
  obtain ⟨h3, t3⟩ := (hk.page .observation shared.observationEvents).unlessFailed _ _ t2 h2
  obtain ⟨h4, t4⟩ := (hk.synthetic shared.oom.toList).unlessFailed _ _ t3 h3
  obtain ⟨h5, t5⟩ := PartKeeps.unlessFailed (f := fun r s => (r.after (c.stop r.env), s))
    (fun _ _ ht hP => ⟨hk.stop hP, ht⟩) _ _ t4 h4
  obtain ⟨h6, t6⟩ := (hk.page .main shared.events).unlessFailed _ _ t5 h5
  exact (PartKeeps.unlessFailed (f := fun r s => (r.after (c.batch r.env), s))
    (fun _ _ ht hP => ⟨hk.batch hP, ht⟩) _ _ t6 h6).1

/-! ## Counting calls -/

/-- A measure that the calls of one handler raise by one at most, and nothing
else raises. -/
structure Measured (c : Callbacks σ) (m : σ → Nat) (id : Nat) : Prop where
  /-- A callback is called. -/
  call : ∀ (env : σ) (callee : Callee) (e : Event),
    m (c.call env callee e).1 ≤ m env + if callee = .named id then 1 else 0
  /-- The callbacks of a stop are called. -/
  stop : ∀ env, m (c.stop env).1 ≤ m env
  /-- `on_event_batch` is called. -/
  batch : ∀ env, m (c.batch env).1 ≤ m env

variable {m : σ → Nat} {id : Nat}

theorem Measured.call_of_ne (hm : Measured c m id) {env : σ} {callee : Callee} {e : Event}
    (h : callee ≠ .named id) : m (c.call env callee e).1 ≤ m env := by
  have := hm.call env callee e
  rwa [if_neg h] at this

theorem Measured.route_of_notMem (hm : Measured c m id) (lane : EventLane) (e : Event)
    {r : Routed σ} {hs : List Handler} (hid : id ∉ hs.map Handler.id) :
    m (routeNamedHandlers c lane e r hs).1.env ≤ m r.env := by
  refine Handlers.routeHandlers_induct (P := fun r' : Routed σ => m r'.env ≤ m r.env)
    (Q := fun _ => True) (fun _ _ => trivial) ?_ (le_refl _) trivial
  intro h hh r' h' hle _ ha
  have htag : h'.id = h.id := congrArg Prod.fst (Handler.accept_tag ha)
  have hne : Callee.named h'.id ≠ .named id := fun heq =>
    hid (List.mem_map.mpr ⟨h, hh, by rw [← htag, Callee.named.inj heq]⟩)
  exact (hm.call_of_ne hne).trans hle

/-- A handler is called for an event it accepts, and once. -/
theorem Measured.route (hm : Measured c m id) (lane : EventLane) (e : Event) {r : Routed σ}
    {hs : List Handler} (hnodup : (hs.map Handler.id).Nodup) {h : Handler} (hh : h ∈ hs)
    (hid : h.id = id) :
    m (routeNamedHandlers c lane e r hs).1.env ≤ m r.env + h.accepted [(lane, e)] := by
  induction hs generalizing r with
  | nil => cases hh
  | cons g hs ih =>
      obtain ⟨hg, hnodup⟩ := List.nodup_cons.mp hnodup
      rw [routeNamedHandlers_cons]
      rcases List.mem_cons.mp hh with rfl | hh
      · have hrest : ∀ r, m (routeNamedHandlers c lane e r hs).1.env ≤ m r.env :=
          fun r => hm.route_of_notMem lane e (hid ▸ hg)
        cases ha : h.accept lane e with
        | none => exact (hrest r).trans (Nat.le_add_right _ _)
        | some h' =>
            have haccepted : h.accepted [(lane, e)] = 1 := by simp [Handler.accepted, ha]
            have hcall : m (r.call c h' e).env ≤ m r.env + 1 := by
              refine (hm.call _ _ _).trans (Nat.add_le_add_left ?_ _)
              split <;> omega
            rw [haccepted]
            simp only
            split
            · exact hcall
            · exact (hrest _).trans hcall
      · have hne : g.id ≠ id := fun heq =>
          hg (List.mem_map.mpr ⟨h, hh, hid.trans heq.symm⟩)
        cases ha : g.accept lane e with
        | none => exact ih hnodup hh
        | some g' =>
            have htag : g'.id = g.id := congrArg Prod.fst (Handler.accept_tag ha)
            have hcall : m (r.call c g' e).env ≤ m r.env :=
              hm.call_of_ne fun heq => hne (by rw [← htag, Callee.named.inj heq])
            simp only
            split
            · exact hcall.trans (Nat.le_add_right _ _)
            · exact (ih hnodup hh).trans (Nat.add_le_add_right hcall _)

variable (m id) in
/-- What a part of a dispatch may do to the measure when it makes some offers:
the handler is called for the ones it accepts, and unless a callback has failed
all of them are made. -/
structure Calls (os : List Offer) (r : Routed σ) (s : DispatchSnapshot)
    (x : Routed σ × DispatchSnapshot) : Prop where
  /-- The calls of the handler. -/
  measure : ∀ h ∈ s.handlers, h.id = id → m x.1.env ≤ m r.env + h.accepted os
  /-- The handlers have decided. -/
  handlers : x.1.failed = false → x.2.handlers = s.handlers.map fun h => os.foldl Handler.after h

/-- Nothing is offered and the handler is not called. -/
theorem Calls.nil {r : Routed σ} {s : DispatchSnapshot} {x : Routed σ × DispatchSnapshot}
    (hm : m x.1.env ≤ m r.env) (hs : x.2.handlers = s.handlers) : Calls m id [] r s x where
  measure _ _ _ := hm.trans (Nat.le_add_right _ _)
  handlers _ := by simp [hs]

theorem Calls.trans {os ps : List Offer} {r : Routed σ} {s : DispatchSnapshot}
    {x y : Routed σ × DispatchSnapshot} (h : Calls m id os r s x)
    (hfail : x.1.failed = true → y = x)
    (hnext : x.1.failed = false → Calls m id ps x.1 x.2 y) : Calls m id (os ++ ps) r s y := by
  cases hx : x.1.failed with
  | true =>
      obtain rfl := hfail hx
      refine ⟨fun g hg hid => ?_, fun hok => by simp [hx] at hok⟩
      rw [Handler.accepted_append]
      exact (h.measure g hg hid).trans (by omega)
  | false =>
      have hs := h.handlers hx
      refine ⟨fun g hg hid => ?_, fun hok => ?_⟩
      · have hid' : (os.foldl Handler.after g).id = id :=
          (congrArg Prod.fst (g.foldl_after_tag os)).trans hid
        have hg' : os.foldl Handler.after g ∈ x.2.handlers := by
          rw [hs]
          exact List.mem_map_of_mem hg
        rw [Handler.accepted_append, ← Nat.add_assoc]
        exact ((hnext hx).measure _ hg' hid').trans (Nat.add_le_add_right (h.measure g hg hid) _)
      · rw [(hnext hx).handlers hok, hs, List.map_map]
        exact List.map_congr_left fun g _ => (List.foldl_append ..).symm

theorem Calls.unlessFailed {os ps : List Offer} {r : Routed σ} {s : DispatchSnapshot}
    {x : Routed σ × DispatchSnapshot} (h : Calls m id os r s x)
    {f : Routed σ → DispatchSnapshot → Routed σ × DispatchSnapshot}
    (hnext : x.1.failed = false → Calls m id ps x.1 x.2 (f x.1 x.2)) :
    Calls m id (os ++ ps) r s (Routing.unlessFailed f x.1 x.2) := by
  refine h.trans (fun hx => ?_) (fun hx => ?_)
  · rw [Routing.unlessFailed, if_pos hx]
  · rw [Routing.unlessFailed, hx, if_neg (by simp)]
    exact hnext hx

/-- No two handlers have one identity. -/
def DispatchSnapshot.Distinct (s : DispatchSnapshot) : Prop := (s.handlers.map Handler.id).Nodup

theorem Calls.distinct {os : List Offer} {r : Routed σ} {s : DispatchSnapshot}
    {x : Routed σ × DispatchSnapshot} (h : Calls m id os r s x) (hs : s.Distinct)
    (hok : x.1.failed = false) : x.2.Distinct := by
  rw [DispatchSnapshot.Distinct, h.handlers hok, List.map_map]
  refine (congrArg List.Nodup (List.map_congr_left fun g _ => ?_)).mpr hs
  exact congrArg Prod.fst (g.foldl_after_tag os)

theorem Measured.offer (hm : Measured c m id) (lane : EventLane) (e : Event) {r : Routed σ}
    {s : DispatchSnapshot} (hs : s.Distinct) : Calls m id [(lane, e)] r s (s.offer c lane e r) where
  measure _ hh hid := hm.route lane e hs hh hid
  handlers hok := routeNamedHandlers_after hok

theorem Measured.routeEvent (hm : Measured c m id) (e : Event) (r : Routed σ) (l : Legacy) :
    m (routeEvent c e r l).1.env ≤ m r.env := by
  rw [Routing.routeEvent]
  split
  next => exact le_refl _
  next =>
    split
    next => exact le_refl _
    next callee hcallee => exact hm.call_of_ne (Legacy.callee_ne_named hcallee id)

theorem Measured.event (hm : Measured c m id) (lane : EventLane) (e : Event) {r : Routed σ}
    {s : DispatchSnapshot} (hs : s.Distinct) :
    Calls m id (if withheld lane e then [] else [(lane, e)]) r s (s.event c lane e r) := by
  have hmove : (s.moveTo e.sequence.toNat lane).handlers = s.handlers := by cases lane <;> rfl
  have hfixed : Calls m id [] r s
      ((Routing.routeEvent c e r (s.moveTo e.sequence.toNat lane).legacy).1, { s.moveTo e.sequence.toNat lane with
        legacy := (Routing.routeEvent c e r (s.moveTo e.sequence.toNat lane).legacy).2 }) :=
    Calls.nil (hm.routeEvent e r _) hmove
  simp only [DispatchSnapshot.event]
  split
  · exact hfixed
  · exact hfixed.unlessFailed fun hok => hm.offer lane e (hfixed.distinct hs hok)

/-- The places of a snapshot are its cursors. -/
theorem DispatchSnapshot.place_congr {s t : DispatchSnapshot} (h : s.cursor = t.cursor)
    (hp : s.priorityCursor = t.priorityCursor) (ho : s.observationCursor = t.observationCursor)
    (lane : EventLane) : s.place lane = t.place lane := by
  cases lane with
  | synthetic => rfl
  | priority => exact hp
  | observation => exact ho
  | main => exact h

theorem DispatchSnapshot.moveTo_place {lane lane' : EventLane} (place : Nat)
    (s : DispatchSnapshot) (hlane : lane ≠ .synthetic) :
    (s.moveTo place lane).place lane' = if lane' = lane then place else s.place lane' := by
  cases lane with
  | synthetic => exact absurd rfl hlane
  | priority | observation | main => cases lane' <;> rfl

theorem DispatchSnapshot.event_place {lane lane' : EventLane} (e : Event) (r : Routed σ)
    (s : DispatchSnapshot) (hlane : lane ≠ .synthetic) :
    (s.event c lane e r).2.place lane' =
      if lane' = lane then e.sequence.toNat else s.place lane' := by
  refine Eq.trans ?_ (s.moveTo_place e.sequence.toNat hlane)
  simp only [DispatchSnapshot.event, Routing.unlessFailed]
  split
  · exact place_congr rfl rfl rfl lane'
  · split
    · exact place_congr rfl rfl rfl lane'
    · exact place_congr rfl rfl rfl lane'

theorem DispatchSnapshot.page_place {lane lane' : EventLane} (hne : lane' ≠ lane)
    (hlane : lane ≠ .synthetic) (es : List Event) (r : Routed σ) (s : DispatchSnapshot) :
    (s.page c lane es r).2.place lane' = s.place lane' := by
  induction es generalizing r s with
  | nil => rfl
  | cons e es ih =>
      have hplace : (s.event c lane e r).2.place lane' =
          if lane' = lane then e.sequence.toNat else s.place lane' :=
        DispatchSnapshot.event_place e r s hlane
      rw [if_neg hne] at hplace
      rw [DispatchSnapshot.page]
      split
      · exact ih r s
      · simp only
        split
        · exact hplace
        · exact (ih _ _).trans hplace

theorem DispatchSnapshot.synthetic_place {lane : EventLane} (es : List Event) (r : Routed σ)
    (s : DispatchSnapshot) : (s.synthetic c es r).2.place lane = s.place lane := by
  have hoffer : ∀ e (r : Routed σ) (s : DispatchSnapshot),
      (s.offer c .synthetic e r).2.place lane = s.place lane := by
    intro e r s
    cases lane <;> rfl
  induction es generalizing r s with
  | nil => rfl
  | cons e es ih =>
      rw [DispatchSnapshot.synthetic]
      simp only
      split
      · exact hoffer e r s
      · exact (ih _ _).trans (hoffer e r s)

theorem unlessFailed_place {l : EventLane}
    {f : Routed σ → DispatchSnapshot → Routed σ × DispatchSnapshot}
    (h : ∀ r s, (f r s).2.place l = s.place l) (r : Routed σ) (s : DispatchSnapshot) :
    (unlessFailed f r s).2.place l = s.place l := by
  rw [unlessFailed]
  split
  · rfl
  · exact h r s

theorem Measured.page (hm : Measured c m id) {lane : EventLane} (hlane : lane ≠ .synthetic)
    (es : List Event) {r : Routed σ} {s : DispatchSnapshot} {n : Nat}
    (hplace : s.place lane = n) (hs : s.Distinct) :
    Calls m id (pageOffers lane es n) r s (s.page c lane es r) := by
  induction es generalizing r s n with
  | nil => exact Calls.nil (le_refl _) rfl
  | cons e es ih =>
      rw [DispatchSnapshot.page, pageOffers, hplace]
      split
      · exact ih hplace hs
      · have hevent := hm.event lane e (r := r) hs
        refine hevent.trans (fun hx => ?_) (fun hx => ?_)
        · simp only [if_pos hx]
        · simp only [hx, Bool.false_eq_true, if_false]
          refine ih ?_ (hevent.distinct hs hx)
          rw [DispatchSnapshot.event_place e r s hlane, if_pos rfl]

theorem Measured.synthetic (hm : Measured c m id) (es : List Event) {r : Routed σ}
    {s : DispatchSnapshot} (hs : s.Distinct) :
    Calls m id (syntheticOffers es) r s (s.synthetic c es r) := by
  induction es generalizing r s with
  | nil => exact Calls.nil (le_refl _) rfl
  | cons e es ih =>
      have hoffer := hm.offer .synthetic e (r := r) hs
      rw [DispatchSnapshot.synthetic]
      refine hoffer.trans (fun hx => ?_) (fun hx => ?_)
      · simp only [if_pos hx]
      · simp only [hx, Bool.false_eq_true, if_false]
        exact ih (hoffer.distinct hs hx)

/-- A dispatch calls a handler for offers that it accepts. -/
theorem dispatch_measure_le (hm : Measured c m id) (shared : TickShared) (env : σ)
    {s : DispatchSnapshot} (hs : s.Distinct) {h : Handler} (hh : h ∈ s.handlers)
    (hid : h.id = id) :
    m (s.dispatch c shared env).1.env ≤ m env + h.accepted (s.offers shared) := by
  have h1 := hm.synthetic shared.lifecycle (r := .init env) hs
  have h2 := h1.unlessFailed (f := DispatchSnapshot.page c .priority shared.priorityEvents)
    fun hok => hm.page (by simp) _ (s.synthetic_place _ _) (h1.distinct hs hok)
  have h3 := h2.unlessFailed (f := DispatchSnapshot.page c .observation shared.observationEvents)
    fun hok => hm.page (by simp) _ ((unlessFailed_place (fun r s =>
      s.page_place (by simp) (by simp) _ r) _ _).trans (s.synthetic_place _ _))
      (h2.distinct hs hok)
  have h4 := h3.unlessFailed (f := DispatchSnapshot.synthetic c shared.oom.toList)
    fun hok => hm.synthetic _ (h3.distinct hs hok)
  have h5 := h4.unlessFailed (f := fun r s => (r.after (c.stop r.env), s))
    fun _ => Calls.nil (hm.stop _) rfl
  have h6 := h5.unlessFailed (f := DispatchSnapshot.page c .main shared.events)
    fun hok => hm.page (n := s.cursor) (by simp) _ ?_ (h5.distinct hs hok)
  have h7 := h6.unlessFailed (f := fun r s => (r.after (c.batch r.env), s))
    fun _ => Calls.nil (hm.batch _) rfl
  · have hmeasure := h7.measure h hh hid
    simp only [List.append_nil] at hmeasure
    exact hmeasure
  · rw [unlessFailed_place (l := .main) (fun r s => rfl)]
    rw [unlessFailed_place (l := .main) (fun r s => s.synthetic_place _ r)]
    rw [unlessFailed_place (l := .main) (fun r s => s.page_place (by simp) (by simp) _ r)]
    rw [unlessFailed_place (l := .main) (fun r s => s.page_place (by simp) (by simp) _ r)]
    exact s.synthetic_place _ _

end

end PinBridge.Routing
