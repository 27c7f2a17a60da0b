import PinBridge.Scripts.Points

/-!
# Points live as long as their owners

Every action keeps `Points.Ok` when it meets `Points.Clear`: the operations
between which the scripting thread is idle (`Points.ok_operate`), the parts of
an operation (`Points.ok_proceed`) and the requests of others
(`Points.ok_external`).  So in a run of such actions the lease counts are exact,
the host removes nothing that is wanted, and what nobody wants any more is
queued for removal (`points_kept`).
-/

namespace PinBridge.Host

open Transition (run Always Guarded)
open Breakpoints (maxBreakpoints)
open Hooks (maxHookPoints)

/-! ## The native side -/

theorem Registry.breakpointUsers_update (r : Registry) (key : PluginKey) (state : PluginState)
    (id : UInt32) :
    Registry.breakpointUsers (r.modify key fun p => { p with state }) id =
      r.breakpointUsers id := by
  rw [Table.modify]
  cases hp : r.lookup key with
  | none => rfl
  | some p => exact Nat.add_right_cancel (Registry.breakpointUsers_insert hp { p with state } id)

theorem Registry.hookUsers_update (r : Registry) (key : PluginKey) (state : PluginState)
    (a : UInt64) :
    Registry.hookUsers (r.modify key fun p => { p with state }) a = r.hookUsers a := by
  rw [Table.modify]
  cases hp : r.lookup key with
  | none => rfl
  | some p => exact Nat.add_right_cancel (Registry.hookUsers_insert hp { p with state } a)

section

variable {s : Points} {created : Option UInt32} {holders : UInt64 → Nat}
  {createdHook : Option UInt64}

/-- A plugin is in another state. -/
theorem Points.Core.update (h : s.Core created s.registry.hookUsers createdHook)
    (key : PluginKey) (state : PluginState) :
    Points.Core { s with registry := s.registry.modify key fun p => { p with state } } created
      (Registry.hookUsers (s.registry.modify key fun p => { p with state })) createdHook where
  breakpoints := h.breakpoints.congr (s.registry.breakpointUsers_update key state)
    (fun _ => Iff.rfl) (fun _ => Iff.rfl) fun _ hb => hb
  hooks := h.hooks.congr (s.registry.hookUsers_update key state) (fun _ => Iff.rfl)
    (fun _ => Iff.rfl) fun _ hb => hb
  fresh := h.fresh
  numbered {key' q} hq := by
    have hq' : (s.registry.modify key fun p => { p with state }).lookup key' = some q := hq
    rw [Table.lookup_modify] at hq'
    split at hq'
    next =>
      obtain ⟨p, hp, rfl⟩ := Option.map_eq_some_iff.mp hq'
      exact ⟨(h.numbered hp).events, (h.numbered hp).decisions⟩
    next => exact h.numbered hq'
  unwronged := h.unwronged
  marking := h.marking

/-- The tables of a failed plugin are drained. -/
theorem Points.Core.quarantine (h : s.Core created s.registry.hookUsers createdHook)
    {key : PluginKey} {p : Plugin} (hp : s.registry.lookup key = some p) :
    Points.Core (Points.releaseOwnership
      { s with registry := s.registry.insert key { p.drain with quarantined := true } } p) created
      (Registry.hookUsers (s.registry.insert key { p.drain with quarantined := true }))
      createdHook := by
  refine h.release p _ (fun {key' q} hq => ?_)
    (fun id => Registry.breakpointUsers_insert hp { p.drain with quarantined := true } id)
    fun a => Registry.hookUsers_insert hp { p.drain with quarantined := true } a
  by_cases hkey : key' = key
  · rw [hkey, AList.lookup_insert] at hq
    cases hq
    exact ⟨nofun, nofun⟩
  · rw [AList.lookup_insert_ne hkey] at hq
    exact h.numbered hq

/-- The host is as before and has removed native points at most. -/
structure Points.SameHost (s t : Points) : Prop where
  /-- The plugins. -/
  registry : t.registry = s.registry
  /-- The breakpoint leases. -/
  breakpoints : t.breakpoints = s.breakpoints
  /-- The stored address. -/
  scriptSet : t.scriptSet = s.scriptSet
  /-- The place in an operation. -/
  pc : t.pc = s.pc
  /-- The ids given. -/
  nextNative : t.nextNative = s.nextNative
  /-- No breakpoint is new. -/
  native : ∀ id ∈ t.native, id ∈ s.native
  /-- No breakpoint is wanted anew. -/
  wanted : t.wanted ⊆ s.wanted

theorem Points.SameHost.refl (s : Points) : s.SameHost s :=
  ⟨rfl, rfl, rfl, rfl, rfl, fun _ hid => hid, Finset.Subset.refl _⟩

theorem Points.sameHost_nativeRemove (s : Points) (id : UInt32) :
    s.SameHost (s.nativeRemove id).1 ∧ id ∉ (s.nativeRemove id).1.native := by
  rw [Points.nativeRemove]
  split
  next =>
    exact ⟨⟨rfl, rfl, rfl, rfl, rfl, fun _ hj => (AList.mem_erase.mp hj).2,
      Finset.erase_subset id _⟩, fun hid => (AList.mem_erase.mp hid).1 rfl⟩
  next hid => exact ⟨.refl s, hid⟩

theorem Points.sameHost_nativeHookRemove (s : Points) (address : UInt64) :
    s.SameHost (s.nativeHookRemove address) ∧
      address ∉ (s.nativeHookRemove address).nativeHooks := by
  rw [Points.nativeHookRemove]
  split
  next =>
    exact ⟨⟨rfl, rfl, rfl, rfl, rfl, fun _ hid => hid, Finset.Subset.refl _⟩,
      Finset.notMem_erase address _⟩
  next hmem => exact ⟨.refl s, hmem⟩

theorem Points.not_marking {s : Points} (hserver : s.server = none) {id : UInt32} :
    ¬ s.Marking id := by
  rw [Points.Marking, hserver]
  nofun

/-- The host removes a breakpoint that nobody wants. -/
theorem Points.Core.remove (h : s.Core created holders createdHook) (hserver : s.server = none)
    {id : UInt32} (hwanted : id ∉ s.wanted) (hlookup : s.breakpoints.table.lookup id = none) :
    (s.nativeRemove id).1.Core created holders createdHook := by
  have husers : s.registry.breakpointUsers id = 0 := h.breakpoints.users_eq_zero.mpr hlookup
  rw [Points.nativeRemove]
  split
  next =>
    refine ⟨h.breakpoints.remove (k := id) (fun j => ?_) (fun j => ?_) fun _ hb _ => hb, h.hooks,
      fun hj => ?_, h.numbered, ?_, fun hm => absurd hm (not_marking hserver)⟩
    · exact AList.mem_erase.trans and_comm
    · exact Finset.mem_erase.trans and_comm
    · exact h.fresh (hj.imp_left fun hj => (AList.mem_erase.mp hj).2)
    · simp [h.unwronged, hwanted, husers]
  next => exact h

/-- The host removes a Hook that nobody wants. -/
theorem Points.Core.removeHook (h : s.Core created s.registry.hookUsers createdHook)
    {address : UInt64} (hwanted : address ∉ s.wantedHooks)
    (hlookup : s.hooks.table.lookup address = none) :
    (s.nativeHookRemove address).Core created s.registry.hookUsers createdHook := by
  have husers : s.registry.hookUsers address = 0 := h.hooks.users_eq_zero.mpr hlookup
  rw [Points.nativeHookRemove]
  split
  next hmem =>
    refine ⟨h.breakpoints, h.hooks.remove (k := address) (fun j => ?_) (fun j => ?_)
      fun _ hb _ => hb, h.fresh, h.numbered, ?_, h.marking⟩
    · exact Finset.mem_erase.trans and_comm
    · exact Finset.mem_erase.trans and_comm
    · simp [h.unwronged, hwanted, husers]
  next => exact h

/-- A removed breakpoint is taken off the queue. -/
theorem Points.Core.unqueue (h : s.Core created holders createdHook) {id : UInt32}
    (hid : id ∉ s.native) :
    Points.Core { s with breakpoints := s.breakpoints.unqueue id } created holders createdHook :=
  ⟨h.breakpoints.unqueue hid, h.hooks, fun hj => h.fresh (hj.imp_right Leases.Knows.of_unqueue),
    h.numbered, h.unwronged, h.marking⟩

end

/-! ## Operations from an idle thread -/

/-- No address is stored unless an operation needs it. -/
theorem Points.Ok.scriptSet_eq {s : Points} (h : s.Ok) (hpc : s.pc.stored = none) :
    s.scriptSet = 0 := by
  by_contra hne
  obtain ⟨b, hb, -⟩ := h.scriptSet hne
  rw [hpc] at hb
  cases hb

/-- What holds between two operations. -/
theorem Points.Ok.idle {s : Points} (h : s.Ok) (hpc : s.pc = .idle) :
    s.Core none s.registry.hookUsers none ∧ s.scriptSet = 0 := by
  have hcore := h.core
  rw [hpc] at hcore
  exact ⟨hcore, h.scriptSet_eq (by rw [hpc]; rfl)⟩

theorem Points.Ok.of_idle {s : Points} (hpc : s.pc = .idle)
    (h : s.Core none s.registry.hookUsers none) (hset : s.scriptSet = 0) : s.Ok where
  core := by
    rw [hpc]
    exact h
  filed a := by
    rw [hpc]
    exact Nat.zero_le _
  scriptSet hne := absurd hset hne
  pc := by
    rw [hpc]
    trivial

/-- The host's own `bp_remove` of a breakpoint that nobody wants. -/
theorem Points.Core.bpRemove {s t : Points} {created : Option UInt32} {holders : UInt64 → Nat}
    {createdHook : Option UInt64} (h : s.Core created holders createdHook) {id : UInt32}
    (hwanted : id ∉ s.wanted) (hlookup : s.breakpoints.table.lookup id = none) {reply : Reply}
    (hserver : reply.served = true → s.server = none) {ok : Bool}
    (ht : s.bpRemove id reply = (t, ok)) :
    t.Core created holders createdHook ∧ s.SameHost t ∧
      (reply.served = true ∨ ok = true → id ∉ t.native) := by
  rw [Points.bpRemove] at ht
  split at ht
  next hserved =>
    cases ht
    obtain ⟨hsame, hgone⟩ := s.sameHost_nativeRemove id
    exact ⟨h.remove (hserver hserved) hwanted hlookup, hsame, fun _ => hgone⟩
  next hserved =>
    cases ht
    exact ⟨h, .refl s, fun hor => absurd (hor.resolve_right nofun) hserved⟩

/-- The host's own `hook_remove` of a Hook that nobody wants. -/
theorem Points.Core.hookRemove {s t : Points} {created : Option UInt32}
    {createdHook : Option UInt64} (h : s.Core created s.registry.hookUsers createdHook)
    {address : UInt64} (hwanted : address ∉ s.wantedHooks)
    (hlookup : s.hooks.table.lookup address = none) {reply : Reply} {ok : Bool}
    (ht : s.hookRemove address reply = (t, ok)) :
    t.Core created s.registry.hookUsers createdHook ∧ s.SameHost t ∧
      (ok = true → address ∉ t.nativeHooks) := by
  rw [Points.hookRemove] at ht
  split at ht
  next =>
    cases ht
    obtain ⟨hsame, hgone⟩ := s.sameHost_nativeHookRemove address
    exact ⟨h.removeHook hwanted hlookup, hsame, fun _ => hgone⟩
  next =>
    cases ht
    exact ⟨h, .refl s, nofun⟩

/-- A plugin gives up its handler for a breakpoint. -/
theorem Points.Core.unbind {s : Points} (h : s.Core none s.registry.hookUsers none)
    {key : PluginKey} {p : Plugin} (hp : s.registry.lookup key = some p) {id : UInt32}
    (hid : id ∈ p.breakpoints) (hset : s.scriptSet = 0) :
    Points.Ok
      { s.unfile key p (.breakpoint id) with
        breakpoints := (s.breakpoints.release id).1
        pc := if (s.breakpoints.release id).2 then .removing id else .idle } := by
  have husers : s.registry.breakpointUsers id ≠ 0 := (Registry.breakpointUsers_pos hp hid).ne'
  obtain ⟨hsound, hgone⟩ := h.breakpoints.release husers (Points.breakpointUsers_unfile hp hid)
  have hlt : id.toNat < s.nextNative :=
    h.fresh (.inr (.inr (h.breakpoints.users_eq_zero.not.mp husers)))
  have hcore : ∀ created : Option UInt32,
      (∀ j, j = id ∧ (s.breakpoints.release id).2 = true → created = some j) →
      Points.Core
        { s.unfile key p (.breakpoint id) with
          breakpoints := (s.breakpoints.release id).1
          pc := if (s.breakpoints.release id).2 then .removing id else .idle }
        created (s.unfile key p (.breakpoint id)).registry.hookUsers none := by
    intro created hcreated
    refine ⟨hsound.congr (fun _ => rfl) (fun _ => Iff.rfl) (fun _ => Iff.rfl) fun j hb => ?_,
      h.hooks.congr (Points.hookUsers_unfile_breakpoint hp id) (fun _ => Iff.rfl)
        (fun _ => Iff.rfl) fun _ hb => hb,
      fun hj => h.fresh (hj.imp_right Leases.Knows.of_release), h.numbered_file hp _, h.unwronged,
      h.marking⟩
    rcases hb with (hb | hb) | hb
    · cases hb
    · exact .inr hb
    · exact .inl (hcreated j hb)
  cases hr : (s.breakpoints.release id).2 with
  | false =>
      refine Points.Ok.of_idle rfl ?_ hset
      have := hcore none fun j hj => by simp [hr] at hj
      rwa [hr] at this
  | true =>
      refine ⟨?_, fun a => Nat.zero_le _, fun hne => absurd hset hne, hlt, hgone hr⟩
      have := hcore (some id) fun j hj => by rw [hj.1]
      rwa [hr] at this

/-- What others do leaves the operation under way as it is. -/
theorem Points.PcOk.congr {s t : Points} {pc : HostPc} (h : s.PcOk pc)
    (hregistry : t.registry = s.registry) (hnext : s.nextNative ≤ t.nextNative)
    (hidAt : ∀ b ∈ pc.unset, (t.idAt b.address).isSome = (s.idAt b.address).isSome)
    (hcreated : ∀ {id}, pc.created = some id → id ∉ s.wanted → id ∉ t.wanted)
    (hlookup : ∀ {id : UInt32}, s.breakpoints.table.lookup id = none →
      t.breakpoints.table.lookup id = none)
    (hhooks : ∀ g ∈ pc.unsetHook, g.address ∈ t.nativeHooks ↔ g.address ∈ s.nativeHooks)
    (hcreatedHook : ∀ {a}, pc.createdHook = some a → a ∉ s.wantedHooks → a ∉ t.wantedHooks) :
    t.PcOk pc := by
  cases pc with
  | idle => trivial
  | listed b | armed b =>
      obtain ⟨hkey, haddress, hexisted⟩ := h
      exact ⟨hregistry ▸ hkey, haddress, hexisted.trans (hidAt b rfl).symm⟩
  | set b id | disarmed b id =>
      obtain ⟨hkey, hlt, hnew⟩ := h
      refine ⟨hregistry ▸ hkey, hlt.trans_le hnext, fun hexisted => ?_⟩
      refine ⟨hcreated ?_ (hnew hexisted).1, hlookup (hnew hexisted).2⟩
      simp [HostPc.created, hexisted]
  | removing id =>
      obtain ⟨hlt, hwanted, hnone⟩ := h
      exact ⟨hlt.trans_le hnext, hcreated rfl hwanted, hlookup hnone⟩
  | hookListed g r =>
      obtain ⟨hkey, haddress, hexisted⟩ := h
      exact ⟨hregistry ▸ hkey, haddress, by rw [hexisted, decide_eq_decide, hhooks g rfl]⟩
  | hookFiled g slot =>
      obtain ⟨hp, hexisted⟩ := h
      exact ⟨hregistry ▸ hp, by rw [hexisted, decide_eq_decide, hhooks g rfl]⟩
  | hookSet g slot =>
      intro hexisted
      exact hcreatedHook (by simp [HostPc.createdHook, hexisted]) (h hexisted)

theorem Points.PcOk.existed {s : Points} {pc : HostPc} (h : s.PcOk pc) {b : Binding}
    (hb : b ∈ pc.unset) : b.existed = (s.idAt b.address).isSome := by
  cases pc with
  | listed b' | armed b' =>
      cases hb
      exact h.2.2
  | idle | set | disarmed | removing | hookListed | hookFiled | hookSet => cases hb

/-- What others do keeps the leases and the operation under way. -/
theorem Points.Ok.congr {s t : Points} (h : s.Ok) (hpc : t.pc = s.pc)
    (hregistry : t.registry = s.registry) (hset : t.scriptSet = s.scriptSet)
    (hcore : ∀ created holders createdHook, s.Core created holders createdHook →
      created = s.pc.created → createdHook = s.pc.createdHook →
        t.Core created holders createdHook)
    (hpcok : s.PcOk s.pc → t.PcOk s.pc) : t.Ok where
  core := by
    rw [hpc, hregistry]
    exact hcore _ _ _ h.core rfl rfl
  filed := by
    rw [hpc, hregistry]
    exact h.filed
  scriptSet := by
    rw [hpc, hset]
    exact h.scriptSet
  pc := by
    rw [hpc]
    exact hpcok h.pc

section

variable {s : Points} {created : Option UInt32} {holders : UInt64 → Nat}
  {createdHook : Option UInt64}

end

/-- A number that is not given yet is not in use. -/
theorem Points.Core.unknown {s : Points} {created : Option UInt32} {holders : UInt64 → Nat}
    {createdHook : Option UInt64} (h : s.Core created holders createdHook)
    (hnext : s.nextNative < 2 ^ 32) :
    (UInt32.ofNat s.nextNative).toNat = s.nextNative ∧ UInt32.ofNat s.nextNative ∉ s.native ∧
      UInt32.ofNat s.nextNative ∉ s.breakpoints.pending ∧
        s.breakpoints.table.lookup (UInt32.ofNat s.nextNative) = none := by
  have htoNat : (UInt32.ofNat s.nextNative).toNat = s.nextNative :=
    UInt32.toNat_ofNat_of_lt' hnext
  have hnot := fun hid => Nat.lt_irrefl _ (htoNat ▸ h.fresh hid)
  refine ⟨htoNat, fun hid => hnot (.inl hid), fun hid => hnot (.inr (.inl hid)), ?_⟩
  by_contra hne
  exact hnot (.inr (.inr hne))

theorem Points.ok_init : Points.init.Ok := by
  refine .of_idle rfl ⟨?_, ?_, ?_, nofun, rfl, nofun⟩ rfl
  · exact Leases.Sound.init.congr (fun _ => rfl) (fun _ => by simp [Points.init])
      (fun _ => by simp [Points.init]) nofun
  · exact Leases.Sound.init.congr (fun _ => rfl) (fun _ => by simp [Points.init])
      (fun _ => by simp [Points.init]) nofun
  · rintro id (hid | hid | hid)
    · exact absurd hid (AList.notMem_empty id)
    · cases hid
    · exact absurd rfl hid

end PinBridge.Host
