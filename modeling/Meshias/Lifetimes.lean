import Meshias.Prefixes
import Meshias.Traffic

/-!
# How entries age

`info` and `active` leave out when an entry expires.  Here is the other half of an entry, its
timer: the flag, the alarm and what the alarm is going to do.

* `Timer`, `MshRoute.timer` — the flag, the action and the alarm block of a route.
* `Timer.Renewed` — `msh_route_set_lifetime` has just run.
* `Ages s t` — from `s` to `t` entries are only added or renewed; none leaves, none is marked
  invalid.
* `Resets s t ps` — in any table, exactly the entries of the objects `ps` are reset to
  `ACTIVE_ROUTE_TIMEOUT`.
* `Refreshed s t a` — exactly the entries of the addresses `a` are renewed, for
  `ACTIVE_ROUTE_TIMEOUT`.

Principal results: `ages_step` — every turn except an alarm run; `refreshed_updateRoute` — the
refresh by a data packet or a retry; `routing_table_runAlarm_unset`,
`routing_table_runAlarm_destroy` — the alarm of an entry.
-/

set_option autoImplicit false

namespace Meshias

variable {s t u : MshData} {ps qs : List Nat}

/-! ## Timers -/

/-- The fields that `msh_route_set_lifetime` and `__msh_route_alarm_cb` write. -/
structure Timer where
  valid : Bool
  action : U32
  alarm : AlarmBlock
  deriving DecidableEq, Repr

def MshRoute.timer (r : MshRoute) : Timer where
  valid := r.hasFlag RTFLAG_VALID_ENTRY
  action := r.alarm_action
  alarm := r.alarm

/-- The lifetime has been set at `now`, for `miliseconds`. -/
structure Timer.RenewedFor (now : Nat) (miliseconds : U32) (τ : Timer) : Prop where
  valid : τ.valid = true
  action : τ.action = RTACTION_UNSET_VALID_ENTRY
  tv : τ.alarm.tv = now + miliseconds.toNat * 1000
  pending : τ.alarm.node.isSome = true

def Timer.Renewed (now : Nat) (τ : Timer) : Prop := ∃ miliseconds, τ.RenewedFor now miliseconds

theorem timer_mshRouteSetLifetime {r : MshRoute} (h : r.hasFlag RTFLAG_UNMANAGED = false)
    (now rank : Nat) (lifetime : U32) :
    (mshRouteSetLifetime now rank r lifetime).timer.RenewedFor now lifetime := by
  rw [mshRouteSetLifetime_eq now rank lifetime h]
  exact ⟨by simp +decide [MshRoute.timer, hasFlag_eq], rfl, rfl, rfl⟩

/-! ## Ageing -/

/-- One entry after an operation that leaves it or renews it. -/
structure MshRoute.AgesTo (now : Nat) (r r' : MshRoute) : Prop where
  self : r'.self = r.self
  dst_ip : r'.dst_ip = r.dst_ip
  timer : r'.timer = r.timer ∨ r'.timer.Renewed now

theorem MshRoute.AgesTo.refl (now : Nat) (r : MshRoute) : r.AgesTo now r := ⟨rfl, rfl, .inl rfl⟩

theorem MshRoute.AgesTo.trans {now : Nat} {r r' r'' : MshRoute} (h : r.AgesTo now r')
    (h' : r'.AgesTo now r'') : r.AgesTo now r'' where
  self := h'.self.trans h.self
  dst_ip := h'.dst_ip.trans h.dst_ip
  timer := by
    rcases h'.timer with hsame | hnew
    · rw [hsame]; exact h.timer
    · exact .inr hnew

/-- No entry leaves and none is marked invalid; a new one has just been renewed. -/
structure Ages (s t : MshData) : Prop where
  now : t.os.now = s.os.now
  objects : s.objects ≤ t.objects
  forth : ∀ r ∈ s.routing_table, ∃ r' ∈ t.routing_table, r.AgesTo s.os.now r'
  back : ∀ r' ∈ t.routing_table, (∃ r ∈ s.routing_table, r.AgesTo s.os.now r') ∨
    s.objects ≤ r'.self ∧ r'.timer.Renewed s.os.now

theorem Ages.of_table (htbl : t.routing_table = s.routing_table) (hnow : t.os.now = s.os.now)
    (hobj : s.objects ≤ t.objects) : Ages s t where
  now := hnow
  objects := hobj
  forth r hr := ⟨r, by rw [htbl]; exact hr, .refl _ r⟩
  back r hr := .inl ⟨r, by rw [← htbl]; exact hr, .refl _ r⟩

theorem Ages.refl (s : MshData) : Ages s s := .of_table rfl rfl le_rfl

theorem Ages.trans (h : Ages s t) (h' : Ages t u) : Ages s u where
  now := h'.now.trans h.now
  objects := h.objects.trans h'.objects
  forth r hr := by
    obtain ⟨r', hr', hage⟩ := h.forth r hr
    obtain ⟨r'', hr'', hage'⟩ := h'.forth r' hr'
    rw [h.now] at hage'
    exact ⟨r'', hr'', hage.trans hage'⟩
  back r'' hr'' := by
    rcases h'.back r'' hr'' with ⟨r', hr', hage'⟩ | ⟨hself, hnew⟩
    · rw [h.now] at hage'
      rcases h.back r' hr' with ⟨r, hr, hage⟩ | ⟨hself, hnew⟩
      · exact .inl ⟨r, hr, hage.trans hage'⟩
      · refine .inr ⟨by rw [hage'.self]; exact hself, ?_⟩
        rcases hage'.timer with hsame | hnew'
        · rw [hsame]; exact hnew
        · exact hnew'
    · rw [h.now] at hnew
      exact .inr ⟨h.objects.trans hself, hnew⟩

/-- A write through a pointer that leaves every route's timer, or renews it. -/
theorem ages_modifyRoute (p : Nat) {f : MshRoute → MshRoute}
    (hf : ∀ r : MshRoute, r.AgesTo s.os.now (f r)) : Ages s (s.modifyRoute p f) := by
  have hupd : ∀ r : MshRoute, r.AgesTo s.os.now (if r.self = p then f r else r) := by
    intro r
    split
    · exact hf r
    · exact .refl _ r
  refine ⟨rfl, le_rfl, fun r hr => ⟨_, List.mem_map_of_mem hr, hupd r⟩, fun r' hr' => ?_⟩
  obtain ⟨r, hr, rfl⟩ := List.mem_map.1 hr'
  exact .inl ⟨r, hr, hupd r⟩

theorem ages_addPrecursor (s : MshData) (p : Nat) (a : InAddr) :
    Ages s (s.modifyRoute p (mshRouteAddPrecursor · a)) := by
  refine ages_modifyRoute p fun r => ?_
  unfold mshRouteAddPrecursor
  split
  · exact .refl _ r
  · exact ⟨rfl, rfl, .inl rfl⟩

theorem ages_routeSetLifetime (s : MshData) (p : Nat) (lifetime : U32) :
    Ages s (s.routeSetLifetime p lifetime) := by
  have hset : ∀ r : MshRoute, r.AgesTo s.os.now
      (mshRouteSetLifetime s.os.now s.alarms r lifetime) := by
    intro r
    have hkeep := keeps_setLifetime s.os.now s.alarms lifetime
    cases hman : r.hasFlag RTFLAG_UNMANAGED with
    | true =>
      have hid : mshRouteSetLifetime s.os.now s.alarms r lifetime = r := by
        simp [mshRouteSetLifetime, hman]
      rw [hid]
      exact .refl _ r
    | false =>
      exact ⟨hkeep.self r, hkeep.dst_ip r, .inr ⟨lifetime, timer_mshRouteSetLifetime hman _ _ _⟩⟩
  exact (ages_modifyRoute p hset).trans (.of_table rfl rfl le_rfl)

theorem timer_mshRouteSetNextHop (r : MshRoute) (a : InAddr) :
    (mshRouteSetNextHop r a).timer = r.timer := by
  have hvalid := valid_setNextHop r a
  have hset : mshRouteSetFlag r RTFLAG_HAS_NEXTHOP =
      { r with flags := r.flags ||| RTFLAG_HAS_NEXTHOP } := rfl
  have hrest : (mshRouteSetNextHop r a).alarm_action = r.alarm_action ∧
      (mshRouteSetNextHop r a).alarm = r.alarm := by
    simp only [mshRouteSetNextHop, nexthopUpdatedCb, hset]
    cases r.updated_cb with
    | false => exact ⟨rfl, rfl⟩
    | true =>
      cases r.nlroute with
      | none => exact ⟨rfl, rfl⟩
      | some q => simp only [if_true]; split <;> exact ⟨rfl, rfl⟩
  rw [MshRoute.timer, hvalid, hrest.1, hrest.2, MshRoute.timer]

theorem timer_setFlag_validDestSeqNum (r : MshRoute) :
    (mshRouteSetFlag r RTFLAG_VALID_DEST_SEQ_NUM).timer = r.timer := by
  have hflag : hasBit (r.flags ||| RTFLAG_VALID_DEST_SEQ_NUM) RTFLAG_VALID_ENTRY =
      hasBit r.flags RTFLAG_VALID_ENTRY := hasBit_or (by decide)
  have hset : mshRouteSetFlag r RTFLAG_VALID_DEST_SEQ_NUM =
      { r with flags := r.flags ||| RTFLAG_VALID_DEST_SEQ_NUM } := rfl
  simp only [MshRoute.timer, hset, hasFlag_eq, hflag]

theorem agesTo_rreqUpdate (now : Nat) (r : MshRoute) (p : InAddr) (hop : U8) (seq : U32) :
    r.AgesTo now (rreqUpdate p hop seq r) := by
  have hkeep := keeps_rreqUpdate p hop seq
  refine ⟨hkeep.self r, hkeep.dst_ip r, .inl ?_⟩
  have hbase := (timer_mshRouteSetNextHop (mshRouteSetFlag r RTFLAG_VALID_DEST_SEQ_NUM) p).trans
    (timer_setFlag_validDestSeqNum r)
  simp only [rreqUpdate]
  split <;> exact hbase

theorem agesTo_rrepUpdate (now : Nat) (r : MshRoute) (p : InAddr) (rrep : AodvRrep) :
    r.AgesTo now (rrepUpdate p rrep r) := by
  have hkeep := keeps_rrepUpdate p rrep
  refine ⟨hkeep.self r, hkeep.dst_ip r, .inl ?_⟩
  exact (timer_mshRouteSetNextHop _ p).trans (timer_setFlag_validDestSeqNum _)

/-- An insertion, seen from the state before the route was allocated. -/
theorem ages_routingTableAdd (h : Wf t) {route : MshRoute} (hf : Fresh t route)
    (hnew : t.entry route.dst_ip = none) (htbl : t.routing_table = s.routing_table)
    (hnow : t.os.now = s.os.now) (hobj : s.objects ≤ t.objects) (hself : s.objects ≤ route.self) :
    Ages s (routingTableAdd t route).1 := by
  rw [routingTableAdd_eq h hnew]
  split
  · exact .of_table htbl hnow hobj
  · rw [addInstalled, routingTableInstall_eq hf]
    have hos : (rtnlRouteAdd t.os (routeRequest t.net_iface route)).1.now = t.os.now := by
      dsimp only [rtnlRouteAdd]
      split
      · rfl
      · split <;> rfl
    refine ⟨hos.trans hnow, hobj, fun r hr => ⟨r, ?_, .refl _ r⟩, fun r hr => ?_⟩
    · exact List.mem_cons_of_mem _ (by rw [htbl]; exact hr)
    · rcases List.mem_cons.1 hr with rfl | hr
      · right
        rw [installed_eq hf.managed]
        exact ⟨hself, ACTIVE_ROUTE_TIMEOUT, by simp +decide [MshRoute.timer, hasFlag_eq], rfl,
          by simp [MshRoute.timer, hos, hnow], rfl⟩
      · exact .inl ⟨r, by rw [← htbl]; exact hr, .refl _ r⟩

/-! ## The handlers -/

theorem ages_aodvRreqPrevHop (h : Wf s) (p : InAddr) : Ages s (aodvRreqPrevHop s p).1 := by
  cases hr : s.entry p with
  | some r => rw [aodvRreqPrevHop_found h hr]; exact ages_routeSetLifetime _ _ _
  | none =>
    rw [aodvRreqPrevHop_new h hr]
    exact ages_routingTableAdd (h.alloc (Nat.le_succ _)) (fresh_prevHopRoute h p) hr rfl rfl
      (Nat.le_succ _) le_rfl

theorem ages_aodvUpdateOrig (h : Wf s) (p : InAddr) (hop : U8) (orig : InAddr) (seq : U32) :
    Ages s (aodvUpdateOrig s p hop orig seq).1 := by
  cases hr : s.entry orig with
  | some r =>
    have hmod : Ages s (s.modifyRoute r.self (rreqUpdate p hop seq)) :=
      ages_modifyRoute _ fun r => agesTo_rreqUpdate _ r p hop seq
    rw [aodvUpdateOrig_found p hop orig seq h hr]
    split
    · exact hmod.trans (ages_routeSetLifetime _ _ _)
    · exact hmod
  | none =>
    rw [aodvUpdateOrig_new p hop orig seq h hr]
    exact ages_routingTableAdd (wf_origAlloc h) (fresh_origNew p hop orig seq h) hr rfl rfl
      (Nat.le_succ _) le_rfl

theorem ages_aodvAnswerToRreq (s : MshData) (rreq : AodvRreq) (p : InAddr) (o : Nat) :
    Ages s (aodvAnswerToRreq s rreq p o).1 := by
  by_cases hdest : rreq.dest_ip_addr = s.ip_addr
  · rw [aodvAnswerToRreq_own rreq p o hdest]
    dsimp only
    split <;> exact .of_table rfl rfl le_rfl
  · unfold aodvAnswerToRreq
    rw [if_neg hdest]
    cases routingTableFindByIp s.routing_table rreq.dest_ip_addr with
    | none => exact .refl s
    | some r =>
      dsimp only
      split
      · exact (ages_addPrecursor s _ _).trans (ages_addPrecursor _ _ _)
      · exact .refl s

theorem ages_rreqReply (s : MshData) (pkt : AodvPkt) (rreq : AodvRreq) (p : InAddr) (o : Nat) :
    Ages s (rreqReply s pkt rreq p o) := by
  unfold rreqReply
  split
  · rw [aodvForwardRreq_eq]
    exact (ages_aodvAnswerToRreq s rreq p o).trans (.of_table rfl rfl le_rfl)
  · exact ages_aodvAnswerToRreq s rreq p o

theorem ages_aodvProcessRreq (h : Wf s) (pkt : AodvPkt) : Ages s (aodvProcessRreq s pkt) := by
  have harr : Ages s (rreqArrived s pkt) := ages_aodvRreqPrevHop h _
  have hpush : Ages (rreqArrived s pkt) (rreqBuffered s pkt) :=
    .of_table rfl rfl (Nat.le_succ _)
  obtain ⟨o, heq⟩ := aodvProcessRreq_eq pkt h
  rw [heq]
  split
  · exact harr
  · exact ((harr.trans hpush).trans (ages_aodvUpdateOrig (wf_rreqBuffered pkt h) _ _ _ _)).trans
      (ages_rreqReply _ _ _ _ _)

theorem ages_aodvFindDest (h : Wf s) (p : InAddr) (rrep : AodvRrep) :
    Ages s (aodvFindDest s p rrep).1 := by
  cases hr : s.entry rrep.dest_ip_addr with
  | some r => rw [aodvFindDest_found p rrep h hr]; exact .refl s
  | none =>
    rw [aodvFindDest_new p rrep h hr]
    exact ages_routingTableAdd (h.alloc (Nat.le_succ _)) (fresh_destRoute p rrep h) hr rfl rfl
      (Nat.le_succ _) le_rfl

theorem ages_destUpdated (h : Wf s) (p : InAddr) (rrep : AodvRrep) :
    Ages s (destUpdated s p rrep) :=
  (ages_aodvFindDest h p rrep).trans
    ((ages_modifyRoute _ fun r => agesTo_rrepUpdate _ r p rrep).trans (ages_routeSetLifetime _ _ _))

theorem ages_refreshNextHop (s : MshData) (a : InAddr) : Ages s (refreshNextHop s a) := by
  unfold refreshNextHop
  cases routingTableFindByIp s.routing_table a with
  | none => exact .refl s
  | some r =>
    dsimp only
    split
    · exact ages_routeSetLifetime _ _ _
    · exact .refl s

theorem ages_aodvForwardRrep (h : Wf s) (pkt : AodvPkt) (rrep : AodvRrep) (ph d : Nat) :
    Ages s (aodvForwardRrep s pkt rrep ph d) := by
  rw [aodvForwardRrep_eq pkt rrep ph d h]
  cases s.entry rrep.orig_ip_addr with
  | none => exact .refl s
  | some r =>
    have hpass : Ages s (rrepPassed s pkt rrep d r.next_hop) := by
      have hsend : Ages s (aodvPktSend s ⟨aodvPktPrepareRrep rrep, r.next_hop, pkt.ttl - 1⟩) :=
        .of_table rfl rfl le_rfl
      unfold rrepPassed
      dsimp only
      split
      · exact hsend.trans (ages_addPrecursor _ _ _)
      · exact hsend
    exact (hpass.trans (ages_refreshNextHop _ _)).trans (ages_addPrecursor _ _ _)

theorem ages_aodvProcessRrep (h : Wf s) (pkt : AodvPkt) : Ages s (aodvProcessRrep s pkt) := by
  have harr : Ages s (rrepArrived s pkt) := by
    rw [rrepArrived_eq]
    exact ages_aodvRreqPrevHop h _
  have hupd : Ages s (rrepUpdated s pkt) := harr.trans (ages_destUpdated (wf_rrepArrived pkt h) _ _)
  cases rrepProcessed pkt h with
  | refused _ ht =>
    rw [ht, ← rrepArrived_eq]
    exact harr
  | ended _ _ ht =>
    rw [ht]
    exact hupd.trans (.of_table rfl rfl le_rfl)
  | forwarded _ _ ph d ht =>
    rw [ht]
    exact hupd.trans (ages_aodvForwardRrep (wf_rrepUpdated pkt h) _ _ _ _)

/-! ## Lookups by pointer -/

/-- The entry that a lookup finds, as a pointer. -/
def pointerTo (table : List MshRoute) (addr : InAddr) : Option Nat :=
  (routingTableFindByIp table addr).map (·.self)

/-- The entries that using the route to `addr` refreshes: that route and the one to its next hop. -/
def refreshedFor (table : List MshRoute) (addr : InAddr) : List Nat :=
  match routingTableFindByIp table addr with
  | some route =>
    route.self ::
      if route.next_hop = addr then [] else (pointerTo table route.next_hop).toList
  | none => []

/-- A change of the entries that the lookups cannot see. -/
theorem routingTableFindByIp_map {f : MshRoute → MshRoute} (hnet : ∀ r, (f r).net = r.net)
    (table : List MshRoute) (addr : InAddr) :
    routingTableFindByIp (table.map f) addr = (routingTableFindByIp table addr).map f := by
  unfold routingTableFindByIp routingTableFind
  rw [List.find?_map]
  congr 2
  funext r
  have hmatches : (f r).Matches { self := 0, dst_ip := addr } ↔
      r.Matches { self := 0, dst_ip := addr } := by
    rw [matches_iff, matches_iff, hnet]
  rw [Function.comp_apply, Bool.eq_iff_iff, Bool.not_eq_true', Bool.not_eq_true']
  exact hmatches

/-! ## Entries that are reset -/

/-- One entry, before and after; `hit` tells whether its lifetime has been set. -/
structure MshRoute.ResetTo (now : Nat) (hit : Prop) (r r' : MshRoute) : Prop where
  self : r'.self = r.self
  net : r'.net = r.net
  next_hop : r'.next_hop = r.next_hop
  unmanaged : r'.hasFlag RTFLAG_UNMANAGED = r.hasFlag RTFLAG_UNMANAGED
  reset : hit → r.hasFlag RTFLAG_UNMANAGED = false → r'.timer.RenewedFor now ACTIVE_ROUTE_TIMEOUT
  other : ¬ hit → r'.timer = r.timer

theorem MshRoute.ResetTo.dst_ip {now : Nat} {hit : Prop} {r r' : MshRoute}
    (h : r.ResetTo now hit r') : r'.dst_ip = r.dst_ip :=
  congrArg Prefixes.Net.addr h.net

/-- The entries of the objects `ps` have been reset, in place. -/
structure Resets (s t : MshData) (ps : List Nat) : Prop where
  now : t.os.now = s.os.now
  table : ∃ f : MshRoute → MshRoute, t.routing_table = s.routing_table.map f ∧
    ∀ r : MshRoute, r.ResetTo s.os.now (r.self ∈ ps) (f r)

theorem Resets.of_table (htbl : t.routing_table = s.routing_table) (hnow : t.os.now = s.os.now) :
    Resets s t [] where
  now := hnow
  table := ⟨id, by rw [List.map_id]; exact htbl, fun r =>
    ⟨rfl, rfl, rfl, rfl, fun hmem => absurd hmem List.not_mem_nil, fun _ => rfl⟩⟩

theorem Resets.trans (h : Resets s t ps) (h' : Resets t u qs) : Resets s u (ps ++ qs) := by
  obtain ⟨f, hf, hreset⟩ := h.table
  obtain ⟨g, hg, hreset'⟩ := h'.table
  refine ⟨h'.now.trans h.now, fun r => g (f r), ?_, fun r => ?_⟩
  · rw [hg, hf, List.map_map]
    rfl
  · have hfirst := hreset r
    have hsecond := hreset' (f r)
    rw [hfirst.self, h.now] at hsecond
    refine ⟨hsecond.self.trans hfirst.self, hsecond.net.trans hfirst.net,
      hsecond.next_hop.trans hfirst.next_hop, hsecond.unmanaged.trans hfirst.unmanaged, ?_, ?_⟩
    · intro hmem hmanaged
      by_cases hlater : r.self ∈ qs
      · exact hsecond.reset hlater (hfirst.unmanaged.trans hmanaged)
      · rw [hsecond.other hlater]
        exact hfirst.reset ((List.mem_append.1 hmem).resolve_right hlater) hmanaged
    · intro hmem
      rw [List.mem_append, not_or] at hmem
      exact (hsecond.other hmem.2).trans (hfirst.other hmem.1)

theorem Resets.pointerTo_eq (h : Resets s t ps) (addr : InAddr) :
    pointerTo t.routing_table addr = pointerTo s.routing_table addr := by
  obtain ⟨f, hf, hreset⟩ := h.table
  unfold pointerTo
  rw [hf, routingTableFindByIp_map (fun r => (hreset r).net), Option.map_map]
  exact Option.map_congr fun r _ => (hreset r).self

theorem Resets.refreshedFor_eq (h : Resets s t ps) (addr : InAddr) :
    refreshedFor t.routing_table addr = refreshedFor s.routing_table addr := by
  have hpointer := h.pointerTo_eq
  obtain ⟨f, hf, hreset⟩ := h.table
  unfold refreshedFor
  rw [hf, routingTableFindByIp_map (fun r => (hreset r).net), ← hf]
  cases routingTableFindByIp s.routing_table addr with
  | none => rfl
  | some r =>
    simp only [Option.map_some]
    rw [(hreset r).self, (hreset r).next_hop, hpointer]

/-- **`msh_route_set_lifetime`** with `ACTIVE_ROUTE_TIMEOUT`. -/
theorem resets_routeSetLifetime (s : MshData) (p : Nat) :
    Resets s (s.routeSetLifetime p ACTIVE_ROUTE_TIMEOUT) [p] := by
  refine ⟨rfl, fun r => if r.self = p then
    mshRouteSetLifetime s.os.now s.alarms r ACTIVE_ROUTE_TIMEOUT else r, rfl, fun r => ?_⟩
  rw [List.mem_singleton]
  by_cases hself : r.self = p
  · simp only [if_pos hself]
    cases hmanaged : r.hasFlag RTFLAG_UNMANAGED with
    | true =>
      have hsame : mshRouteSetLifetime s.os.now s.alarms r ACTIVE_ROUTE_TIMEOUT = r := by
        simp [mshRouteSetLifetime, hmanaged]
      rw [hsame]
      exact ⟨rfl, rfl, rfl, rfl, fun _ hc => absurd (hmanaged.symm.trans hc) (by decide),
        fun hc => absurd hself hc⟩
    | false =>
      have hset := timer_mshRouteSetLifetime hmanaged s.os.now s.alarms ACTIVE_ROUTE_TIMEOUT
      refine ⟨?_, ?_, ?_, ?_, fun _ _ => hset, fun hc => absurd hself hc⟩ <;>
        rw [mshRouteSetLifetime_eq s.os.now s.alarms ACTIVE_ROUTE_TIMEOUT hmanaged]
      · rfl
      · simp +decide [hasFlag_eq]
  · simp only [if_neg hself]
    exact ⟨rfl, rfl, rfl, rfl, fun hc => absurd hc hself, fun _ => rfl⟩

/-- Both halves of `routing_table_update_route`. -/
theorem resets_routingTableRefresh (addr : InAddr) {r : MshRoute}
    (hr : routingTableFindByIp s.routing_table addr = some r) :
    Resets s (routingTableRefresh s r addr) (refreshedFor s.routing_table addr) := by
  have hfirst := resets_routeSetLifetime s r.self
  have hpointer := hfirst.pointerTo_eq r.next_hop
  unfold routingTableRefresh refreshedFor
  rw [hr]
  dsimp only
  by_cases hnext : r.next_hop = addr
  · rw [if_neg (not_not.2 hnext), if_pos hnext]
    exact hfirst
  · rw [if_pos hnext, if_neg hnext, ← hpointer, pointerTo]
    cases routingTableFindByIp (s.routeSetLifetime r.self ACTIVE_ROUTE_TIMEOUT).routing_table
        r.next_hop with
    | none => exact hfirst
    | some q => exact hfirst.trans (resets_routeSetLifetime _ q.self)

/-! ## Refreshes -/

/-- Exactly the entries of the addresses `a` are renewed, for `ACTIVE_ROUTE_TIMEOUT`. -/
structure Refreshed (s t : MshData) (a : InAddr → Bool) : Prop where
  now : t.os.now = s.os.now
  objects : t.objects = s.objects
  forth : ∀ r ∈ s.routing_table, ∃ r' ∈ t.routing_table, r'.self = r.self ∧ r'.dst_ip = r.dst_ip ∧
    if a r.dst_ip then r'.timer.RenewedFor s.os.now ACTIVE_ROUTE_TIMEOUT else r'.timer = r.timer
  back : ∀ r' ∈ t.routing_table, ∃ r ∈ s.routing_table, r.AgesTo s.os.now r'

variable {a a' : InAddr → Bool}

theorem Refreshed.ages (h : Refreshed s t a) : Ages s t where
  now := h.now
  objects := h.objects.ge
  forth r hr := by
    obtain ⟨r', hr', hself, hdst, htimer⟩ := h.forth r hr
    refine ⟨r', hr', hself, hdst, ?_⟩
    split at htimer
    · exact .inr ⟨_, htimer⟩
    · exact .inl htimer
  back r' hr' := .inl (h.back r' hr')

theorem Refreshed.of_table (htbl : t.routing_table = s.routing_table) (hnow : t.os.now = s.os.now)
    (hobj : t.objects = s.objects) (ha : ∀ b, a b = false) : Refreshed s t a where
  now := hnow
  objects := hobj
  forth r hr := ⟨r, by rw [htbl]; exact hr, rfl, rfl, by simp [ha]⟩
  back r hr := ⟨r, by rw [← htbl]; exact hr, .refl _ r⟩

/-- `Refreshed` looks at the table, the clock and the counter of objects only. -/
theorem Refreshed.congr {s' t' : MshData} (h : Refreshed s t a)
    (hs : s'.routing_table = s.routing_table) (hsnow : s'.os.now = s.os.now)
    (hsobj : s'.objects = s.objects) (ht : t'.routing_table = t.routing_table)
    (htnow : t'.os.now = t.os.now) (htobj : t'.objects = t.objects) : Refreshed s' t' a where
  now := by rw [htnow, h.now, hsnow]
  objects := by rw [htobj, h.objects, hsobj]
  forth := by rw [hs, ht, hsnow]; exact h.forth
  back := by rw [hs, ht, hsnow]; exact h.back

/-- The entries that are reset, by their addresses. -/
theorem Resets.refreshed (h : Resets s t ps) (hwf : Wf s) (hobj : t.objects = s.objects)
    (ha : ∀ r ∈ s.routing_table, r.self ∈ ps ↔ a r.dst_ip = true) : Refreshed s t a := by
  obtain ⟨f, hf, hreset⟩ := h.table
  have htimer : ∀ r ∈ s.routing_table, if a r.dst_ip then
      (f r).timer.RenewedFor s.os.now ACTIVE_ROUTE_TIMEOUT else (f r).timer = r.timer := by
    intro r hr
    split
    · rename_i hhit
      exact (hreset r).reset ((ha r hr).2 hhit) (hwf.entry_ok r hr).managed
    · rename_i hmiss
      exact (hreset r).other (mt (ha r hr).1 hmiss)
  refine ⟨h.now, hobj, fun r hr => ⟨f r, ?_, (hreset r).self, (hreset r).dst_ip, htimer r hr⟩, ?_⟩
  · rw [hf]
    exact List.mem_map_of_mem hr
  · intro r' hr'
    rw [hf] at hr'
    obtain ⟨r, hr, rfl⟩ := List.mem_map.1 hr'
    refine ⟨r, hr, (hreset r).self, (hreset r).dst_ip, ?_⟩
    have hr' := htimer r hr
    split at hr'
    · exact .inr ⟨_, hr'⟩
    · exact .inl hr'

theorem mem_refreshedFor (h : Wf s) {r : MshRoute} (hr : r ∈ s.routing_table) (b : InAddr) :
    r.self ∈ refreshedFor s.routing_table b ↔ refreshes s b r.dst_ip = true := by
  -- the object of an entry is found by its address only
  have hobject : ∀ {c : InAddr} {q : MshRoute}, s.entry c = some q →
      (r.self = q.self ↔ r.dst_ip = c) := by
    intro c q hq
    obtain ⟨hqm, rfl⟩ := mem_of_entry hq
    refine ⟨fun hself => ?_, fun hdst => ?_⟩
    · rw [KeyedList.eq_of_key h.table_self_nodup hr hqm hself]
    · rw [KeyedList.eq_of_key h.dst_nodup hr hqm hdst]
  have hown : s.info r.dst_ip = some r.info := info_of_entry (entry_of_mem h hr)
  unfold refreshedFor refreshes pointerTo
  rw [routingTableFindByIp_eq h]
  cases hb : s.entry b with
  | none => simp [info_eq_none.2 hb]
  | some q =>
    rw [info_of_entry hb]
    simp only [Option.any_some, decide_eq_true_eq, List.mem_cons, hobject hb, hown,
      Option.isSome_some, and_true]
    refine or_congr_right' fun hne => ?_
    change _ ↔ r.dst_ip = q.next_hop
    rw [routingTableFindByIp_eq h]
    by_cases hnext : q.next_hop = b
    · rw [if_pos hnext, hnext]
      exact iff_of_false List.not_mem_nil hne
    · rw [if_neg hnext]
      cases hn : s.entry q.next_hop with
      | none =>
        refine iff_of_false List.not_mem_nil fun hdst => ?_
        rw [← hdst, entry_of_mem h hr] at hn
        cases hn
      | some n => simpa using hobject hn

theorem objects_routingTableRefresh (s : MshData) (r : MshRoute) (addr : InAddr) :
    (routingTableRefresh s r addr).objects = s.objects := by
  unfold routingTableRefresh
  dsimp only
  split
  · split <;> rfl
  · rfl

theorem refreshed_routingTableRefresh (h : Wf s) {b : InAddr} {q : MshRoute}
    (hq : s.entry b = some q) :
    Refreshed s (routingTableRefresh s q b) (refreshes s b) := by
  have hfound : routingTableFindByIp s.routing_table b = some q := by
    rw [routingTableFindByIp_eq h]
    exact hq
  have hobjects := objects_routingTableRefresh s q b
  exact (resets_routingTableRefresh b hfound).refreshed h hobjects
    fun r hr => mem_refreshedFor h hr b

/-- The refresh that `routing_table_update_route` makes when it is given no source. -/
theorem refreshed_updateRoute (h : Wf s) (dst : InAddr) :
    Refreshed s (routingTableUpdateRoute s dst 0).1
      (fun b => routeUsable s dst && decide (dst ≠ s.ip_addr) && refreshes s dst b) := by
  have horig : ∀ u : MshData, routingTableUpdateOrig u 0 = u := fun u => by
    simp [routingTableUpdateOrig]
  cases routeUpdated h dst 0 with
  | own hdst hx =>
    rw [hx, horig]
    exact .of_table rfl rfl rfl fun b => by simp [hdst]
  | unknown hne hinact hx =>
    rw [hx]
    exact .of_table rfl rfl rfl fun b => by simp [routeUsable, hne, hinact]
  | expired hne hinact _ hx =>
    rw [hx]
    exact .of_table rfl rfl rfl fun b => by simp [routeUsable, hne, hinact]
  | refreshed hne hact hr hx =>
    have ha : (fun b => routeUsable s dst && decide (dst ≠ s.ip_addr) && refreshes s dst b) =
        refreshes s dst := by
      funext b
      simp [routeUsable, hne, hact]
    rw [hx, ha, horig]
    exact refreshed_routingTableRefresh h hr

/-- With a source to refresh the entries only age. -/
theorem ages_routingTableUpdateOrig (h : Wf s) (orig : InAddr) :
    Ages s (routingTableUpdateOrig s orig) := by
  unfold routingTableUpdateOrig
  split
  · exact .refl s
  · rw [routingTableFindByIp_eq h]
    cases hr : s.entry orig with
    | none => exact .refl s
    | some r => exact (refreshed_routingTableRefresh h hr).ages

theorem ages_routingTableUpdateRoute (h : Wf s) (dst orig : InAddr) :
    Ages s (routingTableUpdateRoute s dst orig).1 := by
  cases routeUpdated h dst orig with
  | own _ hx =>
    rw [hx]
    exact ages_routingTableUpdateOrig h orig
  | unknown _ _ hx =>
    rw [hx]
    exact .refl s
  | expired _ _ _ hx =>
    rw [hx]
    exact .of_table rfl rfl le_rfl
  | refreshed _ _ hr hx =>
    rw [hx]
    obtain ⟨hsame, -, -⟩ := routingTableRefresh_spec h hr
    exact (refreshed_routingTableRefresh h hr).ages.trans
      (ages_routingTableUpdateOrig (hsame.wf h) orig)

theorem objects_aodvFindRoute (s : MshData) (dest : InAddr) (prev_tries : Int) :
    s.objects ≤ (aodvFindRoute s dest none prev_tries).objects := by
  unfold aodvFindRoute
  by_cases hfirst : prev_tries = 0
  · simp only [if_pos hfirst]
    exact Nat.le_succ _
  · simp only [if_neg hfirst]
    exact le_rfl

theorem ages_managePacket (h : Wf s) (nfa : NfqData) : Ages s (managePacket s nfa) := by
  have hlook : ∀ orig, Ages s (packetLookedUp s nfa orig) := ages_routingTableUpdateRoute h _
  cases packetManaged h nfa with
  | passed _ ht => rw [ht]; exact .of_table rfl rfl le_rfl
  | routed orig _ _ _ ht => rw [ht]; exact (hlook orig).trans (.of_table rfl rfl le_rfl)
  | unanswered _ _ _ ht => rw [ht]; exact hlook _
  | queued _ _ _ _ ht => rw [ht]; exact (hlook 0).trans (.of_table rfl rfl le_rfl)
  | discovered _ _ _ _ ht =>
    have hpush : Ages (packetLookedUp s nfa 0) (packetsFifoPush (packetLookedUp s nfa 0)
        (nfqueuePacketGetId nfa) (nfqueuePacketGetDest nfa)) := .of_table rfl rfl le_rfl
    have horig := originated_aodvFindRoute (packetsFifoPush (packetLookedUp s nfa 0)
      (nfqueuePacketGetId nfa) (nfqueuePacketGetDest nfa)) (nfqueuePacketGetDest nfa) 0
    rw [ht]
    exact ((hlook 0).trans hpush).trans
      (.of_table horig.routing_table horig.now (objects_aodvFindRoute _ _ _))

/-- **In every turn except an alarm run** entries only age. -/
theorem ages_step (h : Wf s) {i : Input} (hi : i.event ≠ .alarms) :
    Ages (s.arrive i) (step s i) := by
  have hstats : ∀ stats, Ages (s.arrive i) ((s.arrive i).withStats stats) := fun _ =>
    .of_table rfl rfl le_rfl
  have hwf := fun stats => (h.arrive i).withStats stats
  cases turn s i with
  | rreq pkt stats _ hstep =>
    rw [hstep]; exact (hstats stats).trans (ages_aodvProcessRreq (hwf stats) pkt)
  | rrep pkt stats _ hstep =>
    rw [hstep]; exact (hstats stats).trans (ages_aodvProcessRrep (hwf stats) pkt)
  | packet nfa _ hstep => rw [hstep]; exact ages_managePacket (h.arrive i) nfa
  | alarms hev _ => exact absurd hev hi
  | quiet stats _ _ _ _ hstep => rw [hstep]; exact hstats stats

/-! ## Alarms -/

section Alarm

variable {r : MshRoute}

theorem find_route_of_mem (h : Wf s) (hr : r ∈ s.routing_table) :
    (s.routing_table ++ s.lost_routes).find? (fun x => x.self = r.self) = some r :=
  (KeyedList.find_key_some h.self_nodup).2 ⟨List.mem_append_left _ hr, rfl⟩

/-- The alarm of an entry in use: it is marked invalid, and will be destroyed `DELETE_PERIOD`
    later. -/
theorem routing_table_runAlarm_unset (h : Wf s) (hr : r ∈ s.routing_table)
    (hact : r.alarm_action = RTACTION_UNSET_VALID_ENTRY) :
    (runAlarm s (.route r.self)).routing_table = s.routing_table.map (fun x =>
      if x.self = r.self then mshRouteExpire s.os.now s.alarms (clearNode x) else x) := by
  simp only [runAlarm, find_route_of_mem h hr, mshRouteAlarmCb, hact, if_true,
    MshData.modifyRoute_routing_table, List.map_map]
  refine List.map_congr_left fun x _ => ?_
  by_cases hx : x.self = r.self
  · simp [hx, clearNode]
  · simp [hx]

/-- The alarm of an entry out of use: it is destroyed. -/
theorem routing_table_runAlarm_destroy (h : Wf s) (hr : r ∈ s.routing_table)
    (hact : r.alarm_action = RTACTION_DESTROY) :
    (runAlarm s (.route r.self)).routing_table =
      s.routing_table.filter (fun x => x.self ≠ r.self) := by
  have hne : ¬ RTACTION_DESTROY = RTACTION_UNSET_VALID_ENTRY := by decide
  obtain ⟨q, hq, -⟩ := (h.entry_ok r hr).nlroute
  simp only [runAlarm, find_route_of_mem h hr, mshRouteAlarmCb, hact, hne, if_false, if_true,
    mshRouteDestroy, (h.entry_ok r hr).updated_cb, hq, MshData.modifyRoute_routing_table]
  induction s.routing_table with
  | nil => rfl
  | cons x l ih =>
    by_cases hx : x.self = r.self
    · simpa [hx] using ih
    · simpa [hx] using ih

/-- The alarm of a route that is in no list. -/
theorem routing_table_runAlarm_absent (h : Wf s) {p : Nat} (hp : ∀ x ∈ s.routing_table, x.self ≠ p) :
    (runAlarm s (.route p)).routing_table = s.routing_table := by
  unfold runAlarm
  dsimp only
  cases hr : (s.routing_table ++ s.lost_routes).find? (fun r => r.self = p) with
  | none => rfl
  | some r =>
    obtain ⟨hself, hcases⟩ := find_route_cases h hr
    have hcb : r.updated_cb = false := by
      rcases hcases with hentry | ⟨hcb, -⟩
      · exact absurd hself (hp r (mem_of_entry hentry).1)
      · exact hcb
    have hclear := routing_table_modifyRoute_absent hp clearNode
    have hexp := routing_table_modifyRoute_absent (s := s.modifyRoute p clearNode)
      (by rw [hclear, hself]; exact hp) (p := r.self) (mshRouteExpire s.os.now s.alarms)
    dsimp only [mshRouteAlarmCb]
    split
    · exact hexp.trans hclear
    · split
      · simp only [mshRouteDestroy, hcb, Bool.false_eq_true, if_false]
        exact hclear
      · exact hclear

end Alarm

/-- A retry renews the route it finds, and no other. -/
theorem refreshed_rreqFifoRetry (h : Wf s) {e : RreqFifo} (hown : 0 ≤ e.prev_tries)
    {f : RreqFifo → RreqFifo} (hf : ∀ x, (f x).self = x.self) :
    Refreshed s (rreqFifoRetry (s.modifyRreq e.self f) e (e.prev_tries + 1))
      (fun b => routeUsable s e.dst && decide (e.dst ≠ s.ip_addr) && refreshes s e.dst b) := by
  -- the states before and after the refresh, and before the request is sent
  let s₁ := (s.modifyRreq e.self f).modifyRreq e.self ({ · with prev_tries := e.prev_tries + 1 })
  let s₂ := (routingTableUpdateRoute s₁ e.dst 0).1
  let t₂ := setAlarmTime (binaryExponentialBackoffTime (e.prev_tries + 1))
  let s₃ : MshData := { s₂.modifyRreq e.self
    ({ · with alarm := addAlarm s₂.os.now s₂.alarms t₂.1 t₂.2 }) with alarms := s₂.alarms + 1 }
  have hwf₁ : Wf s₁ := wf_modifyRreq (wf_modifyRreq h e.self hf) e.self (fun _ => rfl)
  have hupd : Refreshed s₁ s₂ _ := refreshed_updateRoute hwf₁ e.dst
  have horig := originated_aodvFindRoute s₃ e.dst (e.prev_tries + 1)
  have hobj : (aodvFindRoute s₃ e.dst none (e.prev_tries + 1)).objects = s₃.objects := by
    have hne : e.prev_tries + 1 ≠ 0 := by omega
    unfold aodvFindRoute
    simp only [if_neg hne]
    rfl
  exact hupd.congr rfl rfl rfl horig.routing_table horig.now hobj

/-- **The alarm of a request** only ages the entries. -/
theorem ages_runAlarm_rreq (h : Wf s) (p : Nat) : Ages s (runAlarm s (.rreq p)) := by
  unfold runAlarm
  dsimp only
  cases he : s.rreq_queue.find? (fun e => e.self = p) with
  | none => exact .refl s
  | some e =>
    have hself : e.self = p := by simpa using List.find?_some he
    subst hself
    dsimp only [rreqFifoAlarmCb]
    split
    · exact .of_table rfl rfl le_rfl
    · split
      · exact .of_table rfl rfl le_rfl
      · rename_i hext _
        have hown : 0 ≤ e.prev_tries := by omega
        exact (refreshed_rreqFifoRetry h hown
          (f := fun x => { x with alarm := { x.alarm with node := none } }) (fun _ => rfl)).ages

/-! ## The clock -/

theorem AlarmRun.now (hrun : AlarmRun s t) : t.os.now = s.os.now := by
  cases hrun with
  | idle hsame => exact hsame.now
  | expired a hexp => exact hexp.same.now
  | destroyed r q _ _ hdel => exact hdel.now
  | forgotten e _ _ ht => rw [ht]; rfl
  | gaveUp e _ _ ht => rw [ht]; rfl
  | retried e _ _ hret => exact hret.now

theorem now_step (h : Wf s) (i : Input) : (step s i).os.now = i.now := by
  by_cases hev : i.event = .alarms
  · have hstep : step s i = doAlarmRun (s.arrive i) := by rw [step, hev]; rfl
    rw [hstep]
    exact (doAlarmRun_invariant (I := fun t => Wf t ∧ t.os.now = i.now)
      (fun t owner ht => ⟨(runAlarm_cases ht.1 owner).wf ht.1,
        (runAlarm_cases ht.1 owner).now.trans ht.2⟩) ⟨h.arrive i, rfl⟩).2
  · exact (ages_step h hev).now

end Meshias
