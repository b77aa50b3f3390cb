import Meshias.Frame

/-!
# The blocks of the message handlers

One specification for each block of `aodv_process_rreq` and `aodv_process_rrep`: it keeps `Wf`, it
touches the table only (`OnlyTable`), and it changes the map as its equations for `info` and
`active` say.

* `prevHopRoute`, `origRoute`, `destRoute` — the route objects that the blocks allocate.
* `RouteInfo.rreqUpdate`, `RouteInfo.rrepUpdate` — the updates in place, on what an entry says.

Principal results: `info_aodvRreqPrevHop`, `info_aodvUpdateOrig`, `info_destUpdated`, with their
counterparts for `active`.
-/

set_option autoImplicit false

namespace Meshias

variable {s t u : MshData}

/-! ## The kernel's side of an insertion -/

/-- The request for a host route that has a next hop. -/
def hostRequest (net_iface : U32) (dst next_hop : InAddr) : RtnlRoute where
  oif := net_iface
  dst := ⟨dst, 32⟩
  gateway := if dst ≠ next_hop then some ⟨next_hop, 32⟩ else none

/-- The kernel's table after a request it does not refuse. -/
def kernelAdd (routes : List RtnlRoute) (q : RtnlRoute) : List RtnlRoute :=
  if routes.any (fun k => k.dst = q.dst) then routes else q :: routes

@[simp] theorem inAddr2nlAddr_zero (a : InAddr) : inAddr2nlAddr a 0 = ⟨a, 32⟩ := rfl

theorem routeRequest_host {route : MshRoute} (hpre : route.prefix_sz = 0)
    (hflag : route.hasFlag RTFLAG_HAS_NEXTHOP = true) (iface : U32) :
    routeRequest iface route = hostRequest iface route.dst_ip route.next_hop := by
  simp only [routeRequest, hostRequest, hpre, hflag, inAddr2nlAddr_zero, true_and]

theorem rtnlRouteAdd_routes (os : Os) (q : RtnlRoute) :
    (rtnlRouteAdd os q).1.routes =
      if os.refusals.headD false then os.routes else kernelAdd os.routes q := by
  unfold rtnlRouteAdd kernelAdd
  dsimp only
  split
  · rfl
  · split <;> rfl

theorem rtnlRouteAdd_refusals (os : Os) (q : RtnlRoute) :
    (rtnlRouteAdd os q).1.refusals = os.refusals.tail := by
  unfold rtnlRouteAdd
  dsimp only
  split
  · rfl
  · split <;> rfl

theorem routes_routingTableAdd (h : Wf s) {route : MshRoute} (hf : Fresh s route)
    (hnew : s.entry route.dst_ip = none) :
    (routingTableAdd s route).1.os.routes =
      if s.refuses then s.os.routes
      else kernelAdd s.os.routes (routeRequest s.net_iface route) := by
  have hos := rtnlRouteAdd_routes s.os (routeRequest s.net_iface route)
  rw [routingTableAdd_eq h hnew]
  cases href : s.refuses with
  | true => rw [if_pos rfl, if_pos rfl]; rfl
  | false =>
    rw [if_neg Bool.false_ne_true, if_neg Bool.false_ne_true, addInstalled,
      routingTableInstall_eq hf]
    rw [← MshData.refuses, href, if_neg Bool.false_ne_true] at hos
    exact hos

theorem refusals_routingTableAdd (h : Wf s) {route : MshRoute} (hf : Fresh s route)
    (hnew : s.entry route.dst_ip = none) :
    (routingTableAdd s route).1.os.refusals = s.os.refusals.tail := by
  rw [routingTableAdd_eq h hnew]
  split
  · rfl
  · rw [addInstalled, routingTableInstall_eq hf]
    exact rtnlRouteAdd_refusals s.os (routeRequest s.net_iface route)

/-! ## Allocation -/

theorem Wf.alloc (h : Wf s) {n : Nat} (hn : s.objects ≤ n) : Wf { s with objects := n } where
  dst_nodup := h.dst_nodup
  self_nodup := h.self_nodup
  self_lt r hr := lt_of_lt_of_le (h.self_lt r hr) hn
  entry_ok := h.entry_ok
  lost_ok := h.lost_ok
  rreq_nodup := h.rreq_nodup
  rreq_lt e he := lt_of_lt_of_le (h.rreq_lt e he) hn

/-- The object that `msh_route_alloc` hands out is in no list. -/
theorem fresh_alloc (h : Wf s) {t : MshData} (htbl : t.routing_table = s.routing_table)
    (hlost : t.lost_routes = s.lost_routes) (hobj : t.objects = s.objects + 1)
    {route : MshRoute} (hself : route.self = s.objects) (hpre : route.prefix_sz = 0)
    (hcb : route.updated_cb = false) (hman : route.hasFlag RTFLAG_UNMANAGED = false) :
    Fresh t route where
  self_new r hr := by
    rw [htbl, hlost] at hr
    rw [hself]
    exact (h.self_lt r hr).ne
  self_lt := by rw [hself, hobj]; exact Nat.lt_succ_self _
  prefix_sz := hpre
  updated_cb := hcb
  managed := hman

/-- A write through a pointer to an object that is not in the table. -/
theorem routing_table_modifyRoute_absent {p : Nat} (hp : ∀ r ∈ s.routing_table, r.self ≠ p)
    (f : MshRoute → MshRoute) : (s.modifyRoute p f).routing_table = s.routing_table := by
  rw [MshData.modifyRoute_routing_table]
  refine (List.map_congr_left fun r hr => ?_).trans (List.map_id _)
  rw [if_neg (hp r hr)]
  rfl

/-! ## The previous hop -/

/-- The route to a new previous hop: no sequence number, hop count 0. -/
def prevHopRoute (self : Nat) (prev_hop : InAddr) : MshRoute where
  self := self
  dst_ip := prev_hop
  flags := RTFLAG_HAS_NEXTHOP
  next_hop := prev_hop

theorem prevHopRoute_eq (self : Nat) (p : InAddr) :
    mshRouteSetNextHop (mshRouteSetDstIp { self } p) p = prevHopRoute self p := by
  rw [mshRouteSetNextHop_eq _ _ (by simp [mshRouteSetDstIp])]
  simp [mshRouteSetDstIp, prevHopRoute]

theorem unset_prevHopRoute (self : Nat) (p : InAddr) :
    mshRouteUnsetFlag (prevHopRoute self p) RTFLAG_VALID_DEST_SEQ_NUM = prevHopRoute self p := by
  simp [mshRouteUnsetFlag, prevHopRoute, RTFLAG_VALID_DEST_SEQ_NUM, RTFLAG_HAS_NEXTHOP]

/-- Both handlers treat the previous hop alike: the flag that the RREP handler clears is not set
    in a new route. -/
theorem aodvRrepPrevHop_eq (s : MshData) (p : InAddr) : aodvRrepPrevHop s p = aodvRreqPrevHop s p := by
  rw [aodvRrepPrevHop, aodvRreqPrevHop, aodvUpdatePrevHop, aodvUpdatePrevHop]
  simp only [mshRouteAlloc, prevHopRoute_eq, unset_prevHopRoute, id]

theorem aodvRreqPrevHop_found (h : Wf s) {p : InAddr} {r : MshRoute} (hr : s.entry p = some r) :
    aodvRreqPrevHop s p = (s.routeSetLifetime r.self ACTIVE_ROUTE_TIMEOUT, r.self) := by
  rw [aodvRreqPrevHop, aodvUpdatePrevHop, routingTableFindByIp_eq h, hr]

theorem aodvRreqPrevHop_new (h : Wf s) {p : InAddr} (hnew : s.entry p = none) :
    aodvRreqPrevHop s p =
      ((routingTableAdd { s with objects := s.objects + 1 } (prevHopRoute s.objects p)).1,
        s.objects) := by
  rw [aodvRreqPrevHop, aodvUpdatePrevHop, routingTableFindByIp_eq h, hnew]
  simp only [mshRouteAlloc, prevHopRoute_eq, id]
  rfl

theorem fresh_prevHopRoute (h : Wf s) (p : InAddr) :
    Fresh { s with objects := s.objects + 1 } (prevHopRoute s.objects p) :=
  fresh_alloc h (t := { s with objects := s.objects + 1 }) rfl rfl rfl rfl rfl rfl
    (by simp +decide [hasFlag_eq, prevHopRoute])

theorem wf_aodvRreqPrevHop (h : Wf s) (p : InAddr) : Wf (aodvRreqPrevHop s p).1 := by
  cases hr : s.entry p with
  | some r => rw [aodvRreqPrevHop_found h hr]; exact h.routeSetLifetime _ _
  | none =>
    rw [aodvRreqPrevHop_new h hr]
    exact (h.alloc (Nat.le_succ _)).routingTableAdd (fresh_prevHopRoute h p) hr

theorem onlyTable_aodvRreqPrevHop (h : Wf s) (p : InAddr) :
    OnlyTable s (aodvRreqPrevHop s p).1 := by
  cases hr : s.entry p with
  | some r => rw [aodvRreqPrevHop_found h hr]; exact onlyTable_routeSetLifetime _ _
  | none =>
    rw [aodvRreqPrevHop_new h hr]
    exact (onlyTable_alloc s).trans
      (onlyTable_routingTableAdd (h.alloc (Nat.le_succ _)) (fresh_prevHopRoute h p) hr)

/-- What a new entry for a previous hop says. -/
def RouteInfo.prevHop (net_iface : U32) (prev_hop : InAddr) : RouteInfo :=
  ⟨0, false, 0, prev_hop, some (hostRequest net_iface prev_hop prev_hop)⟩

theorem info_prevHopRoute (self : Nat) (p : InAddr) (iface : U32) :
    (prevHopRoute self p).info.withNlroute (routeRequest iface (prevHopRoute self p)) =
      .prevHop iface p := by
  rw [routeRequest_host rfl (by simp +decide [hasFlag_eq, prevHopRoute])]
  simp +decide [MshRoute.info, RouteInfo.withNlroute, RouteInfo.prevHop, hasFlag_eq, prevHopRoute]

theorem info_aodvRreqPrevHop (h : Wf s) (p b : InAddr) :
    (aodvRreqPrevHop s p).1.info b =
      if s.info p = none ∧ s.refuses = false ∧ b = p then some (.prevHop s.net_iface p)
      else s.info b := by
  cases hr : s.entry p with
  | some r =>
    rw [aodvRreqPrevHop_found h hr, info_routeSetLifetime h, info_of_entry hr, if_neg (by simp)]
  | none =>
    rw [aodvRreqPrevHop_new h hr, info_routingTableAdd (h.alloc (Nat.le_succ _))
      (fresh_prevHopRoute h p) hr, info_eq_none.2 hr]
    simp only [true_and, info_prevHopRoute]
    rfl

theorem active_aodvRreqPrevHop (h : Wf s) (p b : InAddr) :
    (aodvRreqPrevHop s p).1.active b =
      (decide (b = p ∧ (s.info p ≠ none ∨ s.refuses = false)) || s.active b) := by
  cases hr : s.entry p with
  | some r =>
    rw [aodvRreqPrevHop_found h hr, active_routeSetLifetime h hr, info_of_entry hr]
    simp
  | none =>
    rw [aodvRreqPrevHop_new h hr, active_routingTableAdd (h.alloc (Nat.le_succ _))
      (fresh_prevHopRoute h p) hr, info_eq_none.2 hr]
    congr 1
    simp only [ne_eq, not_true_eq_false, false_or, decide_eq_decide]
    exact and_comm

theorem routes_aodvRreqPrevHop (h : Wf s) (p : InAddr) :
    (aodvRreqPrevHop s p).1.os.routes =
      if s.info p = none ∧ s.refuses = false then
        kernelAdd s.os.routes (hostRequest s.net_iface p p)
      else s.os.routes := by
  cases hr : s.entry p with
  | some r => rw [aodvRreqPrevHop_found h hr, info_of_entry hr, if_neg (by simp)]; rfl
  | none =>
    rw [aodvRreqPrevHop_new h hr, routes_routingTableAdd (h.alloc (Nat.le_succ _))
      (fresh_prevHopRoute h p) hr, info_eq_none.2 hr]
    change (if s.refuses = true then _ else _) = _
    cases s.refuses <;> simp [routeRequest_host, prevHopRoute, MshRoute.hasFlag, RTFLAG_HAS_NEXTHOP]

theorem refusals_aodvRreqPrevHop (h : Wf s) (p : InAddr) :
    (aodvRreqPrevHop s p).1.os.refusals =
      if s.info p = none then s.os.refusals.tail else s.os.refusals := by
  cases hr : s.entry p with
  | some r => rw [aodvRreqPrevHop_found h hr, info_of_entry hr, if_neg (by simp)]; rfl
  | none =>
    rw [aodvRreqPrevHop_new h hr, refusals_routingTableAdd (h.alloc (Nat.le_succ _))
      (fresh_prevHopRoute h p) hr, info_eq_none.2 hr, if_pos rfl]

/-! ## Updates in place -/

/-- A write to the entry of `a`, on what the entries say. -/
theorem info_modifyRoute (h : Wf s) {f : MshRoute → MshRoute} (hf : Keeps f) {a : InAddr}
    {r : MshRoute} (hr : s.entry a = some r) (b : InAddr) :
    (s.modifyRoute r.self f).info b = if b = a then some (f r).info else s.info b := by
  rw [MshData.info, entry_modifyRoute h hf hr]
  split
  · rfl
  · rfl

/-- `msh_route_set_next_hop` on an installed entry: the gateway of its `rtnl_route` follows, also
    when the next hop is the destination itself. -/
def RouteInfo.setNextHop (i : RouteInfo) (next_hop : InAddr) : RouteInfo :=
  { i with next_hop, nlroute := i.nlroute.map ({ · with gateway := some ⟨next_hop, 32⟩ }) }

def RouteInfo.rreqUpdate (prev_hop : InAddr) (hop_count : U8) (seq_num_new : U32)
    (i : RouteInfo) : RouteInfo :=
  { i.setNextHop prev_hop with
    dest_seq_num := if i.dest_seq_num.slt seq_num_new then seq_num_new else i.dest_seq_num
    seq_valid := true
    hop_count }

def RouteInfo.rrepUpdate (prev_hop : InAddr) (rrep : AodvRrep) (i : RouteInfo) : RouteInfo :=
  { i.setNextHop prev_hop with
    dest_seq_num := rrep.dest_seq_num, seq_valid := true, hop_count := rrep.hop_count }

@[simp] theorem info_setDestSeqNum (r : MshRoute) (seq : U32) :
    (mshRouteSetDestSeqNum r seq).info = { r.info with dest_seq_num := seq } := rfl

@[simp] theorem info_setHopCount (r : MshRoute) (hop : U8) :
    (mshRouteSetHopCount r hop).info = { r.info with hop_count := hop } := rfl

@[simp] theorem info_setFlag_validDestSeqNum (r : MshRoute) :
    (mshRouteSetFlag r RTFLAG_VALID_DEST_SEQ_NUM).info = { r.info with seq_valid := true } := by
  have hbit : hasBit (r.flags ||| RTFLAG_VALID_DEST_SEQ_NUM) RTFLAG_VALID_DEST_SEQ_NUM = true :=
    hasBit_or_self (by decide)
  rw [MshRoute.info, MshRoute.info, ← hbit]
  rfl

theorem info_setNextHop {r : MshRoute} (h : EntryOk r) (next_hop : InAddr) :
    (mshRouteSetNextHop r next_hop).info = r.info.setNextHop next_hop := by
  obtain ⟨q, hq, -⟩ := h.nlroute
  have hflag : hasBit (r.flags ||| RTFLAG_HAS_NEXTHOP) RTFLAG_VALID_DEST_SEQ_NUM =
      hasBit r.flags RTFLAG_VALID_DEST_SEQ_NUM := hasBit_or (by decide)
  rw [mshRouteSetNextHop_eq r next_hop (fun _ => by rw [hq]; rfl), if_pos h.updated_cb,
    h.prefix_sz]
  simp only [MshRoute.info, RouteInfo.setNextHop, hasFlag_eq, hflag, inAddr2nlAddr_zero]

theorem info_rreqUpdate {r : MshRoute} (h : EntryOk r) (prev_hop : InAddr) (hop_count : U8)
    (seq : U32) :
    (rreqUpdate prev_hop hop_count seq r).info = r.info.rreqUpdate prev_hop hop_count seq := by
  have hflag := keeps_setFlag_validDestSeqNum.entry_ok r h
  have hseq : r.info.dest_seq_num = r.dest_seq_num := rfl
  simp only [rreqUpdate, RouteInfo.rreqUpdate, hseq]
  split <;> simp [info_setNextHop hflag, RouteInfo.setNextHop, hseq]

theorem info_rrepUpdate {r : MshRoute} (h : EntryOk r) (prev_hop : InAddr) (rrep : AodvRrep) :
    (rrepUpdate prev_hop rrep r).info = r.info.rrepUpdate prev_hop rrep := by
  have hflag := keeps_setFlag_validDestSeqNum.entry_ok _
    ((keeps_setDestSeqNum rrep.dest_seq_num).entry_ok r h)
  simp only [rrepUpdate, RouteInfo.rrepUpdate]
  simp [info_setNextHop hflag, RouteInfo.setNextHop]

/-- The updates leave `RTFLAG_VALID_ENTRY` as it is. -/
theorem valid_setNextHop (r : MshRoute) (a : InAddr) :
    (mshRouteSetNextHop r a).hasFlag RTFLAG_VALID_ENTRY = r.hasFlag RTFLAG_VALID_ENTRY := by
  have hset : mshRouteSetFlag r RTFLAG_HAS_NEXTHOP =
      { r with flags := r.flags ||| RTFLAG_HAS_NEXTHOP } := rfl
  have hflag : hasBit (r.flags ||| RTFLAG_HAS_NEXTHOP) RTFLAG_VALID_ENTRY =
      hasBit r.flags RTFLAG_VALID_ENTRY := hasBit_or (by decide)
  simp only [mshRouteSetNextHop, nexthopUpdatedCb, hset]
  cases r.updated_cb with
  | false => exact hflag
  | true =>
    cases r.nlroute with
    | none => exact hflag
    | some q => simp only [if_true]; split <;> exact hflag

theorem valid_rreqUpdate (r : MshRoute) (prev_hop : InAddr) (hop_count : U8) (seq : U32) :
    (rreqUpdate prev_hop hop_count seq r).hasFlag RTFLAG_VALID_ENTRY =
      r.hasFlag RTFLAG_VALID_ENTRY := by
  have hflag : hasBit (r.flags ||| RTFLAG_VALID_DEST_SEQ_NUM) RTFLAG_VALID_ENTRY =
      hasBit r.flags RTFLAG_VALID_ENTRY := hasBit_or (by decide)
  simp only [rreqUpdate]
  split <;> exact (valid_setNextHop _ _).trans hflag

theorem valid_rrepUpdate (r : MshRoute) (prev_hop : InAddr) (rrep : AodvRrep) :
    (rrepUpdate prev_hop rrep r).hasFlag RTFLAG_VALID_ENTRY = r.hasFlag RTFLAG_VALID_ENTRY :=
  (valid_setNextHop _ _).trans (hasBit_or (by decide))

/-! ## The originator -/

/-- The route to a new originator. -/
def origRoute (self : Nat) (alarm : AlarmBlock) (prev_hop : InAddr) (hop_count : U8)
    (addr_orig : InAddr) (seq_num_new : U32) : MshRoute where
  self := self
  dst_ip := addr_orig
  dest_seq_num := seq_num_new
  flags := RTFLAG_HAS_NEXTHOP ||| RTFLAG_VALID_ENTRY ||| RTFLAG_VALID_DEST_SEQ_NUM
  hop_count := hop_count
  next_hop := prev_hop
  alarm := alarm
  alarm_action := RTACTION_UNSET_VALID_ENTRY

theorem origRoute_eq (self now rank : Nat) (p : InAddr) (hop : U8) (orig : InAddr) (seq : U32)
    (lifetime : U32) :
    mshRouteSetFlag (mshRouteSetLifetime now rank (rreqCreate p hop orig seq { self }) lifetime)
        RTFLAG_VALID_DEST_SEQ_NUM =
      origRoute self ⟨now + lifetime.toNat * 1000, some rank⟩ p hop orig seq := by
  have hcreate : rreqCreate p hop orig seq { self } =
      { self, dst_ip := orig, dest_seq_num := seq, flags := RTFLAG_HAS_NEXTHOP, next_hop := p,
        hop_count := hop } := by
    simp only [rreqCreate]
    rw [mshRouteSetNextHop_eq _ _ (by simp [mshRouteSetDestSeqNum, mshRouteSetDstIp])]
    simp [mshRouteSetDestSeqNum, mshRouteSetDstIp, mshRouteSetHopCount]
  rw [hcreate, mshRouteSetLifetime_eq _ _ _ (by simp +decide [hasFlag_eq])]
  rfl

/-- What a new entry for an originator says. -/
def RouteInfo.orig (net_iface : U32) (prev_hop : InAddr) (hop_count : U8) (addr_orig : InAddr)
    (seq_num_new : U32) : RouteInfo :=
  ⟨seq_num_new, true, hop_count, prev_hop, some (hostRequest net_iface addr_orig prev_hop)⟩

theorem info_origRoute (self : Nat) (alarm : AlarmBlock) (p : InAddr) (hop : U8) (orig : InAddr)
    (seq : U32) (iface : U32) :
    (origRoute self alarm p hop orig seq).info.withNlroute
        (routeRequest iface (origRoute self alarm p hop orig seq)) =
      .orig iface p hop orig seq := by
  rw [routeRequest_host rfl (by simp +decide [hasFlag_eq, origRoute])]
  simp +decide [MshRoute.info, RouteInfo.withNlroute, RouteInfo.orig, hasFlag_eq, origRoute]

section Orig

variable (p : InAddr) (hop : U8) (orig : InAddr) (seq : U32)

/-- The lifetime is raised. -/
def origRaised (s : MshData) (hop : U8) (r : MshRoute) : Bool :=
  mshRouteGetLifetime s.os.now r < minimalLifetime s.os.now hop

theorem aodvUpdateOrig_found (h : Wf s) {r : MshRoute} (hr : s.entry orig = some r) :
    (aodvUpdateOrig s p hop orig seq).1 =
      if origRaised s hop r then
        (s.modifyRoute r.self (rreqUpdate p hop seq)).routeSetLifetime r.self
          (minimalLifetime s.os.now hop)
      else s.modifyRoute r.self (rreqUpdate p hop seq) := by
  rw [aodvUpdateOrig, routingTableFindByIp_eq h, hr]
  simp only [origRaised, decide_eq_true_eq, gt_iff_lt]
  split <;> rfl

/-- The state in which a new route to the originator is inserted, and the route. -/
def origAlloc (s : MshData) : MshData :=
  { s with objects := s.objects + 1, alarms := s.alarms + 1 }

def origNew (s : MshData) (p : InAddr) (hop : U8) (orig : InAddr) (seq : U32) : MshRoute :=
  origRoute s.objects ⟨s.os.now + (minimalLifetime s.os.now hop).toNat * 1000, some s.alarms⟩
    p hop orig seq

theorem aodvUpdateOrig_new (h : Wf s) (hnew : s.entry orig = none) :
    (aodvUpdateOrig s p hop orig seq).1 =
      (routingTableAdd (origAlloc s) (origNew s p hop orig seq)).1 := by
  rw [aodvUpdateOrig, routingTableFindByIp_eq h, hnew]
  simp only [mshRouteAlloc, origRoute_eq]
  rfl

theorem wf_origAlloc (h : Wf s) : Wf (origAlloc s) :=
  (h.alloc (Nat.le_succ _)).congr rfl rfl rfl rfl

theorem fresh_origNew (h : Wf s) : Fresh (origAlloc s) (origNew s p hop orig seq) :=
  fresh_alloc h (t := origAlloc s) rfl rfl rfl rfl rfl rfl
    (by simp +decide [hasFlag_eq, origNew, origRoute])

theorem wf_aodvUpdateOrig (h : Wf s) : Wf (aodvUpdateOrig s p hop orig seq).1 := by
  cases hr : s.entry orig with
  | some r =>
    have hmod := h.modifyRoute r.self (keeps_rreqUpdate p hop seq)
    rw [aodvUpdateOrig_found p hop orig seq h hr]
    split
    · exact hmod.routeSetLifetime _ _
    · exact hmod
  | none =>
    rw [aodvUpdateOrig_new p hop orig seq h hr]
    exact (wf_origAlloc h).routingTableAdd (fresh_origNew p hop orig seq h) hr

theorem onlyTable_aodvUpdateOrig (h : Wf s) :
    OnlyTable s (aodvUpdateOrig s p hop orig seq).1 := by
  cases hr : s.entry orig with
  | some r =>
    have hmod := onlyTable_modifyRoute (s := s) r.self (keeps_rreqUpdate p hop seq)
    rw [aodvUpdateOrig_found p hop orig seq h hr]
    split
    · exact hmod.trans (onlyTable_routeSetLifetime _ _)
    · exact hmod
  | none =>
    rw [aodvUpdateOrig_new p hop orig seq h hr]
    exact (OnlyTable.of_table (fun _ => Iff.rfl)).trans
      (onlyTable_routingTableAdd (wf_origAlloc h) (fresh_origNew p hop orig seq h) hr)

theorem info_aodvUpdateOrig (h : Wf s) (b : InAddr) :
    (aodvUpdateOrig s p hop orig seq).1.info b =
      if b = orig then
        match s.info orig with
        | some i => some (i.rreqUpdate p hop seq)
        | none => if s.refuses then none else some (.orig s.net_iface p hop orig seq)
      else s.info b := by
  cases hr : s.entry orig with
  | some r =>
    have hinfo := info_modifyRoute h (keeps_rreqUpdate p hop seq) hr b
    have hmod := h.modifyRoute r.self (keeps_rreqUpdate p hop seq)
    rw [info_rreqUpdate (h.entryOk hr)] at hinfo
    rw [aodvUpdateOrig_found p hop orig seq h hr, info_of_entry hr, ← hinfo]
    split
    · rw [info_routeSetLifetime hmod]
    · rfl
  | none =>
    rw [aodvUpdateOrig_new p hop orig seq h hr, info_routingTableAdd (wf_origAlloc h)
      (fresh_origNew p hop orig seq h) hr, info_eq_none.2 hr]
    rw [origNew, info_origRoute]
    by_cases hb : b = orig
    · subst hb
      change (if s.refuses = false ∧ b = b then _ else s.info b) = _
      cases s.refuses <;> simp [info_eq_none.2 hr, origAlloc]
    · rw [if_neg hb, if_neg (fun hc => hb hc.2)]
      rfl

/-- The lifetime of an inactive entry is read as 0. -/
theorem origRaised_of_inactive {r : MshRoute} (hr : r.hasFlag RTFLAG_VALID_ENTRY = false) :
    origRaised s hop r = decide (minimalLifetime s.os.now hop ≠ 0) := by
  have hzero : mshRouteGetLifetime s.os.now r = 0 := by simp [mshRouteGetLifetime, hr]
  rw [origRaised, hzero, decide_eq_decide]
  exact BitVec.pos_iff_ne_zero _

theorem active_aodvUpdateOrig_found (h : Wf s) {r : MshRoute} (hr : s.entry orig = some r)
    (b : InAddr) : (aodvUpdateOrig s p hop orig seq).1.active b =
      (decide (b = orig) && origRaised s hop r || s.active b) := by
  have hkeeps := keeps_rreqUpdate p hop seq
  have hactive : (s.modifyRoute r.self (rreqUpdate p hop seq)).active = s.active :=
    active_modifyRoute_of_blind hkeeps (fun r => valid_rreqUpdate r p hop seq)
  have hentry := entry_modifyRoute h hkeeps hr orig
  rw [if_pos rfl] at hentry
  have hlife := active_routeSetLifetime (h.modifyRoute r.self hkeeps) hentry
    (minimalLifetime s.os.now hop) b
  rw [hkeeps.self, hactive] at hlife
  rw [aodvUpdateOrig_found p hop orig seq h hr]
  cases origRaised s hop r with
  | false => simp [hactive]
  | true => rw [if_pos rfl, hlife, Bool.and_true]

/-- The entry of the originator is in use afterwards, whatever it was before. -/
def origActivates (s : MshData) (hop : U8) (orig : InAddr) : Bool :=
  match s.info orig with
  | some _ => minimalLifetime s.os.now hop ≠ 0
  | none => !s.refuses

theorem active_aodvUpdateOrig (h : Wf s) (b : InAddr) :
    (aodvUpdateOrig s p hop orig seq).1.active b =
      (decide (b = orig) && origActivates s hop orig || s.active b) := by
  cases hr : s.entry orig with
  | some r =>
    rw [active_aodvUpdateOrig_found p hop orig seq h hr, origActivates, info_of_entry hr]
    by_cases hb : b = orig
    · subst hb
      have hact := active_of_entry hr
      -- an entry in use stays in use, whether its lifetime is raised or not
      cases hv : r.hasFlag RTFLAG_VALID_ENTRY with
      | true => simp [hact, hv]
      | false => simp [origRaised_of_inactive hop hv]
    · simp [hb]
  | none =>
    rw [aodvUpdateOrig_new p hop orig seq h hr, active_routingTableAdd (wf_origAlloc h)
      (fresh_origNew p hop orig seq h) hr, origActivates, info_eq_none.2 hr]
    change (decide (s.refuses = false ∧ b = orig) || s.active b) = _
    cases s.refuses <;> simp

theorem routes_aodvUpdateOrig (h : Wf s) :
    (aodvUpdateOrig s p hop orig seq).1.os.routes =
      if s.info orig = none ∧ s.refuses = false then
        kernelAdd s.os.routes (hostRequest s.net_iface orig p)
      else s.os.routes := by
  cases hr : s.entry orig with
  | some r =>
    rw [aodvUpdateOrig_found p hop orig seq h hr, info_of_entry hr]
    simp only [reduceCtorEq, false_and, if_false]
    split <;> rfl
  | none =>
    have hreq : routeRequest s.net_iface (origNew s p hop orig seq) =
        hostRequest s.net_iface orig p :=
      routeRequest_host rfl (by simp +decide [hasFlag_eq, origNew, origRoute]) _
    rw [aodvUpdateOrig_new p hop orig seq h hr, routes_routingTableAdd (wf_origAlloc h)
      (fresh_origNew p hop orig seq h) hr, info_eq_none.2 hr]
    change (if s.refuses = true then s.os.routes else kernelAdd s.os.routes
      (routeRequest s.net_iface _)) = _
    rw [hreq]
    cases s.refuses <;> simp

end Orig

/-! ## The destination -/

/-- The route to a new destination. -/
def destRoute (self : Nat) (prev_hop : InAddr) (rrep : AodvRrep) : MshRoute where
  self := self
  dst_ip := rrep.dest_ip_addr
  dest_seq_num := rrep.dest_seq_num
  flags := RTFLAG_HAS_NEXTHOP ||| RTFLAG_VALID_DEST_SEQ_NUM
  next_hop := prev_hop

theorem destRoute_eq (self : Nat) (p : InAddr) (rrep : AodvRrep) :
    mshRouteSetFlag
        (mshRouteSetDestSeqNum
          (mshRouteSetNextHop (mshRouteSetDstIp { self } rrep.dest_ip_addr) p) rrep.dest_seq_num)
        RTFLAG_VALID_DEST_SEQ_NUM = destRoute self p rrep := by
  rw [mshRouteSetNextHop_eq _ _ (by simp [mshRouteSetDstIp])]
  simp [mshRouteSetDestSeqNum, mshRouteSetDstIp, mshRouteSetFlag, destRoute]

/-- What a new entry for a destination says after the update. -/
def RouteInfo.dest (net_iface : U32) (prev_hop : InAddr) (rrep : AodvRrep) : RouteInfo :=
  RouteInfo.rrepUpdate prev_hop rrep
    ⟨rrep.dest_seq_num, true, 0, prev_hop, some (hostRequest net_iface rrep.dest_ip_addr prev_hop)⟩

/-- `rrepUpdates` on what an entry says. -/
def RouteInfo.rrepUpdates (i : RouteInfo) (active : Bool) (rrep : AodvRrep) : Bool :=
  !i.seq_valid || i.dest_seq_num.slt rrep.dest_seq_num ||
    (rrep.dest_seq_num == i.dest_seq_num && !active) || rrep.hop_count == i.hop_count

/-- The reply creates or updates the entry of its destination. -/
def rrepAccepted (s : MshData) (rrep : AodvRrep) : Bool :=
  match s.info rrep.dest_ip_addr with
  | some i => i.rrepUpdates (s.active rrep.dest_ip_addr) rrep
  | none => true

/-- `aodvFindDest` and `aodvUpdateDest` together: the state of a handler that accepts. -/
def destUpdated (s : MshData) (prev_hop : InAddr) (rrep : AodvRrep) : MshData :=
  aodvUpdateDest (aodvFindDest s prev_hop rrep).1 prev_hop rrep
    (aodvFindDest s prev_hop rrep).2.1.self

section Dest

variable (p : InAddr) (rrep : AodvRrep)

theorem aodvFindDest_found (h : Wf s) {r : MshRoute} (hr : s.entry rrep.dest_ip_addr = some r) :
    aodvFindDest s p rrep = (s, r, false) := by
  rw [aodvFindDest, routingTableFindByIp_eq h, hr]

theorem aodvFindDest_new (h : Wf s) (hnew : s.entry rrep.dest_ip_addr = none) :
    aodvFindDest s p rrep =
      ((routingTableAdd { s with objects := s.objects + 1 } (destRoute s.objects p rrep)).1,
        destRoute s.objects p rrep, true) := by
  rw [aodvFindDest, routingTableFindByIp_eq h, hnew]
  simp only [mshRouteAlloc, destRoute_eq]

/-- The test of the handler. -/
theorem rrepUpdates_aodvFindDest (h : Wf s) :
    rrepUpdates (aodvFindDest s p rrep).2.2 (aodvFindDest s p rrep).2.1 rrep =
      rrepAccepted s rrep := by
  cases hr : s.entry rrep.dest_ip_addr with
  | some r =>
    rw [aodvFindDest_found p rrep h hr, rrepAccepted, info_of_entry hr, active_of_entry hr]
    simp only [rrepUpdates, Bool.false_or]
    rfl
  | none =>
    rw [aodvFindDest_new p rrep h hr, rrepAccepted, info_eq_none.2 hr]
    rfl

theorem fst_aodvFindDest_of_rejected (h : Wf s) (hrej : rrepAccepted s rrep = false) :
    (aodvFindDest s p rrep).1 = s := by
  cases hr : s.entry rrep.dest_ip_addr with
  | some r => rw [aodvFindDest_found p rrep h hr]
  | none => rw [rrepAccepted, info_eq_none.2 hr] at hrej; exact absurd hrej (by simp)

theorem fresh_destRoute (h : Wf s) :
    Fresh { s with objects := s.objects + 1 } (destRoute s.objects p rrep) :=
  fresh_alloc h (t := { s with objects := s.objects + 1 }) rfl rfl rfl rfl rfl rfl
    (by simp +decide [hasFlag_eq, destRoute])

theorem wf_aodvUpdateDest (h : Wf s) (ptr : Nat) : Wf (aodvUpdateDest s p rrep ptr) :=
  (h.modifyRoute ptr (keeps_rrepUpdate p rrep)).routeSetLifetime _ _

theorem onlyTable_aodvUpdateDest (ptr : Nat) : OnlyTable s (aodvUpdateDest s p rrep ptr) :=
  (onlyTable_modifyRoute ptr (keeps_rrepUpdate p rrep)).trans (onlyTable_routeSetLifetime _ _)

theorem info_aodvUpdateDest (h : Wf s) {a : InAddr} {r : MshRoute} (hr : s.entry a = some r)
    (b : InAddr) : (aodvUpdateDest s p rrep r.self).info b =
      if b = a then some (r.info.rrepUpdate p rrep) else s.info b := by
  rw [aodvUpdateDest, info_routeSetLifetime (h.modifyRoute r.self (keeps_rrepUpdate p rrep)),
    info_modifyRoute h (keeps_rrepUpdate p rrep) hr, info_rrepUpdate (h.entryOk hr)]

theorem active_aodvUpdateDest (h : Wf s) {a : InAddr} {r : MshRoute} (hr : s.entry a = some r)
    (b : InAddr) : (aodvUpdateDest s p rrep r.self).active b =
      (decide (b = a) || s.active b) := by
  have hkeeps := keeps_rrepUpdate p rrep
  have hentry := entry_modifyRoute h hkeeps hr a
  rw [if_pos rfl] at hentry
  have hlife := active_routeSetLifetime (h.modifyRoute r.self hkeeps) hentry
    (getAlarmTime (tvSec s.os.now) (tvUsec s.os.now) + rrep.lifetime) b
  rw [hkeeps.self, active_modifyRoute_of_blind hkeeps (fun r => valid_rrepUpdate r p rrep)] at hlife
  exact hlife

/-- A route object that is in no table does not show in the map. -/
theorem routing_table_aodvUpdateDest_absent {ptr : Nat}
    (hp : ∀ r ∈ s.routing_table, r.self ≠ ptr) :
    (aodvUpdateDest s p rrep ptr).routing_table = s.routing_table := by
  have hmod := routing_table_modifyRoute_absent hp (rrepUpdate p rrep)
  refine (routing_table_modifyRoute_absent ?_ _).trans hmod
  rw [hmod]
  exact hp

theorem destRoute_absent (h : Wf s) (href : s.refuses = true)
    (hnew : s.entry rrep.dest_ip_addr = none) :
    (aodvFindDest s p rrep).1.routing_table = s.routing_table ∧
      ∀ r ∈ s.routing_table, r.self ≠ (aodvFindDest s p rrep).2.1.self := by
  have hdst : ({ s with objects := s.objects + 1 } : MshData).entry
      (destRoute s.objects p rrep).dst_ip = none := hnew
  have hadd := routingTableAdd_eq (h.alloc (Nat.le_succ _)) hdst
  change _ = if s.refuses = true then _ else _ at hadd
  rw [aodvFindDest_new p rrep h hnew, hadd, if_pos href]
  exact ⟨rfl, fun r hr => (h.self_lt r (List.mem_append_left _ hr)).ne⟩

theorem entry_aodvFindDest_new (h : Wf s) (href : s.refuses = false)
    (hnew : s.entry rrep.dest_ip_addr = none) :
    ∃ r, (aodvFindDest s p rrep).1.entry rrep.dest_ip_addr = some r ∧
      r.self = (aodvFindDest s p rrep).2.1.self ∧
      r.info.rrepUpdate p rrep = .dest s.net_iface p rrep := by
  have hf := fresh_destRoute p rrep h
  have hentry := entry_routingTableAdd (h.alloc (Nat.le_succ _)) hf hnew rrep.dest_ip_addr
  rw [if_pos ⟨href, rfl⟩] at hentry
  rw [aodvFindDest_new p rrep h hnew]
  refine ⟨_, hentry, by rw [installed_eq hf.managed], ?_⟩
  rw [info_installed hf.managed, routeRequest_host rfl (by simp +decide [hasFlag_eq, destRoute])]
  rfl

theorem wf_aodvFindDest (h : Wf s) : Wf (aodvFindDest s p rrep).1 := by
  cases hr : s.entry rrep.dest_ip_addr with
  | some r => rw [aodvFindDest_found p rrep h hr]; exact h
  | none =>
    rw [aodvFindDest_new p rrep h hr]
    exact (h.alloc (Nat.le_succ _)).routingTableAdd (fresh_destRoute p rrep h) hr

theorem onlyTable_aodvFindDest (h : Wf s) : OnlyTable s (aodvFindDest s p rrep).1 := by
  cases hr : s.entry rrep.dest_ip_addr with
  | some r => rw [aodvFindDest_found p rrep h hr]; exact .refl s
  | none =>
    rw [aodvFindDest_new p rrep h hr]
    exact (onlyTable_alloc s).trans
      (onlyTable_routingTableAdd (h.alloc (Nat.le_succ _)) (fresh_destRoute p rrep h) hr)

theorem wf_destUpdated (h : Wf s) : Wf (destUpdated s p rrep) :=
  wf_aodvUpdateDest p rrep (wf_aodvFindDest p rrep h) _

theorem onlyTable_destUpdated (h : Wf s) : OnlyTable s (destUpdated s p rrep) :=
  (onlyTable_aodvFindDest p rrep h).trans (onlyTable_aodvUpdateDest p rrep _)

theorem info_destUpdated (h : Wf s) (b : InAddr) :
    (destUpdated s p rrep).info b =
      if b = rrep.dest_ip_addr then
        match s.info rrep.dest_ip_addr with
        | some i => some (i.rrepUpdate p rrep)
        | none => if s.refuses then none else some (.dest s.net_iface p rrep)
      else s.info b := by
  cases hr : s.entry rrep.dest_ip_addr with
  | some r =>
    rw [destUpdated, aodvFindDest_found p rrep h hr, info_aodvUpdateDest p rrep h hr,
      info_of_entry hr]
  | none =>
    rw [info_eq_none.2 hr]
    cases href : s.refuses with
    | true =>
      obtain ⟨htbl, hptr⟩ := destRoute_absent p rrep h href hr
      rw [destUpdated, info_congr
        ((routing_table_aodvUpdateDest_absent p rrep (by rw [htbl]; exact hptr)).trans htbl)]
      split
      · rename_i hb; rw [hb, info_eq_none.2 hr]; rfl
      · rfl
    | false =>
      obtain ⟨r, hrent, hself, hinfo⟩ := entry_aodvFindDest_new p rrep h href hr
      rw [destUpdated, ← hself, info_aodvUpdateDest p rrep (wf_aodvFindDest p rrep h) hrent, hinfo,
        aodvFindDest_new p rrep h hr, info_routingTableAdd (h.alloc (Nat.le_succ _))
          (fresh_destRoute p rrep h) hr]
      split
      · rfl
      · rename_i hb; rw [if_neg (fun hc => hb hc.2)]; rfl

/-- The entry of the destination is in use afterwards, if there is one. -/
theorem active_destUpdated (h : Wf s) (b : InAddr) :
    (destUpdated s p rrep).active b =
      (decide (b = rrep.dest_ip_addr) && ((s.info rrep.dest_ip_addr).isSome || !s.refuses) ||
        s.active b) := by
  cases hr : s.entry rrep.dest_ip_addr with
  | some r =>
    rw [destUpdated, aodvFindDest_found p rrep h hr, active_aodvUpdateDest p rrep h hr,
      info_of_entry hr]
    simp
  | none =>
    rw [info_eq_none.2 hr]
    cases href : s.refuses with
    | true =>
      obtain ⟨htbl, hptr⟩ := destRoute_absent p rrep h href hr
      rw [destUpdated, active_congr
        ((routing_table_aodvUpdateDest_absent p rrep (by rw [htbl]; exact hptr)).trans htbl)]
      simp
    | false =>
      obtain ⟨r, hrent, hself, -⟩ := entry_aodvFindDest_new p rrep h href hr
      rw [destUpdated, ← hself, active_aodvUpdateDest p rrep (wf_aodvFindDest p rrep h) hrent,
        aodvFindDest_new p rrep h hr, active_routingTableAdd (h.alloc (Nat.le_succ _))
          (fresh_destRoute p rrep h) hr]
      change (decide (b = _) || (decide (s.refuses = false ∧ b = _) || s.active b)) = _
      rw [href]
      by_cases hb : b = rrep.dest_ip_addr <;> simp [hb, destRoute]

theorem routes_destUpdated (h : Wf s) :
    (destUpdated s p rrep).os.routes =
      if s.info rrep.dest_ip_addr = none ∧ s.refuses = false then
        kernelAdd s.os.routes (hostRequest s.net_iface rrep.dest_ip_addr p)
      else s.os.routes := by
  change (aodvFindDest s p rrep).1.os.routes = _
  cases hr : s.entry rrep.dest_ip_addr with
  | some r =>
    rw [aodvFindDest_found p rrep h hr, info_of_entry hr, if_neg (by simp)]
  | none =>
    have hreq : routeRequest s.net_iface (destRoute s.objects p rrep) =
        hostRequest s.net_iface rrep.dest_ip_addr p :=
      routeRequest_host rfl (by simp +decide [hasFlag_eq, destRoute]) _
    rw [aodvFindDest_new p rrep h hr, routes_routingTableAdd (h.alloc (Nat.le_succ _))
      (fresh_destRoute p rrep h) hr, info_eq_none.2 hr]
    change (if s.refuses = true then s.os.routes else kernelAdd s.os.routes
      (routeRequest s.net_iface _)) = _
    rw [hreq]
    cases s.refuses <;> simp

end Dest

end Meshias
