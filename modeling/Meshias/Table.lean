import Meshias.Daemon
import Meshias.Lib.KeyedList

/-!
# What the table operations do to one entry

* `MshData.entry`, `MshData.info`, `MshData.active` — the table as a map: the entry of a
  destination, what the entry says about the route, and whether it is in use.  Lifetimes, alarms
  and precursors are not part of `info`.
* `EntryOk`, `Wf` — what holds of every entry, and of the whole state: destinations and object
  addresses are different, addresses below the allocation counter.
* `Keeps` — an update in place that leaves alone what `Wf` is about.

Principal results: `entry_modifyRoute` and `info_routingTableAdd`, `active_routingTableAdd` — the
effect of a write through a pointer and of an insertion on the map; `Wf.modifyRoute`,
`Wf.routingTableAdd`, `Wf.mshRouteDestroy` — the operations keep `Wf`.
-/

set_option autoImplicit false

namespace Meshias

/-! ## The table as a map -/

def MshData.entry (s : MshData) (a : InAddr) : Option MshRoute :=
  s.routing_table.find? (fun r => r.dst_ip = a)

/-- What an entry says about its route, as opposed to how long it lives. -/
structure RouteInfo where
  dest_seq_num : U32
  seq_valid : Bool
  hop_count : U8
  next_hop : InAddr
  nlroute : Option RtnlRoute
  deriving DecidableEq, Repr

def RouteInfo.withNlroute (i : RouteInfo) (q : RtnlRoute) : RouteInfo := { i with nlroute := some q }

def MshRoute.info (r : MshRoute) : RouteInfo where
  dest_seq_num := r.dest_seq_num
  seq_valid := r.hasFlag RTFLAG_VALID_DEST_SEQ_NUM
  hop_count := r.hop_count
  next_hop := r.next_hop
  nlroute := r.nlroute

def MshData.info (s : MshData) (a : InAddr) : Option RouteInfo := (s.entry a).map MshRoute.info

def MshData.active (s : MshData) (a : InAddr) : Bool :=
  (s.entry a).any (fun r => r.hasFlag RTFLAG_VALID_ENTRY)

theorem info_of_entry {s : MshData} {a : InAddr} {r : MshRoute} (h : s.entry a = some r) :
    s.info a = some r.info := by rw [MshData.info, h]; rfl

theorem active_of_entry {s : MshData} {a : InAddr} {r : MshRoute} (h : s.entry a = some r) :
    s.active a = r.hasFlag RTFLAG_VALID_ENTRY := by rw [MshData.active, h]; rfl

theorem info_eq_none {s : MshData} {a : InAddr} : s.info a = none ↔ s.entry a = none := by
  simp [MshData.info]

theorem entry_of_active {s : MshData} {a : InAddr} (h : s.active a = true) :
    ∃ r, s.entry a = some r ∧ r.hasFlag RTFLAG_VALID_ENTRY = true := by
  simpa [MshData.active, Option.any_eq_true] using h

theorem isSome_of_active {s : MshData} {a : InAddr} (h : s.active a = true) :
    (s.info a).isSome = true := by
  obtain ⟨r, hr, -⟩ := entry_of_active h
  rw [info_of_entry hr]
  rfl

/-- The map is a function of the list alone. -/
theorem entry_congr {s t : MshData} (h : t.routing_table = s.routing_table) :
    t.entry = s.entry := by
  funext a; rw [MshData.entry, h]; rfl

theorem info_congr {s t : MshData} (h : t.routing_table = s.routing_table) : t.info = s.info := by
  funext a; rw [MshData.info, entry_congr h]; rfl

theorem active_congr {s t : MshData} (h : t.routing_table = s.routing_table) :
    t.active = s.active := by
  funext a; rw [MshData.active, entry_congr h]; rfl

/-! ## Well-formed states -/

structure EntryOk (r : MshRoute) : Prop where
  prefix_sz : r.prefix_sz = 0
  updated_cb : r.updated_cb = true
  managed : r.hasFlag RTFLAG_UNMANAGED = false
  nlroute : ∃ q, r.nlroute = some q ∧ q.dst = inAddr2nlAddr r.dst_ip 0

structure Wf (s : MshData) : Prop where
  dst_nodup : (s.routing_table.map (·.dst_ip)).Nodup
  self_nodup : ((s.routing_table ++ s.lost_routes).map (·.self)).Nodup
  self_lt : ∀ r ∈ s.routing_table ++ s.lost_routes, r.self < s.objects
  entry_ok : ∀ r ∈ s.routing_table, EntryOk r
  lost_ok : ∀ r ∈ s.lost_routes, r.updated_cb = false
  rreq_nodup : (s.rreq_queue.map (·.self)).Nodup
  rreq_lt : ∀ e ∈ s.rreq_queue, e.self < s.objects

theorem Wf.init (ip bcast : InAddr) (iface : U32) : Wf (mshDataInit ip bcast iface) := by
  constructor <;> simp [mshDataInit]

/-- `Wf` says nothing about the clock, the kernel, the packets and the counters of the protocol. -/
theorem Wf.congr {s t : MshData} (h : Wf s) (ht : t.routing_table = s.routing_table)
    (hl : t.lost_routes = s.lost_routes) (hq : t.rreq_queue = s.rreq_queue)
    (ho : t.objects = s.objects) : Wf t := by
  constructor
  · rw [ht]; exact h.dst_nodup
  · rw [ht, hl]; exact h.self_nodup
  · rw [ht, hl, ho]; exact h.self_lt
  · rw [ht]; exact h.entry_ok
  · rw [hl]; exact h.lost_ok
  · rw [hq]; exact h.rreq_nodup
  · rw [hq, ho]; exact h.rreq_lt

theorem mem_of_entry {s : MshData} {a : InAddr} {r : MshRoute} (hr : s.entry a = some r) :
    r ∈ s.routing_table ∧ r.dst_ip = a :=
  ⟨List.mem_of_find?_eq_some hr, by simpa using List.find?_some hr⟩

theorem entry_of_mem {s : MshData} (h : Wf s) {r : MshRoute} (hr : r ∈ s.routing_table) :
    s.entry r.dst_ip = some r :=
  (KeyedList.find_key_some h.dst_nodup).2 ⟨hr, rfl⟩

theorem Wf.entryOk {s : MshData} (h : Wf s) {a : InAddr} {r : MshRoute}
    (hr : s.entry a = some r) : EntryOk r := h.entry_ok r (mem_of_entry hr).1

theorem Wf.table_self_nodup {s : MshData} (h : Wf s) :
    (s.routing_table.map (·.self)).Nodup := by
  have := h.self_nodup
  rw [List.map_append] at this
  exact this.of_append_left

/-- Among host routes the comparison finds the first entry with the address. -/
theorem routingTableFindByIp_host {l : List MshRoute} (hl : ∀ r ∈ l, r.prefix_sz = 0)
    (a : InAddr) : routingTableFindByIp l a = l.find? (fun r => r.dst_ip = a) := by
  rw [routingTableFindByIp, routingTableFind]
  refine List.find?_congr fun r hr => ?_
  rw [mshRouteCompare_host (hl r hr), Bool.eq_iff_iff]
  simp only [bne, Bool.not_not, beq_iff_eq, decide_eq_true_eq]
  exact eq_comm

/-- A lookup by address is a lookup in the map. -/
theorem routingTableFindByIp_eq {s : MshData} (h : Wf s) (a : InAddr) :
    routingTableFindByIp s.routing_table a = s.entry a :=
  routingTableFindByIp_host (fun r hr => (h.entry_ok r hr).prefix_sz) a

theorem routingTableFind_eq {s : MshData} (h : Wf s) (route : MshRoute) :
    routingTableFind s.routing_table route RTFIND_BY_DEST_LONGEST_PREFIX_MATCHING =
      s.entry route.dst_ip := by
  rw [routingTableFind, MshData.entry]
  refine List.find?_congr fun r hr => ?_
  rw [mshRouteCompare_host (h.entry_ok r hr).prefix_sz, Bool.eq_iff_iff]
  simp only [bne, Bool.not_not, beq_iff_eq, decide_eq_true_eq]
  exact eq_comm

/-! ## Updates in place -/

variable {s : MshData}

structure Keeps (f : MshRoute → MshRoute) : Prop where
  self : ∀ r, (f r).self = r.self
  dst_ip : ∀ r, (f r).dst_ip = r.dst_ip
  updated_cb : ∀ r, (f r).updated_cb = r.updated_cb
  entry_ok : ∀ r, EntryOk r → EntryOk (f r)

theorem Keeps.comp {f g : MshRoute → MshRoute} (hf : Keeps f) (hg : Keeps g) :
    Keeps (fun r => f (g r)) where
  self r := (hf.self _).trans (hg.self r)
  dst_ip r := (hf.dst_ip _).trans (hg.dst_ip r)
  updated_cb r := (hf.updated_cb _).trans (hg.updated_cb r)
  entry_ok r h := hf.entry_ok _ (hg.entry_ok r h)

/-- A write to fields that `EntryOk` does not read. -/
theorem Keeps.of_fields {f : MshRoute → MshRoute} (hself : ∀ r, (f r).self = r.self)
    (hdst : ∀ r, (f r).dst_ip = r.dst_ip) (hpre : ∀ r, (f r).prefix_sz = r.prefix_sz)
    (hcb : ∀ r, (f r).updated_cb = r.updated_cb) (hnl : ∀ r, (f r).nlroute = r.nlroute)
    (hfl : ∀ r, (f r).hasFlag RTFLAG_UNMANAGED = r.hasFlag RTFLAG_UNMANAGED) : Keeps f where
  self := hself
  dst_ip := hdst
  updated_cb := hcb
  entry_ok r h := ⟨by rw [hpre]; exact h.1, by rw [hcb]; exact h.2, by rw [hfl]; exact h.3,
    by rw [hnl, hdst]; exact h.4⟩

theorem keeps_setFlag_validDestSeqNum :
    Keeps (fun r => mshRouteSetFlag r RTFLAG_VALID_DEST_SEQ_NUM) := by
  have hset : ∀ r, mshRouteSetFlag r RTFLAG_VALID_DEST_SEQ_NUM =
      { r with flags := r.flags ||| RTFLAG_VALID_DEST_SEQ_NUM } := fun _ => rfl
  apply Keeps.of_fields <;> intro r <;> simp +decide [hset, hasFlag_eq]

theorem keeps_setNextHop (next_hop : InAddr) : Keeps (mshRouteSetNextHop · next_hop) := by
  have hset : ∀ r, mshRouteSetFlag r RTFLAG_HAS_NEXTHOP =
      { r with flags := r.flags ||| RTFLAG_HAS_NEXTHOP } := fun _ => rfl
  constructor
  case entry_ok =>
    intro r h
    obtain ⟨q, hq, hdst⟩ := h.nlroute
    rw [mshRouteSetNextHop_eq r next_hop (fun _ => by rw [hq]; rfl)]
    refine ⟨h.prefix_sz, h.updated_cb, ?_, ?_⟩
    · have := h.managed
      simp +decide only [hasFlag_eq, hasBit_or] at this ⊢
      exact this
    · exact ⟨{ q with gateway := some (inAddr2nlAddr next_hop r.prefix_sz) },
        by simp [h.updated_cb, hq], hdst⟩
  all_goals
    intro r
    simp only [mshRouteSetNextHop, nexthopUpdatedCb, hset]
    cases r.updated_cb
    · rfl
    · cases r.nlroute
      · rfl
      · simp only [if_true]; split <;> rfl

theorem keeps_setHopCount (hop_count : U8) : Keeps (mshRouteSetHopCount · hop_count) := by
  apply Keeps.of_fields <;> intro r <;> rfl

theorem keeps_setDestSeqNum (seq : U32) : Keeps (mshRouteSetDestSeqNum · seq) := by
  apply Keeps.of_fields <;> intro r <;> rfl

theorem keeps_addPrecursor (a : InAddr) : Keeps (mshRouteAddPrecursor · a) := by
  apply Keeps.of_fields <;> intro r <;> simp only [mshRouteAddPrecursor] <;> split <;> rfl

theorem keeps_setLifetime (now rank : Nat) (lifetime : U32) :
    Keeps (fun r => mshRouteSetLifetime now rank r lifetime) := by
  have key : ∀ r : MshRoute, mshRouteSetLifetime now rank r lifetime = r ∨
      mshRouteSetLifetime now rank r lifetime =
        { r with
          flags := r.flags ||| RTFLAG_VALID_ENTRY
          alarm_action := RTACTION_UNSET_VALID_ENTRY
          alarm := ⟨now + lifetime.toNat * 1000, some rank⟩ } := by
    intro r
    cases h : r.hasFlag RTFLAG_UNMANAGED with
    | true => left; simp [mshRouteSetLifetime, h]
    | false => right; exact mshRouteSetLifetime_eq now rank lifetime h
  apply Keeps.of_fields <;> intro r <;> rcases key r with h | h <;>
    (rw [h]; try simp +decide [hasFlag_eq])

theorem keeps_expire (now rank : Nat) : Keeps (mshRouteExpire now rank) := by
  apply Keeps.of_fields <;> intro r <;> (rw [mshRouteExpire_eq]; try simp +decide [hasFlag_eq])

theorem keeps_clearNode :
    Keeps (fun r => { r with alarm := { r.alarm with node := none } }) := by
  apply Keeps.of_fields <;> intro r <;> rfl

theorem keeps_rreqUpdate (prev_hop : InAddr) (hop_count : U8) (seq : U32) :
    Keeps (rreqUpdate prev_hop hop_count seq) := by
  have hbase := (keeps_setHopCount hop_count).comp
    ((keeps_setNextHop prev_hop).comp keeps_setFlag_validDestSeqNum)
  have hseq := (keeps_setDestSeqNum seq).comp hbase
  constructor <;> intro r <;> simp only [rreqUpdate] <;> split
  · exact hseq.self r
  · exact hbase.self r
  · exact hseq.dst_ip r
  · exact hbase.dst_ip r
  · exact hseq.updated_cb r
  · exact hbase.updated_cb r
  · exact hseq.entry_ok r
  · exact hbase.entry_ok r

theorem keeps_rrepUpdate (prev_hop : InAddr) (rrep : AodvRrep) :
    Keeps (rrepUpdate prev_hop rrep) :=
  (keeps_setHopCount rrep.hop_count).comp ((keeps_setNextHop prev_hop).comp
    (keeps_setFlag_validDestSeqNum.comp (keeps_setDestSeqNum rrep.dest_seq_num)))

theorem Wf.modifyRoute (h : Wf s) (p : Nat) {f : MshRoute → MshRoute} (hf : Keeps f) :
    Wf (s.modifyRoute p f) := by
  have hself : ∀ r : MshRoute, (if r.self = p then f r else r).self = r.self := by
    intro r; split
    · exact hf.self r
    · rfl
  have hdst : ∀ r : MshRoute, (if r.self = p then f r else r).dst_ip = r.dst_ip := by
    intro r; split
    · exact hf.dst_ip r
    · rfl
  constructor
  case dst_nodup =>
    rw [MshData.modifyRoute_routing_table, KeyedList.map_key_map hdst]
    exact h.dst_nodup
  case self_nodup =>
    rw [MshData.modifyRoute_routing_table, MshData.modifyRoute_lost_routes, ← List.map_append,
      KeyedList.map_key_map hself]
    exact h.self_nodup
  case self_lt =>
    intro r hr
    rw [MshData.modifyRoute_routing_table, MshData.modifyRoute_lost_routes, ← List.map_append] at hr
    obtain ⟨r₀, hr₀, rfl⟩ := List.mem_map.1 hr
    rw [hself]
    exact h.self_lt r₀ hr₀
  case entry_ok =>
    intro r hr
    obtain ⟨r₀, hr₀, rfl⟩ := List.mem_map.1 hr
    split
    · exact hf.entry_ok r₀ (h.entry_ok r₀ hr₀)
    · exact h.entry_ok r₀ hr₀
  case lost_ok =>
    intro r hr
    obtain ⟨r₀, hr₀, rfl⟩ := List.mem_map.1 hr
    split
    · rw [hf.updated_cb]; exact h.lost_ok r₀ hr₀
    · exact h.lost_ok r₀ hr₀
  case rreq_nodup => exact h.rreq_nodup
  case rreq_lt => exact h.rreq_lt

theorem Wf.routeSetLifetime (h : Wf s) (p : Nat) (lifetime : U32) :
    Wf (s.routeSetLifetime p lifetime) :=
  (h.modifyRoute p (keeps_setLifetime s.os.now s.alarms lifetime)).congr rfl rfl rfl rfl

/-- **A write through a pointer to the entry of `a`** changes the entry of `a` and no other. -/
theorem entry_modifyRoute (h : Wf s) {f : MshRoute → MshRoute} (hf : Keeps f) {a : InAddr}
    {r : MshRoute} (hr : s.entry a = some r) (b : InAddr) :
    (s.modifyRoute r.self f).entry b = if b = a then some (f r) else s.entry b := by
  obtain ⟨hmem, rfl⟩ := mem_of_entry hr
  exact KeyedList.find_key_map_at h.dst_nodup h.table_self_nodup hf.dst_ip hmem b

/-- A write through a pointer changes an entry to `f` of it, or not at all. -/
theorem entry_modifyRoute_cases {p : Nat} {f : MshRoute → MshRoute} (hf : Keeps f)
    (b : InAddr) : (s.modifyRoute p f).entry b =
      (s.entry b).map (fun r => if r.self = p then f r else r) := by
  refine KeyedList.find_key_map (fun r => ?_) _ _
  split
  · exact hf.dst_ip r
  · rfl

/-- Updates that `info` and `active` do not see. -/
theorem info_modifyRoute_of_blind {p : Nat} {f : MshRoute → MshRoute} (hf : Keeps f)
    (hinfo : ∀ r, EntryOk r → (f r).info = r.info) (h : Wf s) :
    (s.modifyRoute p f).info = s.info := by
  funext b
  rw [MshData.info, entry_modifyRoute_cases hf, MshData.info]
  cases hb : s.entry b with
  | none => rfl
  | some r =>
    simp only [Option.map_some]
    split
    · rw [hinfo r (h.entryOk hb)]
    · rfl

theorem active_modifyRoute_of_blind {p : Nat} {f : MshRoute → MshRoute} (hf : Keeps f)
    (hflag : ∀ r, (f r).hasFlag RTFLAG_VALID_ENTRY = r.hasFlag RTFLAG_VALID_ENTRY) :
    (s.modifyRoute p f).active = s.active := by
  funext b
  rw [MshData.active, entry_modifyRoute_cases hf, MshData.active]
  cases hb : s.entry b with
  | none => rfl
  | some r =>
    simp only [Option.map_some, Option.any_some]
    split
    · exact hflag r
    · rfl

@[simp] theorem info_mshRouteAddPrecursor (r : MshRoute) (a : InAddr) :
    (mshRouteAddPrecursor r a).info = r.info := by
  unfold mshRouteAddPrecursor; split <;> rfl

theorem info_addPrecursor (h : Wf s) (p : Nat) (a : InAddr) :
    (s.modifyRoute p (mshRouteAddPrecursor · a)).info = s.info :=
  info_modifyRoute_of_blind (keeps_addPrecursor a) (fun _ _ => info_mshRouteAddPrecursor _ a) h

theorem active_addPrecursor (p : Nat) (a : InAddr) :
    (s.modifyRoute p (mshRouteAddPrecursor · a)).active = s.active :=
  active_modifyRoute_of_blind (keeps_addPrecursor a) fun r => by
    simp only [mshRouteAddPrecursor]; split <;> rfl

theorem info_mshRouteSetLifetime {r : MshRoute} (h : r.hasFlag RTFLAG_UNMANAGED = false)
    (now rank : Nat) (lifetime : U32) :
    (mshRouteSetLifetime now rank r lifetime).info = r.info := by
  rw [mshRouteSetLifetime_eq now rank lifetime h]
  simp +decide [MshRoute.info, hasFlag_eq]

theorem hasFlag_mshRouteSetLifetime {r : MshRoute} (h : r.hasFlag RTFLAG_UNMANAGED = false)
    (now rank : Nat) (lifetime : U32) :
    (mshRouteSetLifetime now rank r lifetime).hasFlag RTFLAG_VALID_ENTRY = true := by
  rw [mshRouteSetLifetime_eq now rank lifetime h]
  simp +decide [hasFlag_eq]

theorem info_routeSetLifetime (h : Wf s) (p : Nat) (lifetime : U32) :
    (s.routeSetLifetime p lifetime).info = s.info :=
  (info_congr rfl).trans (info_modifyRoute_of_blind (keeps_setLifetime _ _ lifetime)
    (fun _ hr => info_mshRouteSetLifetime hr.managed _ _ lifetime) h)

theorem active_routeSetLifetime (h : Wf s) {a : InAddr} {r : MshRoute}
    (hr : s.entry a = some r) (lifetime : U32) (b : InAddr) :
    (s.routeSetLifetime r.self lifetime).active b = (decide (b = a) || s.active b) := by
  have hentry := entry_modifyRoute h (keeps_setLifetime s.os.now s.alarms lifetime) hr b
  rw [active_congr (s := s.modifyRoute r.self _) (t := s.routeSetLifetime r.self lifetime) rfl,
    MshData.active, hentry]
  split
  · rename_i hb
    simp [hb, hasFlag_mshRouteSetLifetime (h.entryOk hr).managed]
  · rename_i hb
    simp [hb, MshData.active]

/-! ## Insertion -/

/-- The kernel refuses the next insertion. -/
def MshData.refuses (s : MshData) : Bool := s.os.refusals.headD false

/-- A route object that is in no list yet. -/
structure Fresh (s : MshData) (route : MshRoute) : Prop where
  self_new : ∀ r ∈ s.routing_table ++ s.lost_routes, r.self ≠ route.self
  self_lt : route.self < s.objects
  prefix_sz : route.prefix_sz = 0
  updated_cb : route.updated_cb = false
  managed : route.hasFlag RTFLAG_UNMANAGED = false

/-- The state when the kernel refuses, and when it does not. -/
def addRefused (s : MshData) (route : MshRoute) : MshData :=
  { s with
    os := { s.os with refusals := s.os.refusals.tail }, lost_routes := route :: s.lost_routes }

def addInstalled (s : MshData) (route : MshRoute) : MshData :=
  routingTableInstall { s with os := (rtnlRouteAdd s.os (routeRequest s.net_iface route)).1 } route
    (routeRequest s.net_iface route)

theorem installed_eq {route : MshRoute} (h : route.hasFlag RTFLAG_UNMANAGED = false)
    (q : RtnlRoute) :
    installed s route q =
      { route with
        nlroute := some q
        flags := route.flags ||| RTFLAG_VALID_ENTRY
        alarm_action := RTACTION_UNSET_VALID_ENTRY
        alarm := ⟨s.os.now + ACTIVE_ROUTE_TIMEOUT.toNat * 1000, some s.alarms⟩
        updated_cb := true } := by
  have h' : MshRoute.hasFlag { route with nlroute := some q } RTFLAG_UNMANAGED = false := h
  rw [installed, mshRouteSetLifetime_eq _ _ _ h']

theorem routeRequest_dst {iface : U32} {route : MshRoute} (h : route.prefix_sz = 0) :
    (routeRequest iface route).dst = inAddr2nlAddr route.dst_ip 0 := by
  rw [routeRequest, h]

theorem EntryOk.installed {t : MshData} {route : MshRoute} (h : Fresh s route) {q : RtnlRoute}
    (hq : q.dst = inAddr2nlAddr route.dst_ip 0) : EntryOk (installed t route q) := by
  rw [installed_eq h.managed]
  refine ⟨h.prefix_sz, rfl, ?_, q, rfl, hq⟩
  have := h.managed
  simp +decide only [hasFlag_eq, hasBit_or] at this ⊢
  exact this

/-- An insertion releases exactly the packets for its destination. -/
theorem routingTableInstall_eq {t : MshData} {route : MshRoute} (h : Fresh s route) (q : RtnlRoute) :
    routingTableInstall t route q =
      packetObjAcceptWhere
        { t with
          alarms := t.alarms + 1, routing_table := installed t route q :: t.routing_table }
        (fun e => e.dest = route.dst_ip) := by
  rw [routingTableInstall, packetsFifoProcessRoute]
  congr 1
  funext e
  have hpre : (installed t route q).prefix_sz = 0 := by
    rw [installed_eq h.managed]; exact h.prefix_sz
  have hdst : (installed t route q).dst_ip = route.dst_ip := by rw [installed_eq h.managed]
  rw [mshRouteCompare_host hpre, hdst, Bool.eq_iff_iff]
  simp

/-- The errno of `rtnl_route_add` makes `routing_table_add` give up exactly on a refusal. -/
theorem rtnlRouteAdd_errno (os : Os) (q : RtnlRoute) :
    ((rtnlRouteAdd os q).2 < 0 ∧ (rtnlRouteAdd os q).2 ≠ EEXIST) ↔
      os.refusals.headD false = true := by
  unfold rtnlRouteAdd
  cases os.refusals.headD false with
  | true => simp [EEXIST]
  | false => simp only [Bool.false_eq_true, if_false]; split <;> simp [EEXIST]

theorem routingTableAdd_eq (h : Wf s) {route : MshRoute} (hnew : s.entry route.dst_ip = none) :
    (routingTableAdd s route).1 =
      if s.refuses then addRefused s route else addInstalled s route := by
  have herr := rtnlRouteAdd_errno s.os (routeRequest s.net_iface route)
  unfold routingTableAdd
  rw [routingTableFind_eq h, hnew]
  dsimp only
  cases href : s.refuses with
  | true =>
    have hhd : s.os.refusals.headD false = true := href
    rw [if_pos (herr.2 hhd), if_pos rfl]
    simp only [addRefused, rtnlRouteAdd, hhd, if_true]
  | false =>
    have hhd : ¬ s.os.refusals.headD false = true := by
      rw [← MshData.refuses, href]; exact Bool.false_ne_true
    rw [if_neg (fun hc => hhd (herr.1 hc)), if_neg Bool.false_ne_true]
    rfl

theorem Wf.addRefused (h : Wf s) {route : MshRoute} (hf : Fresh s route) :
    Wf (addRefused s route) := by
  constructor
  case dst_nodup => exact h.dst_nodup
  case self_nodup =>
    have hperm : ((s.routing_table ++ route :: s.lost_routes).map (·.self)).Perm
        (((route :: (s.routing_table ++ s.lost_routes)).map (·.self))) :=
      List.perm_middle.map _
    refine hperm.nodup_iff.2 (List.nodup_cons.2 ⟨?_, h.self_nodup⟩)
    rintro hm
    obtain ⟨r, hr, hrs⟩ := List.mem_map.1 hm
    exact hf.self_new r hr hrs
  case self_lt =>
    intro r hr
    rcases List.mem_append.1 hr with hr | hr
    · exact h.self_lt r (List.mem_append_left _ hr)
    · rcases List.mem_cons.1 hr with rfl | hr
      · exact hf.self_lt
      · exact h.self_lt r (List.mem_append_right _ hr)
  case entry_ok => exact h.entry_ok
  case lost_ok =>
    intro r hr
    rcases List.mem_cons.1 hr with rfl | hr
    · exact hf.updated_cb
    · exact h.lost_ok r hr
  case rreq_nodup => exact h.rreq_nodup
  case rreq_lt => exact h.rreq_lt

theorem Wf.addInstalled (h : Wf s) {route : MshRoute} (hf : Fresh s route)
    (hnew : s.entry route.dst_ip = none) : Wf (addInstalled s route) := by
  rw [Meshias.addInstalled, routingTableInstall_eq hf]
  constructor
  case dst_nodup =>
    refine List.nodup_cons.2 ⟨?_, h.dst_nodup⟩
    intro hm
    obtain ⟨r, hr, hrd⟩ := List.mem_map.1 hm
    rw [installed_eq hf.managed] at hrd
    exact KeyedList.find_key_none.1 hnew r hr hrd
  case self_nodup =>
    refine List.nodup_cons.2 ⟨?_, h.self_nodup⟩
    intro hm
    obtain ⟨r, hr, hrs⟩ := List.mem_map.1 hm
    rw [installed_eq hf.managed] at hrs
    exact hf.self_new r hr hrs
  case self_lt =>
    intro r hr
    rcases List.mem_cons.1 hr with rfl | hr
    · rw [installed_eq hf.managed]; exact hf.self_lt
    · exact h.self_lt r hr
  case entry_ok =>
    intro r hr
    rcases List.mem_cons.1 hr with rfl | hr
    · exact EntryOk.installed hf (routeRequest_dst hf.prefix_sz)
    · exact h.entry_ok r hr
  case lost_ok => exact h.lost_ok
  case rreq_nodup => exact h.rreq_nodup
  case rreq_lt => exact h.rreq_lt

theorem Wf.routingTableAdd (h : Wf s) {route : MshRoute} (hf : Fresh s route)
    (hnew : s.entry route.dst_ip = none) : Wf (routingTableAdd s route).1 := by
  rw [routingTableAdd_eq h hnew]
  split
  · exact h.addRefused hf
  · exact h.addInstalled hf hnew

/-- **An insertion** makes the entry of its destination, unless the kernel refuses. -/
theorem entry_routingTableAdd (h : Wf s) {route : MshRoute} (hf : Fresh s route)
    (hnew : s.entry route.dst_ip = none) (b : InAddr) :
    (routingTableAdd s route).1.entry b =
      if s.refuses = false ∧ b = route.dst_ip then
        some (installed s route (routeRequest s.net_iface route))
      else s.entry b := by
  rw [routingTableAdd_eq h hnew]
  cases s.refuses with
  | true => rw [if_pos rfl, if_neg (by simp)]; rfl
  | false =>
    rw [if_neg Bool.false_ne_true, addInstalled, routingTableInstall_eq hf]
    have hnow : installed { s with os := (rtnlRouteAdd s.os (routeRequest s.net_iface route)).1 }
        route (routeRequest s.net_iface route) =
          installed s route (routeRequest s.net_iface route) := by
      rw [installed_eq hf.managed, installed_eq hf.managed]
      dsimp only [rtnlRouteAdd]
      split
      · rfl
      · split <;> rfl
    simp only [MshData.entry, packetObjAcceptWhere_routing_table, hnow, List.find?_cons]
    have hdst : (installed s route (routeRequest s.net_iface route)).dst_ip = route.dst_ip := by
      rw [installed_eq hf.managed]
    rw [hdst]
    by_cases hb : b = route.dst_ip
    · simp [hb]
    · simp [hb, Ne.symm hb]

theorem info_installed {route : MshRoute} (h : route.hasFlag RTFLAG_UNMANAGED = false)
    (q : RtnlRoute) : (installed s route q).info = route.info.withNlroute q := by
  rw [installed_eq h]
  simp +decide [MshRoute.info, RouteInfo.withNlroute, hasFlag_eq]

theorem info_routingTableAdd (h : Wf s) {route : MshRoute} (hf : Fresh s route)
    (hnew : s.entry route.dst_ip = none) (b : InAddr) :
    (routingTableAdd s route).1.info b =
      if s.refuses = false ∧ b = route.dst_ip then
        some (route.info.withNlroute (routeRequest s.net_iface route))
      else s.info b := by
  rw [MshData.info, entry_routingTableAdd h hf hnew]
  split
  · rw [Option.map_some, info_installed hf.managed]
  · rfl

theorem active_routingTableAdd (h : Wf s) {route : MshRoute} (hf : Fresh s route)
    (hnew : s.entry route.dst_ip = none) (b : InAddr) :
    (routingTableAdd s route).1.active b =
      (decide (s.refuses = false ∧ b = route.dst_ip) || s.active b) := by
  rw [MshData.active, entry_routingTableAdd h hf hnew]
  split
  · rename_i hc
    have hvalid : (installed s route (routeRequest s.net_iface route)).hasFlag
        RTFLAG_VALID_ENTRY = true := by
      rw [installed_eq hf.managed]; simp +decide [hasFlag_eq]
    simp [hc, hvalid]
  · rename_i hc
    simp [hc, MshData.active]

/-! ## Destruction -/

theorem Wf.filterTables (h : Wf s) {t : MshData}
    (ht : t.routing_table.Sublist s.routing_table) (hl : t.lost_routes.Sublist s.lost_routes)
    (hq : t.rreq_queue = s.rreq_queue) (ho : t.objects = s.objects) : Wf t := by
  constructor
  · exact h.dst_nodup.sublist (ht.map _)
  · exact h.self_nodup.sublist ((ht.append hl).map _)
  · rw [ho]; exact fun r hr => h.self_lt r ((ht.append hl).subset hr)
  · exact fun r hr => h.entry_ok r (ht.subset hr)
  · exact fun r hr => h.lost_ok r (hl.subset hr)
  · rw [hq]; exact h.rreq_nodup
  · rw [hq, ho]; exact h.rreq_lt

end Meshias
