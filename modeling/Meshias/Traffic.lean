import Meshias.Messages

/-!
# Data packets, requests of the node itself, and alarms

* `refreshes` — the entries that a data packet for, or from, an address brings back into use.
* `Originated` — everything `aodv_find_route` changes.
* `AlarmRun` — everything that one expired alarm can do: the entry is marked invalid, or destroyed;
  the request is forgotten, given up, or tried once more.

Principal results: `routingTableUpdateRoute_spec`, `originated_aodvFindRoute`,
`runAlarm_cases`, and `Wf.step` — every turn of the main loop keeps `Wf`.
-/

set_option autoImplicit false

namespace Meshias

variable {s t u : MshData}

/-! ## Refreshes -/

/-- Using the route to `a` refreshes its entry and the one of its next hop. -/
def refreshes (s : MshData) (a b : InAddr) : Bool :=
  (s.info a).any (fun i => b = a ∨ b = i.next_hop ∧ (s.info b).isSome)

theorem routingTableRefresh_spec (h : Wf s) {a : InAddr} {r : MshRoute} (hr : s.entry a = some r) :
    SameTable s (routingTableRefresh s r a) ∧ Silent s (routingTableRefresh s r a) ∧
      ∀ b, (routingTableRefresh s r a).active b = (refreshes s a b || s.active b) := by
  have hfirst := sameTable_routeSetLifetime s r.self ACTIVE_ROUTE_TIMEOUT
  have hinfo : (s.routeSetLifetime r.self ACTIVE_ROUTE_TIMEOUT).info = s.info := hfirst.info h
  have hact := active_routeSetLifetime h hr ACTIVE_ROUTE_TIMEOUT
  have hrefresh : ∀ b, refreshes s a b = decide (b = a ∨ b = r.next_hop ∧ (s.info b).isSome) := by
    intro b
    rw [refreshes, info_of_entry hr]
    rfl
  unfold routingTableRefresh
  dsimp only
  split
  · rename_i hne
    rw [routingTableFindByIp_eq (hfirst.wf h)]
    cases hnext : (s.routeSetLifetime r.self ACTIVE_ROUTE_TIMEOUT).entry r.next_hop with
    | none =>
      refine ⟨hfirst, ⟨rfl, rfl, rfl⟩, fun b => ?_⟩
      have hnone : s.info r.next_hop = none := by rw [← hinfo]; exact info_eq_none.2 hnext
      rw [hact, hrefresh]
      by_cases hb : b = r.next_hop
      · simp [hb, hnone]
      · simp [hb]
    | some q =>
      refine ⟨hfirst.trans (sameTable_routeSetLifetime _ _ _), ⟨rfl, rfl, rfl⟩, fun b => ?_⟩
      have hsome : s.info r.next_hop = some q.info := by rw [← hinfo]; exact info_of_entry hnext
      dsimp only
      rw [active_routeSetLifetime (hfirst.wf h) hnext, hact, hrefresh]
      by_cases hb : b = r.next_hop
      · simp [hb, hsome]
      · simp [hb]
  · rename_i heq
    refine ⟨hfirst, ⟨rfl, rfl, rfl⟩, fun b => ?_⟩
    rw [hact, hrefresh, not_not.1 heq]
    by_cases hb : b = a <;> simp [hb]

theorem routingTableUpdateOrig_spec (h : Wf s) (o : InAddr) :
    SameTable s (routingTableUpdateOrig s o) ∧ Silent s (routingTableUpdateOrig s o) ∧
      ∀ b, (routingTableUpdateOrig s o).active b =
        (decide (o ≠ 0) && refreshes s o b || s.active b) := by
  unfold routingTableUpdateOrig
  split
  · rename_i hzero
    exact ⟨.refl s, .refl s, fun b => by simp [hzero]⟩
  · rename_i hne
    rw [routingTableFindByIp_eq h]
    cases hr : s.entry o with
    | none =>
      refine ⟨.refl s, .refl s, fun b => ?_⟩
      simp [refreshes, info_eq_none.2 hr]
    | some r =>
      obtain ⟨hsame, hsilent, hact⟩ := routingTableRefresh_spec h hr
      refine ⟨hsame, hsilent, fun b => ?_⟩
      rw [decide_eq_true hne, Bool.true_and]
      exact hact b

/-- The lookup succeeds for the node itself and for a destination whose route is in use. -/
def routeUsable (s : MshData) (dst : InAddr) : Bool := dst = s.ip_addr || s.active dst

theorem sameTable_stats (s : MshData) (stats : Statistics) : SameTable s { s with stats } :=
  ⟨fun h => h.congr rfl rfl rfl rfl, rfl, rfl, rfl, rfl, rfl, rfl, rfl, rfl, rfl, rfl,
    fun _ => rfl⟩

/-- **What `routing_table_update_route` can do.** -/
inductive RouteUpdated (s : MshData) (dst orig : InAddr) (x : MshData × Bool) : Prop where
  | own (hdst : dst = s.ip_addr) (hx : x = (routingTableUpdateOrig s orig, true))
  | unknown (hdst : dst ≠ s.ip_addr) (hinact : s.active dst = false) (hx : x = (s, false))
  | expired (hdst : dst ≠ s.ip_addr) (hinact : s.active dst = false) (stats : Statistics)
      (hx : x = ({ s with stats }, false))
  | refreshed (hdst : dst ≠ s.ip_addr) (hact : s.active dst = true) {r : MshRoute}
      (hr : s.entry dst = some r)
      (hx : x = (routingTableUpdateOrig (routingTableRefresh s r dst) orig, true))

theorem routeUpdated (h : Wf s) (dst orig : InAddr) :
    RouteUpdated s dst orig (routingTableUpdateRoute s dst orig) := by
  unfold routingTableUpdateRoute
  split
  · rename_i hne
    rw [routingTableFindByIp_eq h]
    cases hr : s.entry dst with
    | none =>
      have hinact : s.active dst = false := by rw [MshData.active, hr]; rfl
      exact .unknown hne hinact rfl
    | some r =>
      have hact := active_of_entry hr
      dsimp only
      split
      · rename_i hv
        have hinact : s.active dst = false := by rw [hact]; simpa using hv
        exact .expired hne hinact _ rfl
      · rename_i hv
        have hact' : s.active dst = true := by rw [hact]; simpa using hv
        exact .refreshed hne hact' hr rfl
  · rename_i heq
    exact .own (not_not.1 heq) rfl

/-- **`routing_table_update_route`**: a usable route is refreshed, and with it the one back to the
    source; otherwise nothing happens. -/
theorem routingTableUpdateRoute_spec (h : Wf s) (dst orig : InAddr) :
    SameTable s (routingTableUpdateRoute s dst orig).1 ∧
      Silent s (routingTableUpdateRoute s dst orig).1 ∧
      (routingTableUpdateRoute s dst orig).2 = routeUsable s dst ∧
      ∀ b, (routingTableUpdateRoute s dst orig).1.active b =
        (routeUsable s dst &&
          (decide (dst ≠ s.ip_addr) && refreshes s dst b || decide (orig ≠ 0) && refreshes s orig b)
          || s.active b) := by
  cases routeUpdated h dst orig with
  | own hdst hx =>
    rw [hx]
    obtain ⟨hsame, hsilent, hactive⟩ := routingTableUpdateOrig_spec h orig
    exact ⟨hsame, hsilent, by simp [routeUsable, hdst],
      fun b => by simpa [routeUsable, hdst] using hactive b⟩
  | unknown hne hinact hx =>
    rw [hx]
    exact ⟨.refl s, .refl s, by simp [routeUsable, hne, hinact],
      fun b => by simp [routeUsable, hne, hinact]⟩
  | expired hne hinact stats hx =>
    rw [hx]
    exact ⟨sameTable_stats s stats, ⟨rfl, rfl, rfl⟩, by simp [routeUsable, hne, hinact],
      fun b => by simp only [routeUsable, hne, hinact]; exact congrFun (active_congr rfl) b⟩
  | @refreshed hne hact r hr hx =>
    rw [hx]
    obtain ⟨hsame, hsilent, hactive⟩ := routingTableRefresh_spec h hr
    obtain ⟨hsame', hsilent', hactive'⟩ := routingTableUpdateOrig_spec (hsame.wf h) orig
    refine ⟨hsame.trans hsame', hsilent.trans hsilent', by simp [routeUsable, hact], fun b => ?_⟩
    have hrefresh : refreshes (routingTableRefresh s r dst) orig b = refreshes s orig b := by
      rw [refreshes, refreshes, hsame.info h]
    rw [hactive', hactive, hrefresh, routeUsable, hact]
    simp only [hne, Bool.or_true, Bool.true_and, ne_eq, not_false_eq_true, decide_true]
    cases refreshes s dst b <;> simp

/-! ## Originating a request -/

/-- The request that `aodv_find_route` broadcasts. -/
def ownRequest (s : MshData) (dest : InAddr) (prev_tries : Int) : AodvPkt :=
  ⟨aodvPktBuildRreq 5 0 (s.rreq_id + 1) dest 0 s.ip_addr (s.seq_num + 1), s.broadcast_addr,
    (expandingRingSearchTtl 0 prev_tries).setWidth 8⟩

/-- The TTL of a request is odd, or `NET_DIAMETER`. -/
theorem ownRequest_ttl_ne_zero (s : MshData) (dest : InAddr) (prev_tries : Int) :
    (ownRequest s dest prev_tries).ttl ≠ 0 := by
  have hodd : ∀ x : U32, ((0 : U32) + 3 + x * 2).setWidth 8 ≠ (0 : U8) := by
    intro x
    bv_omega
  change (expandingRingSearchTtl 0 prev_tries).setWidth 8 ≠ 0
  unfold expandingRingSearchTtl
  split
  · decide
  · dsimp only
    split
    · decide
    · exact hodd _

/-- The buffer entry for a first try. -/
def ownEntry (s : MshData) (dest : InAddr) : RreqFifo :=
  ⟨s.objects, s.rreq_id + 1, dest, 0,
    addAlarm s.os.now s.alarms (setAlarmTime (binaryExponentialBackoffTime 0)).1
      (setAlarmTime (binaryExponentialBackoffTime 0)).2⟩

/-- What `aodv_find_route` changes. -/
structure Originated (s : MshData) (dest : InAddr) (prev_tries : Int) (t : MshData) : Prop where
  wf : Wf s → Wf t
  ip_addr : t.ip_addr = s.ip_addr
  broadcast_addr : t.broadcast_addr = s.broadcast_addr
  net_iface : t.net_iface = s.net_iface
  seq_num : t.seq_num = s.seq_num + 1
  seq_incs : t.seq_incs = s.seq_incs + 1
  rreq_id : t.rreq_id = s.rreq_id + 1
  rreq_queue : t.rreq_queue =
    if prev_tries = 0 then ownEntry s dest :: s.rreq_queue else s.rreq_queue
  routing_table : t.routing_table = s.routing_table
  packets_queue : t.packets_queue = s.packets_queue
  now : t.os.now = s.os.now
  verdicts : t.os.verdicts = s.os.verdicts
  dels : t.os.dels = s.os.dels
  routes : t.os.routes = s.os.routes
  sent : t.os.sent = s.os.sent ++ [ownRequest s dest prev_tries]

theorem originated_aodvFindRoute (s : MshData) (dest : InAddr) (prev_tries : Int) :
    Originated s dest prev_tries (aodvFindRoute s dest none prev_tries) := by
  unfold aodvFindRoute
  by_cases hfirst : prev_tries = 0
  · subst hfirst
    have hcongr : Wf s → Wf { s.incSeqNum with rreq_id := s.rreq_id + 1 } := fun h =>
      h.congr rfl rfl rfl rfl
    exact ⟨fun h => (wf_rreqFifoInsert (hcongr h) _ _ _ _).congr rfl rfl rfl rfl, rfl, rfl, rfl,
      rfl, rfl, rfl, rfl, rfl, rfl, rfl, rfl, rfl, rfl,
      sent_aodvPktSend _ (ownRequest_ttl_ne_zero s dest 0)⟩
  · simp only [if_neg hfirst]
    exact ⟨fun h => h.congr rfl rfl rfl rfl, rfl, rfl, rfl, rfl, rfl, rfl,
      by rw [if_neg hfirst]; rfl,
      rfl, rfl, rfl, rfl, rfl, rfl, sent_aodvPktSend _ (ownRequest_ttl_ne_zero s dest prev_tries)⟩

/-! ## One data packet -/

/-- The state after the lookup for a captured packet. -/
def packetLookedUp (s : MshData) (nfa : NfqData) (orig : InAddr) : MshData :=
  (routingTableUpdateRoute s (nfqueuePacketGetDest nfa) orig).1

/-- A packet that is accepted without a lookup. -/
def packetPasses (s : MshData) (nfa : NfqData) : Bool :=
  nfqueuePacketIsAodv nfa || nfqueuePacketGetDest nfa = s.broadcast_addr ||
    !(nfqueuePacketGetHook nfa = NF_IP_LOCAL_IN || nfqueuePacketGetHook nfa = NF_IP_FORWARD ||
      nfqueuePacketGetHook nfa = NF_IP_LOCAL_OUT)

/-- **Everything a captured packet can do.** -/
inductive PacketManaged (s : MshData) (nfa : NfqData) (t : MshData) : Prop where
  | passed (hpass : packetPasses s nfa = true)
      (ht : t = nfqSetVerdict s (nfqueuePacketGetId nfa) .NF_ACCEPT)
  | routed (orig : InAddr) (hpass : packetPasses s nfa = false)
      (horig : orig = if nfqueuePacketGetHook nfa = NF_IP_LOCAL_OUT then 0
        else nfqueuePacketGetOrig nfa)
      (husable : nfqueuePacketGetHook nfa = NF_IP_FORWARD ∨
        routeUsable s (nfqueuePacketGetDest nfa) = true)
      (ht : t = nfqSetVerdict (packetLookedUp s nfa orig) (nfqueuePacketGetId nfa) .NF_ACCEPT)
  | unanswered (hpass : packetPasses s nfa = false)
      (hhook : nfqueuePacketGetHook nfa = NF_IP_LOCAL_IN)
      (husable : routeUsable s (nfqueuePacketGetDest nfa) = false)
      (ht : t = packetLookedUp s nfa (nfqueuePacketGetOrig nfa))
  | queued (hpass : packetPasses s nfa = false)
      (hhook : nfqueuePacketGetHook nfa = NF_IP_LOCAL_OUT)
      (husable : routeUsable s (nfqueuePacketGetDest nfa) = false)
      (hwaiting : rreqFifoWaitingResponseFor s.rreq_queue (nfqueuePacketGetDest nfa) = true)
      (ht : t = packetsFifoPush (packetLookedUp s nfa 0) (nfqueuePacketGetId nfa)
        (nfqueuePacketGetDest nfa))
  | discovered (hpass : packetPasses s nfa = false)
      (hhook : nfqueuePacketGetHook nfa = NF_IP_LOCAL_OUT)
      (husable : routeUsable s (nfqueuePacketGetDest nfa) = false)
      (hwaiting : rreqFifoWaitingResponseFor s.rreq_queue (nfqueuePacketGetDest nfa) = false)
      (ht : t = aodvFindRoute (packetsFifoPush (packetLookedUp s nfa 0) (nfqueuePacketGetId nfa)
        (nfqueuePacketGetDest nfa)) (nfqueuePacketGetDest nfa) none 0)

theorem packetManaged (h : Wf s) (nfa : NfqData) : PacketManaged s nfa (managePacket s nfa) := by
  have hin : NF_IP_LOCAL_IN ≠ NF_IP_LOCAL_OUT := by decide
  have hfwd : NF_IP_FORWARD ≠ NF_IP_LOCAL_OUT := by decide
  unfold managePacket
  dsimp only
  by_cases haodv : nfqueuePacketIsAodv nfa = true
  · rw [if_pos haodv]
    exact .passed (by simp [packetPasses, haodv]) rfl
  rw [if_neg haodv]
  by_cases hbcast : nfqueuePacketGetDest nfa = s.broadcast_addr
  · have hpass : packetPasses s nfa = true := by simp [packetPasses, hbcast]
    simp only [manageInputPacket, manageForwardPacket, manageOutputPacket, if_pos hbcast]
    split
    · exact .passed hpass rfl
    · split
      · exact .passed hpass rfl
      · split <;> exact .passed hpass rfl
  split
  · rename_i hhook
    have hpass : packetPasses s nfa = false := by simp [packetPasses, haodv, hbcast, hhook]
    have hfound := (routingTableUpdateRoute_spec h (nfqueuePacketGetDest nfa)
      (nfqueuePacketGetOrig nfa)).2.2.1
    simp only [manageInputPacket, if_neg hbcast, hfound]
    cases husable : routeUsable s (nfqueuePacketGetDest nfa) with
    | true => exact .routed _ hpass (by rw [hhook, if_neg hin]) (.inr husable) rfl
    | false => exact .unanswered hpass hhook husable rfl
  split
  · rename_i hhook
    have hpass : packetPasses s nfa = false := by simp [packetPasses, haodv, hbcast, hhook]
    simp only [manageForwardPacket, if_neg hbcast]
    exact .routed _ hpass (by rw [hhook, if_neg hfwd]) (.inl hhook) rfl
  split
  · rename_i hhook
    have hpass : packetPasses s nfa = false := by simp [packetPasses, haodv, hbcast, hhook]
    obtain ⟨hsame, -, hfound, -⟩ := routingTableUpdateRoute_spec h (nfqueuePacketGetDest nfa) 0
    simp only [manageOutputPacket, if_neg hbcast, hfound, packetsFifoPush_rreq_queue,
      hsame.rreq_queue]
    cases husable : routeUsable s (nfqueuePacketGetDest nfa) with
    | true => exact .routed _ hpass (by rw [hhook, if_pos rfl]) (.inr husable) rfl
    | false =>
      cases hwaiting : rreqFifoWaitingResponseFor s.rreq_queue (nfqueuePacketGetDest nfa) with
      | true => exact .queued hpass hhook husable hwaiting rfl
      | false => exact .discovered hpass hhook husable hwaiting rfl
  · rename_i h1 h2 h3
    exact .passed (by simp [packetPasses, h1, h2, h3]) rfl

theorem sameTable_packetLookedUp (h : Wf s) (nfa : NfqData) (orig : InAddr) :
    SameTable s (packetLookedUp s nfa orig) := (routingTableUpdateRoute_spec h _ orig).1

/-- A captured packet changes no entry. -/
theorem info_managePacket (h : Wf s) (nfa : NfqData) : (managePacket s nfa).info = s.info := by
  have hlook := fun orig => (sameTable_packetLookedUp h nfa orig).info h
  cases packetManaged h nfa with
  | passed _ ht => rw [ht]; rfl
  | routed orig _ _ _ ht => rw [ht, ← hlook orig]; rfl
  | unanswered _ _ _ ht => rw [ht, hlook]
  | queued _ _ _ _ ht => rw [ht, ← hlook 0]; rfl
  | discovered _ _ _ _ ht =>
    rw [ht, info_congr (originated_aodvFindRoute _ _ _).routing_table, ← hlook 0]
    rfl

theorem wf_managePacket (h : Wf s) (nfa : NfqData) : Wf (managePacket s nfa) := by
  have hlook := fun orig => (sameTable_packetLookedUp h nfa orig).wf h
  cases packetManaged h nfa with
  | passed _ ht => rw [ht]; exact h.congr rfl rfl rfl rfl
  | routed orig _ _ _ ht => rw [ht]; exact (hlook orig).congr rfl rfl rfl rfl
  | unanswered _ _ _ ht => rw [ht]; exact hlook _
  | queued _ _ _ _ ht => rw [ht]; exact (hlook 0).congr rfl rfl rfl rfl
  | discovered _ _ _ _ ht =>
    rw [ht]
    exact (originated_aodvFindRoute _ _ _).wf ((hlook 0).congr rfl rfl rfl rfl)

/-! ## The alarm tree -/

/-- What the objects of one list have in the tree. -/
theorem owners_sublist {β : Type} (l : List β) (alarm : β → AlarmBlock) (owner : β → AlarmOwner) :
    ((l.filterMap (fun b => pendingAlarm (alarm b) (owner b))).map (·.owner)).Sublist
      (l.map owner) := by
  induction l with
  | nil => exact .slnil
  | cons b l ih =>
    rw [List.filterMap_cons, List.map_cons]
    cases hb : (alarm b).node with
    | none => rw [pendingAlarm, hb]; exact ih.cons _
    | some rank => rw [pendingAlarm, hb]; exact ih.cons_cons _

/-- **Every object has one alarm block.** -/
theorem owners_alarmTree_nodup (h : Wf s) : ((alarmTree s).map (·.owner)).Nodup := by
  have hroutes : ((s.routing_table ++ s.lost_routes).map (fun r => AlarmOwner.route r.self)).Nodup := by
    have hmap := h.self_nodup.map (f := AlarmOwner.route) fun a b hab => AlarmOwner.route.inj hab
    rwa [List.map_map] at hmap
  have hrreqs : (s.rreq_queue.map (fun e => AlarmOwner.rreq e.self)).Nodup := by
    have hmap := h.rreq_nodup.map (f := AlarmOwner.rreq) fun a b hab => AlarmOwner.rreq.inj hab
    rwa [List.map_map] at hmap
  have hall := hroutes.append hrreqs fun o ho ho' => by
    obtain ⟨r, -, rfl⟩ := List.mem_map.1 ho
    obtain ⟨e, -, he⟩ := List.mem_map.1 ho'
    cases he
  rw [alarmTree, List.map_append]
  exact hall.sublist ((owners_sublist _ _ _).append (owners_sublist _ _ _))

theorem mem_alarmTree_route {r : MshRoute} (hr : r ∈ s.routing_table)
    (hpend : r.alarm.node.isSome = true) :
    ∃ a ∈ alarmTree s, a.owner = .route r.self ∧ a.tv = r.alarm.tv := by
  obtain ⟨rank, hrank⟩ := Option.isSome_iff_exists.1 hpend
  refine ⟨⟨r.alarm.tv, rank, .route r.self⟩, ?_, rfl, rfl⟩
  rw [alarmTree, List.mem_append, List.mem_filterMap]
  exact .inl ⟨r, List.mem_append_left _ hr, by rw [pendingAlarm, hrank]; rfl⟩

theorem mem_alarmTree_rreq {e : RreqFifo} (he : e ∈ s.rreq_queue)
    (hpend : e.alarm.node.isSome = true) :
    ∃ a ∈ alarmTree s, a.owner = .rreq e.self ∧ a.tv = e.alarm.tv := by
  obtain ⟨rank, hrank⟩ := Option.isSome_iff_exists.1 hpend
  refine ⟨⟨e.alarm.tv, rank, .rreq e.self⟩, ?_, rfl, rfl⟩
  rw [alarmTree, List.mem_append, List.mem_filterMap, List.mem_filterMap]
  exact .inr ⟨e, he, by rw [pendingAlarm, hrank]; rfl⟩

/-- The alarm of an entry in the tree is that of the entry. -/
theorem tv_of_mem_alarmTree (h : Wf s) {a : PendingAlarm} (ha : a ∈ alarmTree s) {r : MshRoute}
    (hr : r ∈ s.routing_table) (howner : a.owner = .route r.self) : a.tv = r.alarm.tv := by
  rw [alarmTree, List.mem_append, List.mem_filterMap, List.mem_filterMap] at ha
  rcases ha with ⟨x, hx, hxa⟩ | ⟨e, -, he⟩
  · obtain ⟨rank, -, rfl⟩ := Option.map_eq_some_iff.1 hxa
    rw [KeyedList.eq_of_key h.self_nodup hx (List.mem_append_left _ hr) (AlarmOwner.route.inj howner)]
  · obtain ⟨rank, -, rfl⟩ := Option.map_eq_some_iff.1 he
    cases howner

theorem tv_of_mem_alarmTree_rreq (h : Wf s) {a : PendingAlarm} (ha : a ∈ alarmTree s)
    {e : RreqFifo} (he : e ∈ s.rreq_queue) (howner : a.owner = .rreq e.self) :
    a.tv = e.alarm.tv := by
  rw [alarmTree, List.mem_append, List.mem_filterMap, List.mem_filterMap] at ha
  rcases ha with ⟨r, -, hr⟩ | ⟨x, hx, hxa⟩
  · obtain ⟨rank, -, rfl⟩ := Option.map_eq_some_iff.1 hr
    cases howner
  · obtain ⟨rank, -, rfl⟩ := Option.map_eq_some_iff.1 hxa
    rw [KeyedList.eq_of_key h.rreq_nodup hx he (AlarmOwner.rreq.inj howner)]

theorem mem_alarmRunQueue {a : PendingAlarm} :
    a ∈ alarmRunQueue s ↔ a ∈ alarmTree s ∧ a.tv ≤ s.os.now := by
  rw [alarmRunQueue, List.mem_insertionSort, List.mem_filter, decide_eq_true_eq]

theorem owners_alarmRunQueue_nodup (h : Wf s) : ((alarmRunQueue s).map (·.owner)).Nodup := by
  rw [alarmRunQueue, ((List.perm_insertionSort _ _).map _).nodup_iff]
  exact (owners_alarmTree_nodup h).sublist (List.filter_sublist.map _)

/-! ## One alarm -/

/-- The alarm of an entry: it goes out of use. -/
structure Expired (s : MshData) (a : InAddr) (t : MshData) : Prop where
  same : SameTable s t
  silent : Silent s t
  active : ∀ b, t.active b = (decide (b ≠ a) && s.active b)

/-- The alarm of an entry: it leaves the table, and the kernel is asked to delete `q`. -/
structure Destroyed (s : MshData) (a : InAddr) (q : RtnlRoute) (t : MshData) : Prop where
  wf : Wf t
  ip_addr : t.ip_addr = s.ip_addr
  broadcast_addr : t.broadcast_addr = s.broadcast_addr
  net_iface : t.net_iface = s.net_iface
  rreq_id : t.rreq_id = s.rreq_id
  rreq_queue : t.rreq_queue = s.rreq_queue
  packets_queue : t.packets_queue = s.packets_queue
  now : t.os.now = s.os.now
  verdicts : t.os.verdicts = s.os.verdicts
  silent : Silent s t
  info : ∀ b, t.info b = if b = a then none else s.info b
  active : ∀ b, t.active b = (decide (b ≠ a) && s.active b)
  routes : t.os.routes = (rtnlRouteDel s.os q).1.routes
  dels : t.os.dels = (rtnlRouteDel s.os q).1.dels

/-- The buffer entry after one more try, with the rank of its new alarm. -/
def retriedEntry (s : MshData) (e : RreqFifo) (rank : Nat) : RreqFifo :=
  { e with
    rreq_id := s.rreq_id + 1
    prev_tries := e.prev_tries + 1
    alarm :=
      ⟨s.os.now + (binaryExponentialBackoffTime (e.prev_tries + 1)).toNat * 1000, some rank⟩ }

/-- The alarm of a request of the node itself: one more try. -/
structure Retried (s : MshData) (e : RreqFifo) (t : MshData) : Prop where
  wf : Wf t
  ip_addr : t.ip_addr = s.ip_addr
  broadcast_addr : t.broadcast_addr = s.broadcast_addr
  net_iface : t.net_iface = s.net_iface
  seq_num : t.seq_num = s.seq_num + 1
  seq_incs : t.seq_incs = s.seq_incs + 1
  rreq_id : t.rreq_id = s.rreq_id + 1
  rreq_queue : ∃ rank, t.rreq_queue =
    s.rreq_queue.map (fun x => if x.self = e.self then retriedEntry s e rank else x)
  packets_queue : t.packets_queue = s.packets_queue
  now : t.os.now = s.os.now
  verdicts : t.os.verdicts = s.os.verdicts
  dels : t.os.dels = s.os.dels
  routes : t.os.routes = s.os.routes
  info : t.info = s.info
  active : ∀ b, t.active b =
    (routeUsable s e.dst && (decide (e.dst ≠ s.ip_addr) && refreshes s e.dst b) || s.active b)
  sent : t.os.sent = s.os.sent ++ [ownRequest s e.dst (e.prev_tries + 1)]

/-- **Everything one expired alarm can do.**  The alarm of a lost route shows nowhere. -/
inductive AlarmRun (s t : MshData) : Prop where
  | idle (hsame : SameTable s t) (hsilent : Silent s t) (hactive : t.active = s.active)
  | expired (a : InAddr) (h : Expired s a t)
  | destroyed (r : MshRoute) (q : RtnlRoute) (hr : s.entry r.dst_ip = some r)
      (hq : r.nlroute = some q) (h : Destroyed s r.dst_ip q t)
  | forgotten (e : RreqFifo) (he : e ∈ s.rreq_queue) (hext : e.prev_tries < 0)
      (ht : t = rreqFifoEntryDelete s e.self)
  | gaveUp (e : RreqFifo) (he : e ∈ s.rreq_queue) (hown : 0 ≤ e.prev_tries)
      (ht : t = rreqFifoGiveUp s e)
  | retried (e : RreqFifo) (he : e ∈ s.rreq_queue) (hown : 0 ≤ e.prev_tries)
      (h : Retried s e t)

theorem wf_modifyRreq (h : Wf s) (p : Nat) {f : RreqFifo → RreqFifo}
    (hf : ∀ e, (f e).self = e.self) : Wf (s.modifyRreq p f) := by
  have hself : ∀ e : RreqFifo, (if e.self = p then f e else e).self = e.self := by
    intro e; split
    · exact hf e
    · rfl
  exact { h with
    rreq_nodup := by
      rw [MshData.modifyRreq_rreq_queue, KeyedList.map_key_map hself]
      exact h.rreq_nodup
    rreq_lt := fun e he => by
      obtain ⟨e₀, he₀, rfl⟩ := List.mem_map.1 he
      rw [hself]
      exact h.rreq_lt e₀ he₀ }

theorem wf_rreqFifoEntryDelete (h : Wf s) (p : Nat) : Wf (rreqFifoEntryDelete s p) :=
  { h with
    rreq_nodup := h.rreq_nodup.sublist ((List.filter_sublist).map _)
    rreq_lt := fun e he => h.rreq_lt e (List.mem_filter.1 he).1 }

/-- Clearing the node of an entry that is deleted next makes no difference. -/
theorem rreqFifoEntryDelete_modifyRreq (s : MshData) (p : Nat) {f : RreqFifo → RreqFifo}
    (hf : ∀ e, (f e).self = e.self) :
    rreqFifoEntryDelete (s.modifyRreq p f) p = rreqFifoEntryDelete s p := by
  have hqueue : (s.rreq_queue.map (fun e => if e.self = p then f e else e)).filter
      (fun e => e.self ≠ p) = s.rreq_queue.filter (fun e => e.self ≠ p) := by
    induction s.rreq_queue with
    | nil => rfl
    | cons e l ih =>
      by_cases he : e.self = p
      · simpa [he, hf] using ih
      · simpa [he] using ih
  simp only [rreqFifoEntryDelete, MshData.modifyRreq, hqueue]

theorem rreqFifoGiveUp_modifyRreq (s : MshData) (e : RreqFifo) {f : RreqFifo → RreqFifo}
    (hf : ∀ e, (f e).self = e.self) :
    rreqFifoGiveUp (s.modifyRreq e.self f) e = rreqFifoGiveUp s e := by
  unfold rreqFifoGiveUp
  rw [rreqFifoEntryDelete_modifyRreq _ _ hf]

/-- The retry, started on the state whose entry has its alarm node cleared. -/
theorem retried_rreqFifoRetry (h : Wf s) {e : RreqFifo} (he : e ∈ s.rreq_queue)
    (hown : 0 ≤ e.prev_tries) {f : RreqFifo → RreqFifo}
    (hf : ∀ x, f x = { x with alarm := { x.alarm with node := none } }) :
    Retried s e (rreqFifoRetry (s.modifyRreq e.self f) e (e.prev_tries + 1)) := by
  have hfself : ∀ x, (f x).self = x.self := fun x => by rw [hf]
  -- the states before the refresh, before the request is sent, and after it
  let s₁ := (s.modifyRreq e.self f).modifyRreq e.self ({ · with prev_tries := e.prev_tries + 1 })
  let s₂ := (routingTableUpdateRoute s₁ e.dst 0).1
  let t₂ := setAlarmTime (binaryExponentialBackoffTime (e.prev_tries + 1))
  let s₃ : MshData := { s₂.modifyRreq e.self
    ({ · with alarm := addAlarm s₂.os.now s₂.alarms t₂.1 t₂.2 }) with alarms := s₂.alarms + 1 }
  let s₄ := aodvFindRoute s₃ e.dst none (e.prev_tries + 1)
  change Retried s e (s₄.modifyRreq e.self ({ · with rreq_id := s₄.rreq_id }))
  have hwf₁ : Wf s₁ := wf_modifyRreq (wf_modifyRreq h e.self hfself) e.self (fun _ => rfl)
  obtain ⟨hsame, hsilent, -, hactive⟩ := routingTableUpdateRoute_spec hwf₁ e.dst 0
  have hwf₃ : Wf s₃ :=
    Wf.congr (wf_modifyRreq (s := s₂) (hsame.wf hwf₁) e.self
      (f := ({ · with alarm := addAlarm s₂.os.now s₂.alarms t₂.1 t₂.2 })) (fun _ => rfl))
      rfl rfl rfl rfl
  have horig := originated_aodvFindRoute s₃ e.dst (e.prev_tries + 1)
  constructor
  case wf => exact wf_modifyRreq (horig.wf hwf₃) e.self (fun _ => rfl)
  case ip_addr => exact horig.ip_addr.trans hsame.ip_addr
  case broadcast_addr => exact horig.broadcast_addr.trans hsame.broadcast_addr
  case net_iface => exact horig.net_iface.trans hsame.net_iface
  case seq_num => exact horig.seq_num.trans (congrArg (· + 1) hsilent.seq_num)
  case seq_incs => exact horig.seq_incs.trans (congrArg (· + 1) hsilent.seq_incs)
  case rreq_id => exact horig.rreq_id.trans (congrArg (· + 1) hsame.rreq_id)
  case packets_queue => exact horig.packets_queue.trans hsame.packets_queue
  case now => exact horig.now.trans hsame.now
  case verdicts => exact horig.verdicts.trans hsame.verdicts
  case dels => exact horig.dels.trans hsame.dels
  case routes => exact horig.routes.trans hsame.routes
  case info => exact (info_congr horig.routing_table).trans (hsame.info hwf₁)
  case active =>
    intro b
    have hb : s₄.active b = s₂.active b := congrFun (active_congr horig.routing_table) b
    change s₄.active b = _
    refine hb.trans ((hactive b).trans ?_)
    simp only [ne_eq, not_true_eq_false, decide_false, Bool.false_and, Bool.or_false]
    rfl
  case sent =>
    refine horig.sent.trans ?_
    have hreq : ownRequest s₃ e.dst (e.prev_tries + 1) = ownRequest s e.dst (e.prev_tries + 1) := by
      change AodvPkt.mk (aodvPktBuildRreq 5 0 (s₂.rreq_id + 1) e.dst 0 s₂.ip_addr (s₂.seq_num + 1))
        s₂.broadcast_addr _ = _
      rw [hsame.rreq_id, hsame.ip_addr, hsilent.seq_num, hsame.broadcast_addr]
      rfl
    rw [hreq]
    exact congrArg (· ++ _) hsilent.sent
  case rreq_queue =>
    refine ⟨s₂.alarms, ?_⟩
    have hid : s₄.rreq_id = s.rreq_id + 1 := horig.rreq_id.trans (congrArg (· + 1) hsame.rreq_id)
    have hnow : s₂.os.now = s.os.now := hsame.now
    have hq : s₄.rreq_queue = s₃.rreq_queue := by
      rw [horig.rreq_queue, if_neg (by omega)]
    rw [MshData.modifyRreq_rreq_queue, hq, MshData.modifyRreq_rreq_queue, hsame.rreq_queue,
      MshData.modifyRreq_rreq_queue, MshData.modifyRreq_rreq_queue, List.map_map, List.map_map,
      List.map_map]
    refine List.map_congr_left fun x hx => ?_
    by_cases hxe : x.self = e.self
    · have hx : x = e := KeyedList.eq_of_key h.rreq_nodup hx he hxe
      subst hx
      simp [hf, hid, hnow, retriedEntry, t₂, addAlarm, setAlarmTime_usec]
    · simp [hxe]

/-- `do_alarm_run` clears the node of a route before its callback runs. -/
def clearNode (r : MshRoute) : MshRoute := { r with alarm := { r.alarm with node := none } }

theorem keeps_clear : Keeps clearNode := keeps_clearNode

theorem sameTable_clearNode (s : MshData) (p : Nat) :
    SameTable s (s.modifyRoute p clearNode) ∧ Silent s (s.modifyRoute p clearNode) ∧
      (s.modifyRoute p clearNode).active = s.active :=
  ⟨⟨fun h => h.modifyRoute p keeps_clear, rfl, rfl, rfl, rfl, rfl, rfl, rfl, rfl, rfl, rfl,
    fun h => info_modifyRoute_of_blind keeps_clear (fun _ _ => rfl) h⟩, ⟨rfl, rfl, rfl⟩,
    active_modifyRoute_of_blind keeps_clear (fun _ => rfl)⟩

section RouteAlarm

variable {p : Nat} {r : MshRoute}

/-- The object at `p` is an entry or a lost route, and not both. -/
theorem find_route_cases (h : Wf s)
    (hr : (s.routing_table ++ s.lost_routes).find? (fun r => r.self = p) = some r) :
    r.self = p ∧ (s.entry r.dst_ip = some r ∨
      r.updated_cb = false ∧ ∀ x ∈ s.routing_table, x.self ≠ p) := by
  have hself : r.self = p := by simpa using List.find?_some hr
  refine ⟨hself, ?_⟩
  rcases List.mem_append.1 (List.mem_of_find?_eq_some hr) with hmem | hmem
  · exact .inl (entry_of_mem h hmem)
  · refine .inr ⟨h.lost_ok r hmem, fun x hx hxp => ?_⟩
    have hnodup := h.self_nodup
    rw [List.map_append] at hnodup
    exact List.disjoint_of_nodup_append hnodup (List.mem_map_of_mem hx)
      (by rw [hxp, ← hself]; exact List.mem_map_of_mem hmem)

/-- The state in which the callback of `p` runs. -/
theorem expire_spec (h : Wf s) {t : MshData} (hself : r.self = p)
    (ht : t = { (s.modifyRoute p clearNode).modifyRoute r.self
      (mshRouteExpire s.os.now s.alarms) with alarms := s.alarms + 1 })
    (hr : s.entry r.dst_ip = some r ∨ r.updated_cb = false ∧ ∀ x ∈ s.routing_table, x.self ≠ p) :
    AlarmRun s t := by
  subst hself
  obtain ⟨hclear, hsilent, hact⟩ := sameTable_clearNode s r.self
  have hkeeps := keeps_expire s.os.now s.alarms
  have hinfo : ∀ x, EntryOk x → (mshRouteExpire s.os.now s.alarms x).info = x.info := by
    intro x _
    rw [mshRouteExpire_eq]
    simp +decide [MshRoute.info, hasFlag_eq]
  have hsame : SameTable s t := by
    subst ht
    exact ⟨fun h => ((hclear.wf h).modifyRoute r.self hkeeps).congr rfl rfl rfl rfl, rfl, rfl, rfl,
      rfl, rfl, rfl, rfl, rfl, rfl, rfl, fun h =>
        (info_modifyRoute_of_blind hkeeps hinfo (hclear.wf h)).trans (hclear.info h)⟩
  have hsil : Silent s t := by subst ht; exact ⟨rfl, rfl, rfl⟩
  rcases hr with hr | ⟨-, habsent⟩
  · refine .expired r.dst_ip ⟨hsame, hsil, fun b => ?_⟩
    have hentry := entry_modifyRoute h keeps_clear hr r.dst_ip
    rw [if_pos rfl] at hentry
    have hexp := entry_modifyRoute (hclear.wf h) hkeeps hentry b
    have hinvalid : (mshRouteExpire s.os.now s.alarms (clearNode r)).hasFlag
        RTFLAG_VALID_ENTRY = false := by
      rw [mshRouteExpire_eq]
      simp +decide [hasFlag_eq]
    have hactive : t.active b = (if b = r.dst_ip then
        some (mshRouteExpire s.os.now s.alarms (clearNode r))
        else (s.modifyRoute r.self clearNode).entry b).any (·.hasFlag RTFLAG_VALID_ENTRY) := by
      subst ht
      rw [← hexp]
      rfl
    rw [hactive]
    split
    · rename_i hb
      simp [hb, hinvalid]
    · rename_i hb
      rw [decide_eq_true hb, Bool.true_and, ← hact]
      rfl
  · refine .idle hsame hsil ?_
    have htbl := routing_table_modifyRoute_absent habsent clearNode
    have htbl' := routing_table_modifyRoute_absent (s := s.modifyRoute r.self clearNode)
      (by rw [htbl]; exact habsent) (mshRouteExpire s.os.now s.alarms)
    subst ht
    exact active_congr (htbl'.trans htbl)

theorem rtnlRouteDel_keeps (os : Os) (route : RtnlRoute) :
    (rtnlRouteDel os route).1.now = os.now ∧ (rtnlRouteDel os route).1.verdicts = os.verdicts ∧
      (rtnlRouteDel os route).1.sent = os.sent := by
  unfold rtnlRouteDel
  dsimp only
  split <;> exact ⟨rfl, rfl, rfl⟩

/-- The route of an entry is destroyed: it leaves the table, and the kernel is asked to delete
    its route. -/
theorem mshRouteDestroy_entry (s : MshData) (hcb : r.updated_cb = true) {q : RtnlRoute}
    (hq : r.nlroute = some q) :
    mshRouteDestroy s r = { s with
      routing_table := s.routing_table.filter (fun x => x.self ≠ r.self)
      lost_routes := s.lost_routes.filter (fun x => x.self ≠ r.self)
      os := (rtnlRouteDel s.os q).1 } := by
  unfold mshRouteDestroy
  rw [if_pos hcb, hq]

/-- A route that is in no table only goes. -/
theorem mshRouteDestroy_lost (s : MshData) (hcb : r.updated_cb = false) :
    mshRouteDestroy s r =
      { s with lost_routes := s.lost_routes.filter (fun x => x.self ≠ r.self) } := by
  unfold mshRouteDestroy
  rw [if_neg (by rw [hcb]; exact Bool.false_ne_true)]

/-- The table without the object at the pointer is the table without the destination. -/
theorem find_without (h : Wf s) (hr : s.entry r.dst_ip = some r) (b : InAddr) :
    ((s.modifyRoute r.self clearNode).routing_table.filter (fun x => x.self ≠ r.self)).find?
        (fun x => x.dst_ip = b) =
      if b = r.dst_ip then none else (s.modifyRoute r.self clearNode).entry b := by
  obtain ⟨hmem, -⟩ := mem_of_entry hr
  have hwf : Wf (s.modifyRoute r.self clearNode) := h.modifyRoute r.self keeps_clear
  have hlook := entry_modifyRoute h keeps_clear hr b
  rw [KeyedList.find_key_filter hwf.dst_nodup]
  change ((s.modifyRoute r.self clearNode).entry b).filter _ = _
  rw [hlook]
  split
  · simp [clearNode]
  · rename_i hb
    cases hx : s.entry b with
    | none => rfl
    | some x =>
      obtain ⟨hxm, hxb⟩ := mem_of_entry hx
      have hne : x.self ≠ r.self := fun hc =>
        hb (by rw [← hxb, KeyedList.eq_of_key h.table_self_nodup hxm hmem hc])
      simp [hne]

theorem destroy_spec (h : Wf s) (hself : r.self = p)
    (hr : s.entry r.dst_ip = some r ∨ r.updated_cb = false ∧ ∀ x ∈ s.routing_table, x.self ≠ p) :
    AlarmRun s (mshRouteDestroy (s.modifyRoute p clearNode) r) := by
  subst hself
  obtain ⟨hclear, hsilent, hact⟩ := sameTable_clearNode s r.self
  have hwf := hclear.wf h
  rcases hr with hr | ⟨hcb, -⟩
  · have hok := h.entryOk hr
    obtain ⟨q, hq, -⟩ := hok.nlroute
    obtain ⟨hnow, hverdicts, hsent⟩ := rtnlRouteDel_keeps s.os q
    have hentry := find_without h hr
    refine .destroyed r q hr hq ?_
    rw [mshRouteDestroy_entry _ hok.updated_cb hq]
    constructor
    case wf => exact hwf.filterTables List.filter_sublist List.filter_sublist rfl rfl
    case now => exact hnow
    case verdicts => exact hverdicts
    case silent => exact ⟨hsent, rfl, rfl⟩
    case info =>
      intro b
      refine (congrArg (Option.map MshRoute.info) (hentry b)).trans ?_
      split
      · rfl
      · rw [← hclear.info h]; rfl
    case active =>
      intro b
      refine (congrArg (Option.any (·.hasFlag RTFLAG_VALID_ENTRY)) (hentry b)).trans ?_
      split
      · rename_i hb; simp [hb]
      · rename_i hb
        rw [decide_eq_true hb, Bool.true_and, ← hact]
        rfl
    all_goals rfl
  · rw [mshRouteDestroy_lost _ hcb]
    exact .idle ⟨fun _ => hwf.filterTables (.refl _) List.filter_sublist rfl rfl, rfl, rfl, rfl,
      rfl, rfl, rfl, rfl, rfl, rfl, rfl, fun h => hclear.info h⟩ ⟨rfl, rfl, rfl⟩ hact

end RouteAlarm

theorem runAlarm_cases (h : Wf s) (owner : AlarmOwner) : AlarmRun s (runAlarm s owner) := by
  cases owner with
  | route p =>
    unfold runAlarm
    dsimp only
    cases hr : (s.routing_table ++ s.lost_routes).find? (fun r => r.self = p) with
    | none => exact .idle (.refl s) (.refl s) rfl
    | some r =>
      obtain ⟨hself, hcases⟩ := find_route_cases h hr
      dsimp only [mshRouteAlarmCb]
      split
      · exact expire_spec h hself rfl hcases
      · split
        · exact destroy_spec h hself hcases
        · obtain ⟨hclear, hsilent, hact⟩ := sameTable_clearNode s p
          exact .idle hclear hsilent hact
  | rreq p =>
    unfold runAlarm
    dsimp only
    cases he : s.rreq_queue.find? (fun e => e.self = p) with
    | none => exact .idle (.refl s) (.refl s) rfl
    | some e =>
      have hmem := List.mem_of_find?_eq_some he
      have hself : e.self = p := by simpa using List.find?_some he
      subst hself
      dsimp only [rreqFifoAlarmCb]
      split
      · rename_i hext
        exact .forgotten e hmem hext (rreqFifoEntryDelete_modifyRreq _ _ (fun _ => rfl))
      · rename_i hext
        split
        · exact .gaveUp e hmem (by omega) (rreqFifoGiveUp_modifyRreq _ _ (fun _ => rfl))
        · exact .retried e hmem (by omega) (retried_rreqFifoRetry h hmem (by omega) (fun _ => rfl))

theorem AlarmRun.wf {t : MshData} (h : Wf s) (hrun : AlarmRun s t) : Wf t := by
  cases hrun with
  | idle hsame => exact hsame.wf h
  | expired a hexp => exact hexp.same.wf h
  | destroyed r q _ _ hdel => exact hdel.wf
  | forgotten e _ _ ht => rw [ht]; exact wf_rreqFifoEntryDelete h _
  | gaveUp e _ _ ht => rw [ht]; exact (wf_rreqFifoEntryDelete h e.self).congr rfl rfl rfl rfl
  | retried e _ _ hret => exact hret.wf

/-- An alarm changes no entry, except that it may remove one. -/
theorem AlarmRun.info {t : MshData} (h : Wf s) (hrun : AlarmRun s t) (b : InAddr) :
    t.info b = s.info b ∨ t.info b = none := by
  cases hrun with
  | idle hsame => exact .inl (congrFun (hsame.info h) b)
  | expired a hexp => exact .inl (congrFun (hexp.same.info h) b)
  | destroyed r q _ _ hdel =>
    rw [hdel.info]
    split
    · exact .inr rfl
    · exact .inl rfl
  | forgotten e _ _ ht => rw [ht]; exact .inl rfl
  | gaveUp e _ _ ht => rw [ht]; exact .inl rfl
  | retried e _ _ hret => exact .inl (congrFun hret.info b)

/-! ## Every turn -/

/-- What every alarm keeps, a run of the alarms keeps. -/
theorem doAlarmRun_invariant {I : MshData → Prop}
    (hrun : ∀ s owner, I s → I (runAlarm s owner)) (h : I s) : I (doAlarmRun s) := by
  unfold doAlarmRun
  induction alarmRunQueue s generalizing s with
  | nil => exact h
  | cons a l ih => exact ih (hrun s a.owner h)

theorem info_doAlarmRun (h : Wf s) (b : InAddr) :
    (doAlarmRun s).info b = s.info b ∨ (doAlarmRun s).info b = none := by
  have hinv := doAlarmRun_invariant (s := s)
    (I := fun t => Wf t ∧ (t.info b = s.info b ∨ t.info b = none))
    (fun t owner ht => ⟨(runAlarm_cases ht.1 owner).wf ht.1, by
      rcases (runAlarm_cases ht.1 owner).info ht.1 b with heq | hnone
      · rw [heq]; exact ht.2
      · exact .inr hnone⟩)
    ⟨h, .inl rfl⟩
  exact hinv.2

/-- The addresses and the interface of the node stay. -/
structure SameNode (s t : MshData) : Prop where
  ip_addr : t.ip_addr = s.ip_addr
  broadcast_addr : t.broadcast_addr = s.broadcast_addr
  net_iface : t.net_iface = s.net_iface

theorem SameNode.refl (s : MshData) : SameNode s s := ⟨rfl, rfl, rfl⟩

theorem SameNode.trans (h : SameNode s t) (h' : SameNode t u) : SameNode s u :=
  ⟨h'.ip_addr.trans h.ip_addr, h'.broadcast_addr.trans h.broadcast_addr,
    h'.net_iface.trans h.net_iface⟩

theorem OnlyTable.sameNode (h : OnlyTable s t) : SameNode s t :=
  ⟨h.ip_addr, h.broadcast_addr, h.net_iface⟩

theorem SameTable.sameNode (h : SameTable s t) : SameNode s t :=
  ⟨h.ip_addr, h.broadcast_addr, h.net_iface⟩

theorem sameNode_aodvProcessRreq (h : Wf s) (pkt : AodvPkt) :
    SameNode s (aodvProcessRreq s pkt) := by
  obtain ⟨o, heq⟩ := aodvProcessRreq_eq pkt h
  have harr : SameNode s (rreqArrived s pkt) := (onlyTable_aodvRreqPrevHop h _).sameNode
  rw [heq]
  split
  · exact harr
  · have hpush : SameNode (rreqArrived s pkt) (rreqBuffered s pkt) := ⟨rfl, rfl, rfl⟩
    exact ((harr.trans hpush).trans
      (onlyTable_aodvUpdateOrig _ _ _ _ (wf_rreqBuffered pkt h)).sameNode).trans
        (rreqReply_spec pkt _ _ o).1.sameNode

theorem sameNode_aodvProcessRrep (h : Wf s) (pkt : AodvPkt) :
    SameNode s (aodvProcessRrep s pkt) := by
  have hupd := (onlyTable_rrepUpdated pkt h).sameNode
  cases rrepProcessed pkt h with
  | refused _ ht =>
    rw [ht]
    exact (onlyTable_rreqArrived pkt h).sameNode
  | ended _ _ ht =>
    rw [ht]
    exact hupd.trans ⟨rfl, rfl, rfl⟩
  | forwarded _ _ ph d ht =>
    rw [ht]
    exact hupd.trans (aodvForwardRrep_spec pkt _ ph d (wf_rrepUpdated pkt h)).1.sameNode

theorem sameNode_managePacket (h : Wf s) (nfa : NfqData) : SameNode s (managePacket s nfa) := by
  have hlook := fun orig => (sameTable_packetLookedUp h nfa orig).sameNode
  cases packetManaged h nfa with
  | passed _ ht => rw [ht]; exact ⟨rfl, rfl, rfl⟩
  | routed orig _ _ _ ht => rw [ht]; exact (hlook orig).trans ⟨rfl, rfl, rfl⟩
  | unanswered _ _ _ ht => rw [ht]; exact hlook _
  | queued _ _ _ _ ht => rw [ht]; exact (hlook 0).trans ⟨rfl, rfl, rfl⟩
  | discovered _ _ _ _ ht =>
    have horig := originated_aodvFindRoute (packetsFifoPush (packetLookedUp s nfa 0)
      (nfqueuePacketGetId nfa) (nfqueuePacketGetDest nfa)) (nfqueuePacketGetDest nfa) 0
    rw [ht]
    exact (hlook 0).trans ⟨horig.ip_addr, horig.broadcast_addr, horig.net_iface⟩

theorem AlarmRun.sameNode {t : MshData} (hrun : AlarmRun s t) : SameNode s t := by
  cases hrun with
  | idle hsame => exact hsame.sameNode
  | expired a hexp => exact hexp.same.sameNode
  | destroyed r q _ _ hdel => exact ⟨hdel.ip_addr, hdel.broadcast_addr, hdel.net_iface⟩
  | forgotten e _ _ ht => rw [ht]; exact ⟨rfl, rfl, rfl⟩
  | gaveUp e _ _ ht => rw [ht]; exact ⟨rfl, rfl, rfl⟩
  | retried e _ _ hret => exact ⟨hret.ip_addr, hret.broadcast_addr, hret.net_iface⟩

theorem Wf.arrive (h : Wf s) (i : Input) : Wf (s.arrive i) := h.congr rfl rfl rfl rfl

theorem Wf.withStats (h : Wf s) (stats : Statistics) : Wf (s.withStats stats) :=
  h.congr rfl rfl rfl rfl

theorem sameNode_step (h : Wf s) (i : Input) : SameNode s (step s i) := by
  have harrive : SameNode s (s.arrive i) := ⟨rfl, rfl, rfl⟩
  have hstats : ∀ stats, SameNode s ((s.arrive i).withStats stats) := fun _ => ⟨rfl, rfl, rfl⟩
  have hwf := fun stats => (h.arrive i).withStats stats
  cases turn s i with
  | rreq pkt stats _ hstep =>
    rw [hstep]; exact (hstats stats).trans (sameNode_aodvProcessRreq (hwf stats) pkt)
  | rrep pkt stats _ hstep =>
    rw [hstep]; exact (hstats stats).trans (sameNode_aodvProcessRrep (hwf stats) pkt)
  | packet nfa _ hstep =>
    rw [hstep]; exact harrive.trans (sameNode_managePacket (h.arrive i) nfa)
  | alarms _ hstep =>
    rw [hstep]
    exact (doAlarmRun_invariant (I := fun t => Wf t ∧ SameNode s t)
      (fun t owner ht => ⟨(runAlarm_cases ht.1 owner).wf ht.1,
        ht.2.trans (runAlarm_cases ht.1 owner).sameNode⟩) ⟨h.arrive i, harrive⟩).2
  | quiet stats _ _ _ _ hstep => rw [hstep]; exact hstats stats

/-- **Every turn of the main loop keeps `Wf`.** -/
theorem Wf.step (h : Wf s) (i : Input) : Wf (step s i) := by
  cases turn s i with
  | rreq pkt stats _ hstep => rw [hstep]; exact wf_aodvProcessRreq pkt ((h.arrive i).withStats _)
  | rrep pkt stats _ hstep => rw [hstep]; exact wf_aodvProcessRrep pkt ((h.arrive i).withStats _)
  | packet nfa _ hstep => rw [hstep]; exact wf_managePacket (h.arrive i) nfa
  | alarms _ hstep =>
    rw [hstep]
    exact doAlarmRun_invariant (fun s owner hs => (runAlarm_cases hs owner).wf hs) (h.arrive i)
  | quiet stats _ _ _ _ hstep => rw [hstep]; exact (h.arrive i).withStats _

end Meshias
