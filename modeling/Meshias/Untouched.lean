import Meshias.PassingOn
import Meshias.Verdicts

/-!
# What a message does not touch

A handler works through pointers to three entries at most, and a RREP that goes on through a fourth.

* `PointsTo s p a` — the object at `p` is no entry but that of `a`; it need not be in the table.
* `Untouched s t d` — the entry of `d` and what is queued for `d` are the same in `t`.
* `TouchesOnly` — this for every address that the message of a turn does not concern.

Principal result: `touchesOnly`.
-/

set_option autoImplicit false

namespace Meshias

open Machine (run)

variable {s t : MshData} {p : Nat} {a d : InAddr}

/-! ## Pointers -/

/-- A route that the kernel refuses is allocated, and in no entry. -/
structure PointsTo (s : MshData) (p : Nat) (a : InAddr) : Prop where
  allocated : p < s.objects
  only : ∀ b r, s.entry b = some r → r.self = p → b = a

theorem pointsTo_entry (h : Wf s) {r : MshRoute} (hr : s.entry a = some r) :
    PointsTo s r.self a := by
  obtain ⟨hmem, hdst⟩ := mem_of_entry hr
  refine ⟨h.self_lt r (List.mem_append_left _ hmem), fun b x hx hself => ?_⟩
  obtain ⟨hxmem, rfl⟩ := mem_of_entry hx
  rw [KeyedList.eq_of_key h.table_self_nodup hxmem hmem hself, hdst]

theorem PointsTo.congr (h : PointsTo s p a) (htable : t.routing_table = s.routing_table)
    (hobjects : t.objects = s.objects) : PointsTo t p a :=
  ⟨hobjects ▸ h.allocated, fun b r hr => h.only b r (entry_congr htable ▸ hr)⟩

theorem PointsTo.aodvPktSend (h : PointsTo s p a) (pkt : AodvPkt) :
    PointsTo (aodvPktSend s pkt) p a := h.congr rfl rfl

/-- A write through another pointer. -/
theorem PointsTo.modifyRoute (h : PointsTo s p a) (q : Nat) {f : MshRoute → MshRoute}
    (hf : Keeps f) : PointsTo (s.modifyRoute q f) p a := by
  refine ⟨h.allocated, fun b r hr hself => ?_⟩
  rw [entry_modifyRoute_cases hf, Option.map_eq_some_iff] at hr
  obtain ⟨r₀, hr₀, rfl⟩ := hr
  refine h.only b r₀ hr₀ ?_
  split at hself
  · rwa [hf.self] at hself
  · exact hself

theorem PointsTo.routeSetLifetime (h : PointsTo s p a) (q : Nat) (lifetime : U32) :
    PointsTo (s.routeSetLifetime q lifetime) p a :=
  (h.modifyRoute q (keeps_setLifetime s.os.now s.alarms lifetime)).congr rfl rfl

/-- **A write through the pointer** leaves the other entries alone. -/
theorem PointsTo.entry_modifyRoute (h : PointsTo s p a) (hd : d ≠ a) {f : MshRoute → MshRoute}
    (hf : Keeps f) : (s.modifyRoute p f).entry d = s.entry d := by
  rw [entry_modifyRoute_cases hf]
  cases hr : s.entry d with
  | none => rfl
  | some r => rw [Option.map_some, if_neg (fun hself => hd (h.only d r hr hself))]

theorem PointsTo.entry_routeSetLifetime (h : PointsTo s p a) (hd : d ≠ a) (lifetime : U32) :
    (s.routeSetLifetime p lifetime).entry d = s.entry d :=
  h.entry_modifyRoute hd (keeps_setLifetime s.os.now s.alarms lifetime)

theorem objects_routingTableAdd (s : MshData) (route : MshRoute) :
    (routingTableAdd s route).1.objects = s.objects := by
  unfold routingTableAdd
  split
  · rfl
  · dsimp only
    split <;> rfl

/-- The pointers after an insertion: the one to the new route, and those there were. -/
theorem pointsTo_routingTableAdd (h : Wf s) {route : MshRoute} (hf : Fresh s route)
    (hnew : s.entry route.dst_ip = none) (hp : p < s.objects)
    (honly : ∀ b r, s.entry b = some r → r.self = p → b = a)
    (hroute : route.self = p → route.dst_ip = a) : PointsTo (routingTableAdd s route).1 p a := by
  refine ⟨(objects_routingTableAdd s route).symm ▸ hp, fun b r hr hself => ?_⟩
  rw [entry_routingTableAdd h hf hnew] at hr
  split at hr
  · rename_i hb
    rw [hb.2]
    refine hroute (Eq.trans ?_ hself)
    rw [← Option.some.inj hr, installed_eq hf.managed]
  · exact honly b r hr hself

theorem self_ne_of_fresh {route : MshRoute} (hf : Fresh s route) {b : InAddr} {r : MshRoute}
    (hr : s.entry b = some r) : r.self ≠ route.self :=
  hf.self_new r (List.mem_append_left _ (mem_of_entry hr).1)

/-- The pointer that an insertion returns is the one to the new route. -/
theorem pointsTo_inserted (h : Wf s) {route : MshRoute} (hf : Fresh s route)
    (hnew : s.entry route.dst_ip = none) (hself : route.self < s.objects) :
    PointsTo (routingTableAdd s route).1 route.self route.dst_ip :=
  pointsTo_routingTableAdd h hf hnew hself
    (fun _ _ hr heq => absurd heq (self_ne_of_fresh hf hr)) (fun _ => rfl)

/-! ## The pointers of the handlers -/

theorem pointsTo_prevHop (h : Wf s) (prev_hop : InAddr) :
    PointsTo (aodvRreqPrevHop s prev_hop).1 (aodvRreqPrevHop s prev_hop).2 prev_hop := by
  cases hr : s.entry prev_hop with
  | some r =>
    rw [aodvRreqPrevHop_found h hr]
    exact (pointsTo_entry h hr).routeSetLifetime _ _
  | none =>
    have hf := fresh_prevHopRoute h prev_hop
    rw [aodvRreqPrevHop_new h hr]
    exact pointsTo_inserted (h.alloc (Nat.le_succ _)) hf hr (Nat.lt_succ_self _)

theorem pointsTo_orig (h : Wf s) (prev_hop : InAddr) (hop_count : U8) (orig : InAddr)
    (seq_num_new : U32) :
    PointsTo (aodvUpdateOrig s prev_hop hop_count orig seq_num_new).1
      (aodvUpdateOrig s prev_hop hop_count orig seq_num_new).2 orig := by
  rw [aodvUpdateOrig, routingTableFindByIp_eq h]
  cases hr : s.entry orig with
  | some r =>
    have hmod := (pointsTo_entry h hr).modifyRoute r.self
      (keeps_rreqUpdate prev_hop hop_count seq_num_new)
    dsimp only
    split
    · exact hmod.routeSetLifetime _ _
    · exact hmod
  | none =>
    have hf := fresh_origNew prev_hop hop_count orig seq_num_new h
    dsimp only [mshRouteAlloc]
    rw [origRoute_eq]
    exact pointsTo_inserted (wf_origAlloc h) hf hr (Nat.lt_succ_self _)

theorem pointsTo_findDest (h : Wf s) (prev_hop : InAddr) (rrep : AodvRrep) :
    PointsTo (aodvFindDest s prev_hop rrep).1 (aodvFindDest s prev_hop rrep).2.1.self
      rrep.dest_ip_addr := by
  cases hr : s.entry rrep.dest_ip_addr with
  | some r =>
    rw [aodvFindDest_found prev_hop rrep h hr]
    exact pointsTo_entry h hr
  | none =>
    have hf := fresh_destRoute prev_hop rrep h
    rw [aodvFindDest_new prev_hop rrep h hr]
    exact pointsTo_inserted (h.alloc (Nat.le_succ _)) hf hr (Nat.lt_succ_self _)

/-- A pointer from before is not that of a new route. -/
theorem PointsTo.findDest (h : PointsTo s p a) (hwf : Wf s) (prev_hop : InAddr) (rrep : AodvRrep) :
    PointsTo (aodvFindDest s prev_hop rrep).1 p a := by
  cases hr : s.entry rrep.dest_ip_addr with
  | some r =>
    rw [aodvFindDest_found prev_hop rrep hwf hr]
    exact h
  | none =>
    rw [aodvFindDest_new prev_hop rrep hwf hr]
    exact pointsTo_routingTableAdd (hwf.alloc (Nat.le_succ _)) (fresh_destRoute prev_hop rrep hwf)
      hr (Nat.lt_succ_of_lt h.allocated) h.only (fun hself => absurd hself h.allocated.ne')

theorem PointsTo.updateDest (h : PointsTo s p a) (prev_hop : InAddr) (rrep : AodvRrep) (q : Nat) :
    PointsTo (aodvUpdateDest s prev_hop rrep q) p a :=
  (h.modifyRoute q (keeps_rrepUpdate prev_hop rrep)).routeSetLifetime q _

/-! ## The entries of the others -/

theorem entry_of_lookup (h : Wf s) {b : InAddr} {r : MshRoute}
    (hr : routingTableFindByIp s.routing_table b = some r) : PointsTo s r.self b :=
  pointsTo_entry h ((routingTableFindByIp_eq h b).symm.trans hr)

/-- An answer writes the entries of the destination and of the originator. -/
theorem entry_aodvAnswerToRreq (h : Wf s) (rreq : AodvRreq) (prev_hop : InAddr) {orig : InAddr}
    {o : Nat} (ho : PointsTo s o orig) (horig : d ≠ orig) (hdest : d ≠ rreq.dest_ip_addr) :
    (aodvAnswerToRreq s rreq prev_hop o).1.entry d = s.entry d := by
  unfold aodvAnswerToRreq
  split
  · dsimp only
    split <;> rfl
  · split
    · rfl
    · rename_i r hr
      have hto := entry_of_lookup h hr
      dsimp only
      split
      · exact ((ho.modifyRoute r.self (keeps_addPrecursor prev_hop)).entry_modifyRoute horig
          (keeps_addPrecursor r.next_hop)).trans
            (hto.entry_modifyRoute hdest (keeps_addPrecursor prev_hop))
      · rfl

theorem entry_rreqReply (h : Wf s) (pkt : AodvPkt) (rreq : AodvRreq) (prev_hop : InAddr)
    {orig : InAddr} {o : Nat} (ho : PointsTo s o orig) (horig : d ≠ orig)
    (hdest : d ≠ rreq.dest_ip_addr) :
    (rreqReply s pkt rreq prev_hop o).entry d = s.entry d := by
  have hanswer := entry_aodvAnswerToRreq h rreq prev_hop ho horig hdest
  unfold rreqReply
  split
  · rw [aodvForwardRreq_eq]
    exact hanswer
  · exact hanswer

theorem entry_aodvProcessRreq (h : Wf s) (pkt : AodvPkt) (hprev : d ≠ pkt.address)
    (horig : d ≠ (rreqOfPayload pkt.payload).orig_ip_addr)
    (hdest : d ≠ (rreqOfPayload pkt.payload).dest_ip_addr) :
    (aodvProcessRreq s pkt).entry d = s.entry d := by
  rw [aodvProcessRreq_eq_reply pkt h]
  split
  · exact entry_rreqArrived_of_ne h pkt hprev
  · have hto := pointsTo_orig (wf_rreqBuffered pkt h) pkt.address
      (rreqOfPayload pkt.payload).hop_count (rreqOfPayload pkt.payload).orig_ip_addr
      (rreqOfPayload pkt.payload).orig_seq_num
    exact (entry_rreqReply (wf_rreqReversed pkt h) pkt (rreqNext pkt) pkt.address hto horig
      hdest).trans (entry_rreqReversed_of_ne h pkt hprev horig)

theorem entry_destUpdated (h : Wf s) (prev_hop : InAddr) {rrep : AodvRrep}
    (hdest : d ≠ rrep.dest_ip_addr) : (destUpdated s prev_hop rrep).entry d = s.entry d := by
  have hto := pointsTo_findDest h prev_hop rrep
  have hmod := hto.modifyRoute (aodvFindDest s prev_hop rrep).2.1.self
    (keeps_rrepUpdate prev_hop rrep)
  have hfind : (aodvFindDest s prev_hop rrep).1.entry d = s.entry d := by
    cases hr : s.entry rrep.dest_ip_addr with
    | some r => rw [aodvFindDest_found prev_hop rrep h hr]
    | none =>
      rw [aodvFindDest_new prev_hop rrep h hr, entry_routingTableAdd (h.alloc (Nat.le_succ _))
        (fresh_destRoute prev_hop rrep h) hr, if_neg (fun hc => hdest hc.2)]
      rfl
  exact ((hmod.entry_routeSetLifetime hdest _).trans
    (hto.entry_modifyRoute hdest (keeps_rrepUpdate prev_hop rrep))).trans hfind

theorem entry_rrepUpdated (h : Wf s) (pkt : AodvPkt) (hprev : d ≠ pkt.address)
    (hdest : d ≠ (rrepNext pkt).dest_ip_addr) : (rrepUpdated s pkt).entry d = s.entry d := by
  rw [rrepUpdated, entry_destUpdated (wf_rrepArrived pkt h) pkt.address hdest, rrepArrived_eq]
  exact entry_rreqArrived_of_ne h pkt hprev

theorem entry_refreshNextHop (h : Wf s) {next_hop : InAddr} (hd : d ≠ next_hop) :
    (refreshNextHop s next_hop).entry d = s.entry d := by
  unfold refreshNextHop
  split
  · rename_i r hr
    split
    · exact (entry_of_lookup h hr).entry_routeSetLifetime hd _
    · rfl
  · rfl

theorem PointsTo.refreshNextHop (h : PointsTo s p a) (next_hop : InAddr) :
    PointsTo (refreshNextHop s next_hop) p a := by
  unfold Meshias.refreshNextHop
  split
  · split
    · exact h.routeSetLifetime _ _
    · exact h
  · exact h

theorem PointsTo.rrepPassed (h : PointsTo s p a) (pkt : AodvPkt) (rrep : AodvRrep) (q : Nat)
    (next_hop : InAddr) : PointsTo (rrepPassed s pkt rrep q next_hop) p a := by
  unfold Meshias.rrepPassed
  dsimp only
  split
  · exact (h.aodvPktSend _).modifyRoute q (keeps_addPrecursor next_hop)
  · exact h.aodvPktSend _

theorem entry_rrepPassed (pkt : AodvPkt) {rrep : AodvRrep} {q : Nat}
    (hq : PointsTo s q rrep.dest_ip_addr) (hdest : d ≠ rrep.dest_ip_addr) (next_hop : InAddr) :
    (rrepPassed s pkt rrep q next_hop).entry d = s.entry d := by
  unfold rrepPassed
  dsimp only
  split
  · exact (hq.aodvPktSend _).entry_modifyRoute hdest (keeps_addPrecursor next_hop)
  · rfl

/-- A RREP that goes on writes the entries of the destination, of the sender, and of the next hop
    that it is sent to. -/
theorem entry_aodvForwardRrep (h : Wf s) (pkt : AodvPkt) {rrep : AodvRrep} {prev_hop : InAddr}
    {ph q : Nat} (hph : PointsTo s ph prev_hop) (hq : PointsTo s q rrep.dest_ip_addr)
    (hprev : d ≠ prev_hop) (hdest : d ≠ rrep.dest_ip_addr)
    (hnext : ∀ r ∈ s.entry rrep.orig_ip_addr, d ≠ r.next_hop) :
    (aodvForwardRrep s pkt rrep ph q).entry d = s.entry d := by
  rw [aodvForwardRrep_eq pkt rrep ph q h]
  cases hr : s.entry rrep.orig_ip_addr with
  | none => rfl
  | some r =>
    have hne := hnext r (Option.mem_def.2 hr)
    have hpass := (rrepPassed_spec (s := s) pkt rrep q r.next_hop).1.wf h
    dsimp only
    rw [((hph.rrepPassed pkt rrep q r.next_hop).refreshNextHop r.next_hop).entry_modifyRoute hprev
      (keeps_addPrecursor r.next_hop), entry_refreshNextHop hpass hne,
      entry_rrepPassed pkt hq hdest]

theorem entry_aodvProcessRrep (h : Wf s) (pkt : AodvPkt) (hprev : d ≠ pkt.address)
    (hdest : d ≠ (rrepNext pkt).dest_ip_addr)
    (hnext : rrepAccepted (rreqArrived s pkt) (rrepNext pkt) = true →
      s.ip_addr ≠ (rrepNext pkt).orig_ip_addr →
      ∀ r ∈ (rrepUpdated s pkt).entry (rrepNext pkt).orig_ip_addr, d ≠ r.next_hop) :
    (aodvProcessRrep s pkt).entry d = s.entry d := by
  have hupd := entry_rrepUpdated h pkt hprev hdest
  rw [aodvProcessRrep_eq_forward pkt h, rrepArrived_eq]
  split
  · rename_i hacc
    split
    · rw [rreqFifoDel_eq]
      exact hupd
    · rename_i hother
      have hto := pointsTo_prevHop h pkt.address
      rw [← aodvRrepPrevHop_eq] at hto
      have hph : PointsTo (rrepUpdated s pkt) (rrepRouteToPrevHop s pkt) pkt.address :=
        (hto.findDest (wf_rrepArrived pkt h) pkt.address (rrepNext pkt)).updateDest _ _ _
      have hq : PointsTo (rrepUpdated s pkt) (rrepRouteToDest s pkt) (rrepNext pkt).dest_ip_addr :=
        (pointsTo_findDest (wf_rrepArrived pkt h) pkt.address (rrepNext pkt)).updateDest _ _ _
      exact (entry_aodvForwardRrep (wf_rrepUpdated pkt h) pkt hph hq hprev hdest
        (hnext hacc hother)).trans hupd
  · exact entry_rreqArrived_of_ne h pkt hprev

/-! ## What is queued for the others -/

/-- The entry of `d`, if there is one, is the same with all its fields, its precursors and its
    alarm; the packets and requests for `d` stay queued, and the new verdicts are for packets that
    were queued for others. -/
structure Untouched (s t : MshData) (d : InAddr) : Prop where
  entry : t.entry d = s.entry d
  packets : t.packets_queue.filter (fun e => e.dest = d) =
    s.packets_queue.filter (fun e => e.dest = d)
  verdicts : ∃ (new : List (U32 × Verdict)) (released : List PacketsFifo),
    t.os.verdicts = s.os.verdicts ++ new ∧
      new.Perm (released.map (fun e => (e.id, .NF_ACCEPT))) ∧
      released.Sublist s.packets_queue ∧ ∀ e ∈ released, e.dest ≠ d
  rreqs : t.rreq_queue.filter (fun e => e.dst = d) = s.rreq_queue.filter (fun e => e.dst = d)

/-- **Releasing**: a packet whose destination has the entry it had stays in the queue. -/
theorem untouched_of_releases (hrel : Releases s t) (hids : t.ids.Perm s.ids)
    (hentry : t.entry d = s.entry d)
    (hrreqs : t.rreq_queue.filter (fun e => e.dst = d) =
      s.rreq_queue.filter (fun e => e.dst = d)) : Untouched s t d := by
  let keeps : PacketsFifo → Bool := fun e => (s.info e.dest).isSome || (t.info e.dest).isNone
  have hqueue : t.packets_queue = s.packets_queue.filter keeps := hrel.packets
  have hkeeps : ∀ e : PacketsFifo, e.dest = d → keeps e = true := by
    intro e hd
    have hsame : t.info e.dest = s.info e.dest := by
      rw [MshData.info, MshData.info, hd, hentry]
    dsimp only [keeps]
    rw [hsame]
    cases s.info e.dest <;> rfl
  refine ⟨hentry, ?_, ?_, hrreqs⟩
  · rw [hqueue, List.filter_filter]
    refine List.filter_congr fun e _ => ?_
    by_cases hd : e.dest = d
    · rw [hkeeps e hd, Bool.and_true]
    · rw [decide_eq_false hd, Bool.false_and]
  · obtain ⟨new, hnew, haccept⟩ := hrel.verdicts
    refine ⟨new, s.packets_queue.filter (fun e => !keeps e), hnew, ?_, List.filter_sublist, ?_⟩
    · -- the ids that left the queue are those of the new verdicts
      have hsplit := (List.filter_append_perm keeps s.packets_queue).map (·.id)
      rw [MshData.ids, MshData.ids, hnew, hqueue, List.map_append, List.append_assoc,
        List.perm_append_left_iff] at hids
      rw [List.map_append] at hsplit
      have hleft : (new.map (·.1)).Perm
          ((s.packets_queue.filter (fun e => !keeps e)).map (·.id)) :=
        (List.perm_append_right_iff _).1
          (hids.trans (hsplit.symm.trans List.perm_append_comm))
      have hpairs : (new.map (·.1)).map (fun id => (id, Verdict.NF_ACCEPT)) = new := by
        rw [List.map_map]
        conv_rhs => rw [← List.map_id new]
        exact List.map_congr_left fun v hv => Prod.ext rfl (haccept v hv).symm
      have hmapped := hleft.map (fun id => (id, Verdict.NF_ACCEPT))
      rwa [hpairs, List.map_map] at hmapped
    · intro e he hd
      have hnot := (List.mem_filter.1 he).2
      rw [hkeeps e hd] at hnot
      cases hnot

/-- `rreq_fifo_del` deletes an entry for its destination. -/
theorem filter_rreqDeleted (h : Wf s) (rreq_id : U32) {dst : InAddr} (hd : d ≠ dst) :
    (rreqDeleted s.rreq_queue rreq_id dst).filter (fun e => e.dst = d) =
      s.rreq_queue.filter (fun e => e.dst = d) := by
  unfold rreqDeleted
  split
  · rename_i entry hentry
    have hmem := List.mem_of_find?_eq_some hentry
    have hdst : entry.dst = dst := by
      have hfound := List.find?_some hentry
      simp only [decide_eq_true_eq] at hfound
      exact hfound.2
    rw [List.filter_filter]
    refine List.filter_congr fun e he => ?_
    by_cases hed : e.dst = d
    · have hself : e.self ≠ entry.self := by
        intro heq
        rw [KeyedList.eq_of_key h.rreq_nodup he hmem heq, hdst] at hed
        exact hd hed.symm
      rw [decide_eq_true hself, Bool.and_true]
    · rw [decide_eq_false hed, Bool.false_and]
  · rfl

theorem untouched_aodvProcessRreq (h : Wf s) (pkt : AodvPkt) (hprev : d ≠ pkt.address)
    (horig : d ≠ (rreqOfPayload pkt.payload).orig_ip_addr)
    (hdest : d ≠ (rreqOfPayload pkt.payload).dest_ip_addr) :
    Untouched s (aodvProcessRreq s pkt) d := by
  refine untouched_of_releases (releases_aodvProcessRreq pkt h) (ids_aodvProcessRreq h pkt)
    (entry_aodvProcessRreq h pkt hprev horig hdest) ?_
  obtain ⟨self, rank, hqueue⟩ := rreq_queue_aodvProcessRreq pkt h
  rw [hqueue]
  split
  · rfl
  · exact List.filter_cons_of_neg (by simpa using hdest.symm)

theorem untouched_aodvProcessRrep (h : Wf s) (pkt : AodvPkt) (hprev : d ≠ pkt.address)
    (hdest : d ≠ (rrepOfPayload pkt.payload).dest_ip_addr)
    (hnext : rrepAccepted (rreqArrived s pkt) (rrepNext pkt) = true →
      s.ip_addr ≠ (rrepNext pkt).orig_ip_addr →
      ∀ r ∈ (rrepUpdated s pkt).entry (rrepNext pkt).orig_ip_addr, d ≠ r.next_hop) :
    Untouched s (aodvProcessRrep s pkt) d := by
  refine untouched_of_releases (releases_aodvProcessRrep pkt h) (ids_aodvProcessRrep h pkt)
    (entry_aodvProcessRrep h pkt hprev hdest hnext) ?_
  rw [rreq_queue_aodvProcessRrep pkt h]
  split
  · exact filter_rreqDeleted h _ hdest
  · rfl

/-! ## The messages of a turn -/

/-- A RREQ concerns its sender, its originator and its destination.  A RREP concerns its sender, its
    destination and, if it goes on, the next hop that it is sent to. -/
def TouchesOnly (s : MshData) (i : Input) : Prop :=
  (∀ pkt ∈ receivedRreq s i, ∀ d, d ≠ pkt.address →
    d ≠ (rreqOfPayload pkt.payload).orig_ip_addr → d ≠ (rreqOfPayload pkt.payload).dest_ip_addr →
      Untouched s (step s i) d) ∧
  ∀ pkt ∈ receivedRrep s i, ∀ d, d ≠ pkt.address → d ≠ (rrepOfPayload pkt.payload).dest_ip_addr →
    (∀ p ∈ sentBy s i, d ≠ p.address) → Untouched s (step s i) d

/-- The next hop of a RREP that goes on is the address of what the turn sends. -/
theorem exists_sentBy_next_hop (h : Wf s) {i : Input} {pkt : AodvPkt} {stats : Statistics}
    (hpkt : receivedRrep s i = some pkt)
    (hstep : step s i = aodvProcessRrep ((s.arrive i).withStats stats) pkt)
    (hacc : rrepAccepted (rreqArrived ((s.arrive i).withStats stats) pkt) (rrepNext pkt) = true)
    (hother : s.ip_addr ≠ (rrepNext pkt).orig_ip_addr) {r : MshRoute}
    (hr : (rrepUpdated ((s.arrive i).withStats stats) pkt).entry (rrepNext pkt).orig_ip_addr =
      some r) : ∃ p ∈ sentBy s i, p.address = r.next_hop := by
  have hinfo : (step s i).info (rrepNext pkt).orig_ip_addr = some r.info := by
    rw [hstep, info_aodvProcessRrep pkt ((h.arrive i).withStats stats), if_pos hacc,
      info_of_entry hr]
  rw [rrepAccepted_arrive h] at hacc
  rw [sentBy_rrep h hpkt hacc hother hinfo]
  exact ⟨_, List.mem_singleton_self _, rfl⟩

theorem touchesOnly_step (h : Wf s) (i : Input) : TouchesOnly s i := by
  constructor
  · intro pkt hpkt d hprev horig hdest
    obtain ⟨stats, hstep⟩ := step_of_receivedRreq (Option.mem_def.1 hpkt)
    have hun := untouched_aodvProcessRreq ((h.arrive i).withStats stats) pkt hprev horig hdest
    rw [← hstep] at hun
    exact ⟨hun.entry, hun.packets, hun.verdicts, hun.rreqs⟩
  · intro pkt hpkt d hprev hdest hsent
    rw [Option.mem_def] at hpkt
    obtain ⟨stats, hstep⟩ := step_of_receivedRrep hpkt
    have hun := untouched_aodvProcessRrep ((h.arrive i).withStats stats) pkt hprev hdest
      fun hacc hother r hr => by
        obtain ⟨p, hp, haddress⟩ := exists_sentBy_next_hop h hpkt hstep hacc hother hr
        exact haddress ▸ hsent p hp
    rw [← hstep] at hun
    exact ⟨hun.entry, hun.packets, hun.verdicts, hun.rreqs⟩

/-- **The handlers touch only what the message concerns**, in every state the daemon can reach. -/
theorem touchesOnly (ip bcast : InAddr) (iface : U32) (is : List Input) (i : Input) :
    TouchesOnly (run step (mshDataInit ip bcast iface) is) i :=
  touchesOnly_step (wf_run ip bcast iface is) i

end Meshias
