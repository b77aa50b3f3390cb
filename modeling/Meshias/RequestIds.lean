import Meshias.Provenance

/-!
# Request ids

A node tells two RREQs of an originator apart by their ids alone, and an id is a word that the
originator counts up.  In a network whose nodes have distinct addresses the originator and the id
name one request, as long as the originator has not come around.

* `Asks` — what a turn does to the ids: it uses the next ones, one for each new request.
* `Logged` — the requests of every node, in the order of their ids.

Principal results: `asks_step`, `request_ids_identify`.
-/

set_option autoImplicit false

namespace Meshias

open Network (Action)
open Machine (run StepsMeet)

variable {s t u : MshData} {i : Input} {new new' : List AodvRreq}

/-! ## One turn -/

/-- **The new requests of a node** have its address and the next ids; it counts them. -/
structure Asks (s t : MshData) (new : List AodvRreq) : Prop where
  ip_addr : t.ip_addr = s.ip_addr
  rreq_id : t.rreq_id = s.rreq_id + BitVec.ofNat 32 new.length
  counted : s.seq_incs + new.length ≤ t.seq_incs
  ids : ∀ k r, new[k]? = some r → r.rreq_id = s.rreq_id + BitVec.ofNat 32 (k + 1)
  orig : ∀ r ∈ new, r.orig_ip_addr = s.ip_addr

theorem Asks.nothing (hip : t.ip_addr = s.ip_addr) (hid : t.rreq_id = s.rreq_id)
    (hincs : s.seq_incs ≤ t.seq_incs) : Asks s t [] := by
  refine ⟨hip, ?_, hincs, fun k r hr => ?_, fun r hr => ?_⟩
  · rw [hid]
    simp
  · cases hr
  · cases hr

/-- A RREQ of the node itself. -/
theorem Asks.one {d : InAddr} {k : Int} (hip : t.ip_addr = s.ip_addr)
    (hid : t.rreq_id = s.rreq_id + 1) (hincs : t.seq_incs = s.seq_incs + 1) :
    Asks s t [(ownRequest s d k).request] := by
  refine ⟨hip, hid, hincs.ge, fun m r hr => ?_, fun r hr => ?_⟩
  · have hm : m = 0 ∧ r = (ownRequest s d k).request := by
      cases m with
      | zero => exact ⟨rfl, (Option.some.inj hr).symm⟩
      | succ m => cases hr
    rw [hm.1, hm.2, AodvPkt.request, ownRequest, rreqOfPayload_build]
    rfl
  · rw [List.mem_singleton.1 hr, AodvPkt.request, ownRequest, rreqOfPayload_build]

theorem Asks.trans (h : Asks s t new) (h' : Asks t u new') : Asks s u (new ++ new') := by
  refine ⟨h'.ip_addr.trans h.ip_addr, ?_, ?_, fun k r hr => ?_, fun r hr => ?_⟩
  · rw [h'.rreq_id, h.rreq_id, List.length_append, BitVec.ofNat_add, BitVec.add_assoc]
  · have hfirst := h.counted
    have hsecond := h'.counted
    rw [List.length_append]
    omega
  · by_cases hk : k < new.length
    · rw [List.getElem?_append_left hk] at hr
      exact h.ids k r hr
    · rw [List.getElem?_append_right (by omega)] at hr
      have hid := h'.ids _ r hr
      rw [h.rreq_id, BitVec.add_assoc, ← BitVec.ofNat_add] at hid
      rw [hid, show new.length + (k - new.length + 1) = k + 1 by omega]
  · rcases List.mem_append.1 hr with hr | hr
    · exact h.orig r hr
    · rw [h'.orig r hr, h.ip_addr]

theorem asks_aodvProcessRreq (h : Wf s) (pkt : AodvPkt) : Asks s (aodvProcessRreq s pkt) [] := by
  refine .nothing (sameNode_aodvProcessRreq h pkt).ip_addr (rreq_id_aodvProcessRreq pkt h) ?_
  have harr := (onlyTable_rreqArrived pkt h).seq_incs
  have hrev := (silent_rreqReversed pkt h).seq_incs
  obtain ⟨o, heq⟩ := aodvProcessRreq_eq pkt h
  rw [heq]
  split
  · rw [harr]
  · rw [← hrev]
    cases (rreqReply_spec (s := rreqReversed s pkt) pkt (rreqNext pkt) pkt.address o).2.2 with
    | silent _ hsil => rw [hsil.seq_incs]
    | answered _ hseq _ => rcases hseq with ⟨-, hincs⟩ | ⟨-, hincs⟩ <;> omega
    | forwarded _ _ hseq _ => rw [hseq.2]

theorem asks_aodvProcessRrep (h : Wf s) (pkt : AodvPkt) : Asks s (aodvProcessRrep s pkt) [] := by
  refine .nothing (sameNode_aodvProcessRrep h pkt).ip_addr (rreq_id_aodvProcessRrep pkt h) ?_
  have hupd := (onlyTable_rrepUpdated pkt h).seq_incs
  cases rrepProcessed pkt h with
  | refused _ ht => rw [ht, (onlyTable_rreqArrived pkt h).seq_incs]
  | ended _ _ ht => rw [ht, ← hupd]
  | forwarded _ _ ph d ht =>
    rw [ht, (aodvForwardRrep_spec pkt _ ph d (wf_rrepUpdated pkt h)).2.2.2.2, hupd]

/-- All that is sent are new requests. -/
def OnlyAsks (s t : MshData) : Prop :=
  ∃ new, Asks s t new ∧ SendsOnly (fun p => p.request ∈ new) s t

theorem OnlyAsks.quiet (hip : t.ip_addr = s.ip_addr) (hid : t.rreq_id = s.rreq_id)
    (hincs : t.seq_incs = s.seq_incs) (hsent : t.os.sent = s.os.sent) : OnlyAsks s t :=
  ⟨[], .nothing hip hid hincs.ge, .of_sent hsent⟩

theorem OnlyAsks.asked {d : InAddr} {k : Int} (hip : t.ip_addr = s.ip_addr)
    (hid : t.rreq_id = s.rreq_id + 1) (hincs : t.seq_incs = s.seq_incs + 1)
    (hsent : t.os.sent = s.os.sent ++ [ownRequest s d k]) : OnlyAsks s t :=
  ⟨_, .one hip hid hincs, .single hsent (List.mem_singleton_self _)⟩

theorem OnlyAsks.trans (h : OnlyAsks s t) (h' : OnlyAsks t u) : OnlyAsks s u := by
  obtain ⟨new, hasks, hsends⟩ := h
  obtain ⟨new', hasks', hsends'⟩ := h'
  exact ⟨new ++ new', hasks.trans hasks',
    (hsends.mono fun p hp => List.mem_append_left new' hp).trans
      (hsends'.mono fun p hp => List.mem_append_right new hp)⟩

theorem onlyAsks_managePacket (h : Wf s) (nfa : NfqData) : OnlyAsks s (managePacket s nfa) := by
  have hlook : ∀ orig, OnlyAsks s (packetLookedUp s nfa orig) := fun orig => by
    have htable := sameTable_packetLookedUp h nfa orig
    have hsilent := (routingTableUpdateRoute_spec h (nfqueuePacketGetDest nfa) orig).2.1
    exact .quiet htable.ip_addr htable.rreq_id hsilent.seq_incs hsilent.sent
  cases packetManaged h nfa with
  | passed _ ht => rw [ht]; exact .quiet rfl rfl rfl rfl
  | routed orig _ _ _ ht => rw [ht]; exact (hlook orig).trans (.quiet rfl rfl rfl rfl)
  | unanswered _ _ _ ht => rw [ht]; exact hlook _
  | queued _ _ _ _ ht => rw [ht]; exact (hlook 0).trans (.quiet rfl rfl rfl rfl)
  | discovered _ _ _ _ ht =>
    have horig := originated_aodvFindRoute (packetsFifoPush (packetLookedUp s nfa 0)
      (nfqueuePacketGetId nfa) (nfqueuePacketGetDest nfa)) (nfqueuePacketGetDest nfa) 0
    rw [ht]
    refine ((hlook 0).trans ?_).trans
      (.asked horig.ip_addr horig.rreq_id horig.seq_incs horig.sent)
    exact .quiet rfl rfl rfl rfl

theorem onlyAsks_runAlarm (h : Wf s) (owner : AlarmOwner) : OnlyAsks s (runAlarm s owner) := by
  cases runAlarm_cases h owner with
  | idle hsame hsil _ => exact .quiet hsame.ip_addr hsame.rreq_id hsil.seq_incs hsil.sent
  | expired a hexp =>
    exact .quiet hexp.same.ip_addr hexp.same.rreq_id hexp.silent.seq_incs hexp.silent.sent
  | destroyed r q _ _ hdes =>
    exact .quiet hdes.ip_addr hdes.rreq_id hdes.silent.seq_incs hdes.silent.sent
  | forgotten e _ _ ht => rw [ht]; exact .quiet rfl rfl rfl rfl
  | gaveUp e _ _ ht => rw [ht]; exact .quiet rfl rfl rfl rfl
  | retried e _ _ hret => exact .asked hret.ip_addr hret.rreq_id hret.seq_incs hret.sent

theorem onlyAsks_doAlarmRun (h : Wf s) : OnlyAsks s (doAlarmRun s) := by
  refine (doAlarmRun_invariant (s := s) (I := fun t => Wf t ∧ OnlyAsks s t) ?_
    ⟨h, .quiet rfl rfl rfl rfl⟩).2
  rintro t owner ⟨hwf, hasks⟩
  exact ⟨(runAlarm_cases hwf owner).wf hwf, hasks.trans (onlyAsks_runAlarm hwf owner)⟩

/-- **The requests of one turn**: what a turn sends is in flight already, is one of the new requests,
    or is a copy of the RREQ that was received. -/
theorem asks_step (h : Wf s) (i : Input) : ∃ new, Asks s (step s i) new ∧
    ∀ p ∈ (step s i).os.sent, aodvPktGetType p = AODV_RREQ → p ∈ s.os.sent ∨ p.request ∈ new ∨
      ∃ pkt, receivedRreq s i = some pkt ∧ p.request = pkt.request := by
  have honly : ∀ {t}, OnlyAsks s t → ∃ new, Asks s t new ∧
      ∀ p ∈ t.os.sent, aodvPktGetType p = AODV_RREQ → p ∈ s.os.sent ∨ p.request ∈ new ∨
        ∃ pkt, receivedRreq s i = some pkt ∧ p.request = pkt.request := by
    rintro t ⟨new, hasks, hsends⟩
    exact ⟨new, hasks, fun p hp _ => (hsends.mem hp).imp_right .inl⟩
  have hwf := fun stats => (h.arrive i).withStats stats
  have harrive : OnlyAsks s (s.arrive i) := .quiet rfl rfl rfl rfl
  have hcome : ∀ stats, Asks s ((s.arrive i).withStats stats) [] := fun stats =>
    .nothing rfl rfl (Nat.le_refl _)
  cases turn s i with
  | packet nfa hev hstep =>
    rw [hstep]
    exact honly (harrive.trans (onlyAsks_managePacket (h.arrive i) nfa))
  | alarms hev hstep =>
    rw [hstep]
    exact honly (harrive.trans (onlyAsks_doAlarmRun (h.arrive i)))
  | quiet stats _ _ _ _ hstep => rw [hstep]; exact honly (.quiet rfl rfl rfl rfl)
  | rreq pkt stats hpkt hstep =>
    have hasks := (hcome stats).trans (asks_aodvProcessRreq (hwf stats) pkt)
    refine ⟨[], by rw [hstep]; exact hasks, fun p hp htype => ?_⟩
    refine ((newMessage_step h i).mem hp).imp_right fun hnew => .inr ?_
    rcases hnew.of_rreq htype with ⟨hnot, -⟩ | ⟨pkt', hpkt', -, rfl⟩
    · rw [(received_of_event hnot).1] at hpkt
      cases hpkt
    · exact ⟨pkt', hpkt', request_prepare rfl⟩
  | rrep pkt stats hpkt hstep =>
    have hasks := (hcome stats).trans (asks_aodvProcessRrep (hwf stats) pkt)
    refine ⟨[], by rw [hstep]; exact hasks, fun p hp htype => ?_⟩
    refine ((newMessage_step h i).mem hp).imp_right fun hnew => .inr ?_
    rcases hnew.of_rreq htype with ⟨hnot, -⟩ | ⟨pkt', hpkt', -, rfl⟩
    · rw [(received_of_event hnot).2] at hpkt
      cases hpkt
    · exact ⟨pkt', hpkt', request_prepare rfl⟩

/-! ## The network -/

variable {ι : Type} {addr : ι → InAddr} {bcast : InAddr} {n : ι → MshData} {a : Action ι Input}
  {log : ι → List AodvRreq}

/-- **The requests of every node**, in the order of their ids: all in flight with its address are
    among them. -/
structure Logged (addr : ι → InAddr) (n : ι → MshData) (log : ι → List AodvRreq) : Prop where
  rreq_id : ∀ o, (n o).rreq_id = BitVec.ofNat 32 (log o).length
  counted : ∀ o, (log o).length ≤ (n o).seq_incs
  ids : ∀ o k r, (log o)[k]? = some r → r.rreq_id = BitVec.ofNat 32 (k + 1)
  sent : ∀ o k, ∀ p ∈ (n k).os.sent, aodvPktGetType p = AODV_RREQ →
    p.request.orig_ip_addr = addr o → p.request ∈ log o

theorem Logged.init (addr : ι → InAddr) (bcast : InAddr) (iface : ι → U32) :
    Logged addr (netInit addr bcast iface) fun _ => [] := by
  refine ⟨fun _ => rfl, fun _ => Nat.zero_le _, fun o k r hr => ?_, fun o k p hp => ?_⟩
  · cases hr
  · cases hp

/-- **An id names a request**, while the ids of the originator have not come around. -/
theorem Logged.eq_of_id (h : Logged addr n log) {o : ι} (hfew : (n o).seq_incs < 2 ^ 32)
    {r r' : AodvRreq} (hr : r ∈ log o) (hr' : r' ∈ log o) (hid : r.rreq_id = r'.rreq_id) :
    r = r' := by
  obtain ⟨k, hk⟩ := List.mem_iff_getElem?.1 hr
  obtain ⟨k', hk'⟩ := List.mem_iff_getElem?.1 hr'
  have hlt : k < (log o).length := (List.getElem?_eq_some_iff.1 hk).1
  have hlt' : k' < (log o).length := (List.getElem?_eq_some_iff.1 hk').1
  have hlength := h.counted o
  rw [h.ids o k r hk, h.ids o k' r' hk'] at hid
  have hsame : k = k' := by
    have hnat := congrArg BitVec.toNat hid
    rw [BitVec.toNat_ofNat, BitVec.toNat_ofNat, Nat.mod_eq_of_lt (by omega),
      Nat.mod_eq_of_lt (by omega)] at hnat
    omega
  subst hsame
  rw [hk] at hk'
  exact Option.some.inj hk'

section Net

variable [DecidableEq ι]

theorem Logged.step (hinj : Function.Injective addr) (hwf : NetWf addr bcast n)
    (h : Logged addr n log) (hdel : Deliverable n a) : ∃ log', Logged addr (netStep n a) log' := by
  obtain ⟨new, hasks, hnew⟩ := asks_step (hwf.wf a.node) a.input
  have hnode : netStep n a a.node = Meshias.step (n a.node) a.input := Network.act_same n a
  have hother : ∀ {k}, k ≠ a.node → netStep n a k = n k := fun hk => Network.act_other n hk
  refine ⟨Function.update log a.node (log a.node ++ new), fun o => ?_, fun o => ?_,
    fun o k r hr => ?_, fun o k p hp htype horig => ?_⟩
  · by_cases ho : o = a.node
    · subst ho
      rw [hnode, hasks.rreq_id, h.rreq_id, Function.update_self, List.length_append,
        BitVec.ofNat_add]
    · rw [hother ho, Function.update_of_ne ho, h.rreq_id]
  · by_cases ho : o = a.node
    · subst ho
      have hold := h.counted a.node
      have hmore := hasks.counted
      rw [hnode, Function.update_self, List.length_append]
      omega
    · rw [hother ho, Function.update_of_ne ho]
      exact h.counted o
  · by_cases ho : o = a.node
    · subst ho
      rw [Function.update_self] at hr
      by_cases hk : k < (log a.node).length
      · rw [List.getElem?_append_left hk] at hr
        exact h.ids a.node k r hr
      · rw [List.getElem?_append_right (by omega)] at hr
        rw [hasks.ids _ r hr, h.rreq_id, ← BitVec.ofNat_add,
          show (log a.node).length + (k - (log a.node).length + 1) = k + 1 by omega]
    · rw [Function.update_of_ne ho] at hr
      exact h.ids o k r hr
  · have hgrows : ∀ r ∈ log o, r ∈ Function.update log a.node (log a.node ++ new) o := by
      intro r hr
      by_cases ho : o = a.node
      · subst ho
        rw [Function.update_self]
        exact List.mem_append_left new hr
      · rwa [Function.update_of_ne ho]
    by_cases hk : k = a.node
    · subst hk
      rw [hnode] at hp
      rcases hnew p hp htype with hold | hask | ⟨pkt, hpkt, hsame⟩
      · exact hgrows _ (h.sent o a.node p hold htype horig)
      · -- a new request has the address of the node
        have hown := (hasks.orig p.request hask).trans (hwf.ip_addr a.node)
        obtain rfl := hinj (horig.symm.trans hown)
        rw [Function.update_self]
        exact List.mem_append_right _ hask
      · obtain ⟨hrec, hptype⟩ := receivedRreq_eq_some.1 hpkt
        obtain ⟨m, -, q, hq, hpay, -⟩ := messageFrom_of_received hdel hrec
        have hcopy : p.request = q.request := hsame.trans (request_eq_of_payload hpay)
        rw [hcopy] at horig ⊢
        exact hgrows _ (h.sent o m q hq ((type_eq_of_payload hpay).symm.trans hptype) horig)
    · rw [hother hk] at hp
      exact hgrows _ (h.sent o k p hp htype horig)

/-- **The originator and the id name one request.**  However messages are delayed, reordered,
    duplicated and lost, two RREQs in flight with the same originator and the same id agree in
    everything but the hop count, as long as the originator has counted its sequence number up fewer
    than `2^32` times. -/
theorem request_ids_identify (hinj : Function.Injective addr) (bcast : InAddr) (iface : ι → U32)
    (as : List (Action ι Input)) (has : StepsMeet netStep Deliverable (netInit addr bcast iface) as)
    {o k m : ι} (hfew : (run netStep (netInit addr bcast iface) as o).seq_incs < 2 ^ 32)
    {p q : AodvPkt} (hp : p ∈ (run netStep (netInit addr bcast iface) as k).os.sent)
    (hq : q ∈ (run netStep (netInit addr bcast iface) as m).os.sent)
    (hptype : aodvPktGetType p = AODV_RREQ) (hqtype : aodvPktGetType q = AODV_RREQ)
    (hporig : (rreqOfPayload p.payload).orig_ip_addr = addr o)
    (hqorig : (rreqOfPayload q.payload).orig_ip_addr = addr o)
    (hid : (rreqOfPayload p.payload).rreq_id = (rreqOfPayload q.payload).rreq_id) :
    p.request = q.request := by
  obtain ⟨-, log, hlog⟩ := Machine.run_invariant
    (I := fun n => NetWf addr bcast n ∧ ∃ log, Logged addr n log)
    (fun n a h hdel => ⟨h.1.step a, h.2.elim fun log hlog => hlog.step hinj h.1 hdel⟩)
    ⟨NetWf.init addr bcast iface, _, Logged.init addr bcast iface⟩ has
  exact hlog.eq_of_id hfew (hlog.sent o k p hp hptype hporig) (hlog.sent o m q hq hqtype hqorig) hid

end Net

/-- Node 1 has passed the RREQ of node 0 on. -/
theorem request_ids_identify_chain :
    ((run netStep (smallNet 3) chainDiscovery 0).os.sent.headD ⟨[], 0, 0⟩).request =
      ((run netStep (smallNet 3) chainDiscovery 1).os.sent.headD ⟨[], 0, 0⟩).request := by
  have hdistinct : Function.Injective (nodeAddr : Fin 3 → InAddr) := by decide
  have hfew : (run netStep (smallNet 3) chainDiscovery 0).seq_incs < 2 ^ 32 := by decide +kernel
  have hsent : ∀ k, k ≠ 2 → (run netStep (smallNet 3) chainDiscovery k).os.sent.headD ⟨[], 0, 0⟩ ∈
      (run netStep (smallNet 3) chainDiscovery k).os.sent := by decide +kernel
  exact request_ids_identify hdistinct 0x0A0000FF (fun _ => 0) chainDiscovery (by decide +kernel)
    hfew (hsent 0 (by decide)) (hsent 1 (by decide)) (by decide +kernel) (by decide +kernel)
    (by decide +kernel) (by decide +kernel) (by decide +kernel)

end Meshias
