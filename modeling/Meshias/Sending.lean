import Meshias.Retries

/-!
# What a turn sends

A node sends requests for its own destinations, replies for its own address, and the RREQs and
RREPs of other nodes with their hop counts incremented; nothing else.

* `SendsOnly` — what a step sends has a property.
* `OwnRreq`, `RreqSends` — the requests of a node, and what a RREQ makes it send.
* `Sent` — where a message comes from that has been sent by the end of a turn.

Principal results: `sendsOnly_aodvProcessRreq`, `sendsOnly_aodvProcessRrep`,
`sendsOnly_managePacket`, `sendsOnly_doAlarmRun`, `sent_step`, `ipTtl_run_ne_zero`.
-/

set_option autoImplicit false

namespace Meshias

open Machine (run)

variable {s t u : MshData} {P : AodvPkt → Prop}

/-! ## Message types -/

theorem rreq_ne_rrep : AODV_RREQ ≠ AODV_RREP := by decide

theorem type_build_rreq (flags hop : U8) (id dest dseq orig oseq : U32) :
    ((aodvPktBuildRreq flags hop id dest dseq orig oseq).headD 0).toInt = AODV_RREQ := rfl

theorem type_build_rrep (flags psz hop : U8) (dest dseq orig lifetime : U32) :
    ((aodvPktBuildRrep flags psz hop dest dseq orig lifetime).headD 0).toInt = AODV_RREP := rfl

/-- Passing a message on does not change its type. -/
theorem type_prepare_rreqNext (pkt : AodvPkt) :
    ((aodvPktPrepareRreq (rreqNext pkt)).headD 0).toInt = aodvPktGetType pkt := by
  change (pkt.payload.getD 0 0).toInt = aodvPktGetType pkt
  rw [aodvPktGetType]
  cases pkt.payload <;> rfl

theorem type_prepare_rrepNext (pkt : AodvPkt) :
    ((aodvPktPrepareRrep (rrepNext pkt)).headD 0).toInt = aodvPktGetType pkt := by
  change (pkt.payload.getD 0 0).toInt = aodvPktGetType pkt
  rw [aodvPktGetType]
  cases pkt.payload <;> rfl

/-! ## What a step sends -/

/-- Only messages with the property are sent. -/
def SendsOnly (P : AodvPkt → Prop) (s t : MshData) : Prop :=
  ∃ new, t.os.sent = s.os.sent ++ new ∧ ∀ p ∈ new, P p

theorem SendsOnly.of_sent (h : t.os.sent = s.os.sent) : SendsOnly P s t :=
  ⟨[], by rw [h, List.append_nil], fun p hp => absurd hp List.not_mem_nil⟩

theorem SendsOnly.single {p : AodvPkt} (h : t.os.sent = s.os.sent ++ [p]) (hp : P p) :
    SendsOnly P s t := by
  refine ⟨[p], h, fun q hq => ?_⟩
  rw [List.mem_singleton.1 hq]
  exact hp

theorem SendsOnly.trans (h : SendsOnly P s t) (h' : SendsOnly P t u) : SendsOnly P s u := by
  obtain ⟨new, hsent, hnew⟩ := h
  obtain ⟨new', hsent', hnew'⟩ := h'
  refine ⟨new ++ new', by rw [hsent', hsent, List.append_assoc], fun p hp => ?_⟩
  rcases List.mem_append.1 hp with hp | hp
  · exact hnew p hp
  · exact hnew' p hp

theorem SendsOnly.mem (h : SendsOnly P s t) {p : AodvPkt} (hp : p ∈ t.os.sent) :
    p ∈ s.os.sent ∨ P p := by
  obtain ⟨new, hsent, hnew⟩ := h
  rw [hsent] at hp
  exact (List.mem_append.1 hp).imp_right (hnew p)

/-- A request of a discovery of the node `ip` itself. -/
def OwnRreq (ip : InAddr) (p : AodvPkt) : Prop :=
  ∃ (s : MshData) (d : InAddr) (k : Nat),
    s.ip_addr = ip ∧ k ≤ RREQ_RETRIES.toNat ∧ p = ownRequest s d k

theorem ownRequest_own (s : MshData) (dest : InAddr) (prev_tries : Int) :
    aodvPktGetType (ownRequest s dest prev_tries) = AODV_RREQ ∧
      (rreqOfPayload (ownRequest s dest prev_tries).payload).orig_ip_addr = s.ip_addr := by
  refine ⟨type_build_rreq _ _ _ _ _ _ _, ?_⟩
  rw [ownRequest, rreqOfPayload_build]

theorem OwnRreq.type_orig {ip : InAddr} {p : AodvPkt} (h : OwnRreq ip p) :
    aodvPktGetType p = AODV_RREQ ∧ (rreqOfPayload p.payload).orig_ip_addr = ip := by
  obtain ⟨t, d, k, rfl, -, rfl⟩ := h
  exact ownRequest_own t d k

/-- What a RREQ makes a node send. -/
inductive RreqSends (s : MshData) (pkt p : AodvPkt) : Prop where
  | rebroadcast (httl : 1 < pkt.ttl)
      (hp : p = ⟨aodvPktPrepareRreq (rreqNext pkt), s.broadcast_addr, pkt.ttl - 1⟩)
  | answer (hdest : (rreqOfPayload pkt.payload).dest_ip_addr = s.ip_addr) (seq_num : U32)
      (hp : p.payload = aodvPktBuildRrep 0 0 0 s.ip_addr seq_num
        (rreqOfPayload pkt.payload).orig_ip_addr MY_ROUTE_TIMEOUT) (httl : p.ttl = DEFAULT_TTL)

theorem sendsOnly_aodvProcessRreq (h : Wf s) (pkt : AodvPkt) :
    SendsOnly (fun p => rreqDuplicate s pkt = false ∧ RreqSends s pkt p) s (aodvProcessRreq s pkt) := by
  obtain ⟨o, heq⟩ := aodvProcessRreq_eq pkt h
  have hbcast : (rreqReversed s pkt).broadcast_addr = s.broadcast_addr :=
    (onlyTable_rreqReversed pkt h).broadcast_addr.trans
      (onlyTable_rreqArrived pkt h).broadcast_addr
  have hip : (rreqReversed s pkt).ip_addr = s.ip_addr :=
    (onlyTable_rreqReversed pkt h).ip_addr.trans (onlyTable_rreqArrived pkt h).ip_addr
  rw [heq]
  split
  · exact .of_sent (onlyTable_rreqArrived pkt h).sent
  · rename_i hdup
    have hnew : rreqDuplicate s pkt = false := Bool.eq_false_iff.2 hdup
    have hrev := (silent_rreqReversed pkt h).sent
    obtain ⟨hsame, -, hreply⟩ :=
      rreqReply_spec (s := rreqReversed s pkt) pkt (rreqNext pkt) pkt.address o
    cases hreply with
    | silent _ hsil => exact .of_sent (hsil.sent.trans hrev)
    | answered hdest _ hsent =>
      refine .single (hsent.trans (by rw [hrev])) ⟨hnew, .answer (hdest.trans hip)
        (rreqReply (rreqReversed s pkt) pkt (rreqNext pkt) pkt.address o).seq_num ?_ rfl⟩
      rw [ownReply, hsame.ip_addr, hip]
      rfl
    | forwarded _ httl _ hsent =>
      exact .single (hsent.trans (by rw [hrev])) ⟨hnew, .rebroadcast httl (by rw [hbcast])⟩

theorem sendsOnly_aodvProcessRrep (h : Wf s) (pkt : AodvPkt) :
    SendsOnly (fun p => rrepAcceptable s pkt = true ∧
      p.payload = aodvPktPrepareRrep (rrepNext pkt) ∧ p.ttl = s.os.setIpTtl (pkt.ttl - 1))
      s (aodvProcessRrep s pkt) := by
  have hupd := (onlyTable_rrepUpdated pkt h).sent
  cases rrepProcessed pkt h with
  | refused _ ht => exact .of_sent (by rw [ht, (onlyTable_rreqArrived pkt h).sent])
  | ended _ _ ht => exact .of_sent (by rw [ht, ← hupd])
  | forwarded hacc _ ph d ht =>
    rw [rrepAccepted_eq h] at hacc
    rw [ht]
    cases (aodvForwardRrep_spec pkt (rrepNext pkt) ph d (wf_rrepUpdated pkt h)).2.2.1 with
    | silent _ hsent => exact .of_sent (hsent.trans hupd)
    | forwarded _ hsent =>
      exact .single (hsent.trans (by rw [hupd])) ⟨hacc, rfl, setIpTtl_congr hupd _⟩

theorem sendsOnly_managePacket (h : Wf s) (nfa : NfqData) :
    SendsOnly (OwnRreq s.ip_addr) s (managePacket s nfa) := by
  have hlook : ∀ orig, (packetLookedUp s nfa orig).os.sent = s.os.sent := fun orig =>
    (routingTableUpdateRoute_spec h _ orig).2.1.sent
  cases packetManaged h nfa with
  | passed _ ht => rw [ht]; exact .of_sent rfl
  | routed orig _ _ _ ht => rw [ht]; exact .of_sent (hlook orig)
  | unanswered _ _ _ ht => rw [ht]; exact .of_sent (hlook _)
  | queued _ _ _ _ ht => rw [ht]; exact .of_sent (hlook 0)
  | discovered _ _ _ _ ht =>
    have hsent := (originated_aodvFindRoute (packetsFifoPush (packetLookedUp s nfa 0)
      (nfqueuePacketGetId nfa) (nfqueuePacketGetDest nfa)) (nfqueuePacketGetDest nfa) 0).sent
    rw [packetsFifoPush_os, hlook 0] at hsent
    rw [ht]
    exact .single hsent ⟨_, _, 0, (sameTable_packetLookedUp h nfa 0).ip_addr, Nat.zero_le _, rfl⟩

theorem sendsOnly_runAlarm (h : Wf s) (owner : AlarmOwner) :
    SendsOnly (OwnRreq s.ip_addr) s (runAlarm s owner) := by
  cases owner with
  | route p => exact .of_sent (runAlarm_route_queues s p).2
  | rreq p =>
    cases rreqAlarm h p with
    | absent _ ht => rw [ht]; exact .of_sent rfl
    | forgotten e _ _ _ ht => rw [ht]; exact .of_sent rfl
    | gaveUp e _ _ _ _ ht => rw [ht]; exact .of_sent rfl
    | retried e _ _ htries hret =>
      obtain ⟨hlo, hhi⟩ := htries
      obtain ⟨k, hk⟩ := Int.eq_ofNat_of_zero_le (show 0 ≤ e.prev_tries + 1 by omega)
      refine .single hret.sent ⟨s, e.dst, k, rfl, by omega, by rw [hk]⟩

theorem sendsOnly_doAlarmRun (h : Wf s) : SendsOnly (OwnRreq s.ip_addr) s (doAlarmRun s) := by
  refine (doAlarmRun_invariant (s := s)
    (I := fun t => Wf t ∧ t.ip_addr = s.ip_addr ∧ SendsOnly (OwnRreq s.ip_addr) s t) ?_
    ⟨h, rfl, .of_sent rfl⟩).2.2
  rintro t owner ⟨hwf, hip, hsends⟩
  have hrun := runAlarm_cases hwf owner
  have hown := sendsOnly_runAlarm hwf owner
  rw [hip] at hown
  exact ⟨hrun.wf hwf, hrun.sameNode.ip_addr.trans hip, hsends.trans hown⟩

theorem SendsOnly.mono {Q : AodvPkt → Prop} (h : SendsOnly P s t) (hPQ : ∀ p, P p → Q p) :
    SendsOnly Q s t := by
  obtain ⟨new, hsent, hnew⟩ := h
  exact ⟨new, hsent, fun p hp => hPQ p (hnew p hp)⟩

/-! ## Where a message comes from -/

/-- **Everything a node sends** in a turn that starts in `s`. -/
inductive Sent (s : MshData) (i : Input) (p : AodvPkt) : Prop where
  | before (h : p ∈ s.os.sent)
  | ownRreq (htype : aodvPktGetType p = AODV_RREQ)
      (horig : (rreqOfPayload p.payload).orig_ip_addr = s.ip_addr)
  | ownRrep (htype : aodvPktGetType p = AODV_RREP)
      (hdest : (rrepOfPayload p.payload).dest_ip_addr = s.ip_addr)
  | passedRreq (pkt : AodvPkt) (hpkt : receivedRreq s i = some pkt)
      (hnew : rreqDuplicate s pkt = false) (hpay : p.payload = aodvPktPrepareRreq (rreqNext pkt))
  | passedRrep (pkt : AodvPkt) (hpkt : receivedRrep s i = some pkt)
      (hacc : rrepAcceptable s pkt = true) (hpay : p.payload = aodvPktPrepareRrep (rrepNext pkt))

/-- **The messages sent by the end of a turn.** -/
theorem sent_step (h : Wf s) (i : Input) {p : AodvPkt} (hp : p ∈ (step s i).os.sent) :
    Sent s i p := by
  have hwf := fun stats => (h.arrive i).withStats stats
  cases turn s i with
  | rreq pkt stats hpkt hstep =>
    rw [hstep] at hp
    rcases (sendsOnly_aodvProcessRreq (hwf stats) pkt).mem hp with hold | ⟨hnew, hsends⟩
    · exact .before hold
    · cases hsends with
      | rebroadcast _ hp => exact .passedRreq pkt hpkt hnew (by rw [hp])
      | answer _ seq_num hp =>
        refine .ownRrep ?_ (by rw [hp, rrepOfPayload_build]; rfl)
        rw [aodvPktGetType, hp]
        exact type_build_rrep _ _ _ _ _ _ _
  | rrep pkt stats hpkt hstep =>
    rw [hstep] at hp
    rcases (sendsOnly_aodvProcessRrep (hwf stats) pkt).mem hp with hold | ⟨hacc, hpay, -⟩
    · exact .before hold
    · exact .passedRrep pkt hpkt hacc hpay
  | packet nfa _ hstep =>
    rw [hstep] at hp
    rcases (sendsOnly_managePacket (h.arrive i) nfa).mem hp with hold | hown
    · exact .before hold
    · exact .ownRreq hown.type_orig.1 hown.type_orig.2
  | alarms _ hstep =>
    rw [hstep] at hp
    rcases (sendsOnly_doAlarmRun (h.arrive i)).mem hp with hold | hown
    · exact .before hold
    · exact .ownRreq hown.type_orig.1 hown.type_orig.2
  | quiet stats _ _ _ _ hstep => rw [hstep] at hp; exact .before hp

/-! ## TTLs -/

theorem OwnRreq.ttl_ne_zero {ip : InAddr} {p : AodvPkt} (h : OwnRreq ip p) : p.ttl ≠ 0 := by
  obtain ⟨s, d, k, -, -, rfl⟩ := h
  exact ownRequest_ttl_ne_zero s d k

theorem RreqSends.ttl_ne_zero {pkt p : AodvPkt} (h : RreqSends s pkt p) : p.ttl ≠ 0 := by
  cases h with
  | rebroadcast httl hp =>
    rw [hp]
    exact ttl_sub_one_ne_zero httl
  | answer _ _ _ httl =>
    rw [httl]
    decide

/-- **No datagram leaves with TTL 0**: the socket refuses it and keeps the TTL of the last one. -/
theorem ttl_ne_zero_step (h : Wf s) (hs : ∀ p ∈ s.os.sent, p.ttl ≠ 0) (i : Input) :
    ∀ p ∈ (step s i).os.sent, p.ttl ≠ 0 := by
  intro p hp
  have hwf := fun stats => (h.arrive i).withStats stats
  cases turn s i with
  | rreq pkt stats _ hstep =>
    rw [hstep] at hp
    exact ((sendsOnly_aodvProcessRreq (hwf stats) pkt).mem hp).elim (hs p) fun hp => hp.2.ttl_ne_zero
  | rrep pkt stats _ hstep =>
    rw [hstep] at hp
    refine ((sendsOnly_aodvProcessRrep (hwf stats) pkt).mem hp).elim (hs p) fun hp => ?_
    rw [hp.2.2]
    exact setIpTtl_ne_zero hs _
  | packet nfa _ hstep =>
    rw [hstep] at hp
    exact ((sendsOnly_managePacket (h.arrive i) nfa).mem hp).elim (hs p) fun hp => hp.ttl_ne_zero
  | alarms _ hstep =>
    rw [hstep] at hp
    exact ((sendsOnly_doAlarmRun (h.arrive i)).mem hp).elim (hs p) fun hp => hp.ttl_ne_zero
  | quiet stats _ _ _ _ hstep =>
    rw [hstep] at hp
    exact hs p hp

/-- The `IP_TTL` option is never 0. -/
theorem ipTtl_run_ne_zero (ip bcast : InAddr) (iface : U32) (is : List Input) :
    (run step (mshDataInit ip bcast iface) is).os.ipTtl ≠ 0 := by
  have hrun := Machine.run_invariant_always (I := fun s => Wf s ∧ ∀ p ∈ s.os.sent, p.ttl ≠ 0)
    (fun _ i h => ⟨h.1.step i, ttl_ne_zero_step h.1 h.2 i⟩)
    ⟨Wf.init ip bcast iface, fun p hp => absurd hp List.not_mem_nil⟩ is
  exact ipTtl_ne_zero hrun.2

end Meshias
