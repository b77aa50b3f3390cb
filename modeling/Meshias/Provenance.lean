import Meshias.Flood
import Meshias.LoopFreedom

/-!
# Where everything comes from

A node believes every message it gets.  In a network in which all run the daemon, that is no harm:
a RREQ in flight is, up to the hop count, one that its originator has sent, a RREP is, up to the hop
count, one that its destination has sent after a RREQ for it, and every entry of a routing table
goes back to a message of its next hop.

* `AodvPkt.request`, `AodvPkt.reply` — what a message keeps on its way.
* `RequestedBy`, `AnsweredBy` — the originals.
* `entry_origin` — where an entry comes from that a turn has written.
* `Genuine` — the invariant; `Genuine.step` keeps it.

Principal result: `nothing_invented`.
-/

set_option autoImplicit false

namespace Meshias

open Network (Action)
open Machine (run StepsMeet)

variable {ι : Type} {s : MshData} {i : Input}

/-! ## Originals -/

/-- What a RREQ keeps on its way: everything but the hop count. -/
def AodvPkt.request (p : AodvPkt) : AodvRreq := { rreqOfPayload p.payload with hop_count := 0 }

/-- What a RREP keeps on its way. -/
def AodvPkt.reply (p : AodvPkt) : AodvRrep := { rrepOfPayload p.payload with hop_count := 0 }

/-- The answer of the node `ip` to a RREQ for it. -/
def OwnRrep (ip : InAddr) (p : AodvPkt) : Prop :=
  ∃ seq_num orig, p.payload = aodvPktBuildRrep 0 0 0 ip seq_num orig MY_ROUTE_TIMEOUT

def RequestedBy (n : ι → MshData) (o : ι) (q : AodvPkt) : Prop :=
  q ∈ (n o).os.sent ∧ OwnRreq (n o).ip_addr q

def AnsweredBy (n : ι → MshData) (d : ι) (q : AodvPkt) : Prop :=
  q ∈ (n d).os.sent ∧ OwnRrep (n d).ip_addr q

/-- The node that a message makes a route to: the originator of a RREQ, the destination of a
    RREP. -/
def AodvPkt.About (p : AodvPkt) (b : InAddr) : Prop :=
  aodvPktGetType p = AODV_RREQ ∧ (rreqOfPayload p.payload).orig_ip_addr = b ∨
    aodvPktGetType p = AODV_RREP ∧ (rrepOfPayload p.payload).dest_ip_addr = b

/-- Only the payload counts. -/
theorem request_eq_of_payload {p q : AodvPkt} (h : p.payload = q.payload) :
    p.request = q.request := by
  rw [AodvPkt.request, h]
  rfl

theorem reply_eq_of_payload {p q : AodvPkt} (h : p.payload = q.payload) : p.reply = q.reply := by
  rw [AodvPkt.reply, h]
  rfl

theorem type_eq_of_payload {p q : AodvPkt} (h : p.payload = q.payload) :
    aodvPktGetType p = aodvPktGetType q := by
  rw [aodvPktGetType, h]
  rfl

theorem AodvPkt.About.of_payload {p q : AodvPkt} {b : InAddr} (h : p.About b)
    (hpay : p.payload = q.payload) : q.About b := by
  rw [AodvPkt.About, type_eq_of_payload hpay, hpay] at h
  exact h

/-- A RREQ that is passed on is the same request. -/
theorem request_prepare {pkt p : AodvPkt} (h : p.payload = aodvPktPrepareRreq (rreqNext pkt)) :
    p.request = pkt.request := by
  rw [AodvPkt.request, h, rreqOfPayload_prepare]
  rfl

/-- A RREP that is passed on is the same reply. -/
theorem reply_prepare {pkt p : AodvPkt} (h : p.payload = aodvPktPrepareRrep (rrepNext pkt)) :
    p.reply = pkt.reply := by
  rw [AodvPkt.reply, h, rrepOfPayload_prepare]
  rfl

/-! ## One turn -/

/-- What is taken from a message is about the one it makes a route to. -/
theorem about_of_taken {pkt : AodvPkt} (hpkt : s.received i = some pkt) {x : Taken}
    (hx : x ∈ taken s i) : pkt.About x.dst := by
  unfold taken at hx
  split at hx
  · rename_i pkt' hrreq
    obtain ⟨hrec, htype⟩ := receivedRreq_eq_some.1 hrreq
    rw [hpkt] at hrec
    obtain rfl := Option.some.inj hrec
    dsimp only at hx
    split at hx
    · cases hx
    · obtain rfl := Option.some.inj hx
      exact .inl ⟨htype, rfl⟩
  · rename_i pkt' _ hrrep
    obtain ⟨hrec, htype⟩ := receivedRrep_eq_some.1 hrrep
    rw [hpkt] at hrec
    obtain rfl := Option.some.inj hrec
    dsimp only at hx
    split at hx
    · obtain rfl := Option.some.inj hx
      exact .inr ⟨htype, rfl⟩
    · cases hx
  · cases hx

/-- **An entry after a turn** is an old one, or leads to the sender of the message that was received:
    a way to the sender itself, or to the one that the message is about. -/
theorem entry_origin (h : Wf s) {b : InAddr} {j : RouteInfo} (hj : (step s i).info b = some j) :
    s.info b = some j ∨
      ∃ pkt, s.received i = some pkt ∧ j.next_hop = pkt.address ∧ (b = pkt.address ∨ pkt.About b) := by
  cases hw : writes s i with
  | none =>
    left
    by_cases hi : i.event = .alarms
    · have hstep : step s i = doAlarmRun (s.arrive i) := by rw [step, hi]; rfl
      rw [hstep] at hj
      rcases info_doAlarmRun (h.arrive i) b with hsame | hgone
      · rw [hsame] at hj; exact hj
      · rw [hgone] at hj; cases hj
    · rwa [(unwritten_step h hw hi).1] at hj
  | some w =>
    have hwrote := wrote_step h hw
    obtain ⟨⟨pkt, hpkt, hsender⟩, habout, -⟩ := writesTaken hw
    by_cases hmem : b ∈ w.inserted ∨ b ∈ w.updated
    · right
      obtain ⟨j', hj', hnext, -⟩ := hwrote.hop b hmem
      rw [hj] at hj'
      obtain rfl := Option.some.inj hj'
      refine ⟨pkt, hpkt, hnext.trans hsender, ?_⟩
      rcases habout b hmem with hb | ⟨x, hx, rfl⟩
      · exact .inl (hb.trans hsender)
      · exact .inr (about_of_taken hpkt hx)
    · obtain ⟨hins, hupd⟩ := not_or.1 hmem
      rw [hwrote.other b hins hupd] at hj
      exact .inl hj

/-- A node does not unsay what it has sent. -/
theorem mem_sent_step (h : Wf s) (i : Input) {p : AodvPkt} (hp : p ∈ s.os.sent) :
    p ∈ (step s i).os.sent := by
  obtain ⟨new, hsent, -⟩ := newMessage_step h i
  rw [hsent]
  exact List.mem_append_left _ hp

/-! ## The network -/

/-- An original of a RREQ. -/
def GenuineRreq (n : ι → MshData) (p : AodvPkt) : Prop :=
  ∃ o q, RequestedBy n o q ∧ q.request = p.request

/-- An original of a RREP, and the RREQ that asked for it. -/
def GenuineRrep (n : ι → MshData) (p : AodvPkt) : Prop :=
  ∃ d q o r, AnsweredBy n d q ∧ q.reply = p.reply ∧ RequestedBy n o r ∧
    r.request.dest_ip_addr = (n d).ip_addr ∧ r.request.orig_ip_addr = p.reply.orig_ip_addr

/-- The message that an entry for `b` of the node `k` goes back to. -/
def Heard (n : ι → MshData) (k : ι) (b : InAddr) (j : RouteInfo) : Prop :=
  ∃ m, ∃ p ∈ (n m).os.sent, j.next_hop = (n m).ip_addr ∧
    (p.address = (n k).ip_addr ∨ p.address = (n m).broadcast_addr) ∧ (b = j.next_hop ∨ p.About b)

/-- **Nothing is invented.** -/
structure Genuine (n : ι → MshData) : Prop where
  rreq : ∀ k, ∀ p ∈ (n k).os.sent, aodvPktGetType p = AODV_RREQ → GenuineRreq n p
  rrep : ∀ k, ∀ p ∈ (n k).os.sent, aodvPktGetType p = AODV_RREP → GenuineRrep n p
  entry : ∀ k b j, (n k).info b = some j → Heard n k b j

variable {addr : ι → InAddr} {bcast : InAddr} {n n' : ι → MshData} {a : Action ι Input} {p : AodvPkt}

/-- What a step keeps of the past. -/
structure NetGrows (n n' : ι → MshData) : Prop where
  sent : ∀ m, ∀ p ∈ (n m).os.sent, p ∈ (n' m).os.sent
  ip_addr : ∀ m, (n' m).ip_addr = (n m).ip_addr
  broadcast_addr : ∀ m, (n' m).broadcast_addr = (n m).broadcast_addr

theorem RequestedBy.keep {o : ι} {q : AodvPkt} (h : RequestedBy n o q) (hk : NetGrows n n') :
    RequestedBy n' o q := by
  refine ⟨hk.sent o q h.1, ?_⟩
  rw [hk.ip_addr]
  exact h.2

theorem AnsweredBy.keep {d : ι} {q : AodvPkt} (h : AnsweredBy n d q) (hk : NetGrows n n') :
    AnsweredBy n' d q := by
  refine ⟨hk.sent d q h.1, ?_⟩
  rw [hk.ip_addr]
  exact h.2

theorem GenuineRreq.keep (h : GenuineRreq n p) (hk : NetGrows n n') : GenuineRreq n' p := by
  obtain ⟨o, q, hq, hsame⟩ := h
  exact ⟨o, q, hq.keep hk, hsame⟩

theorem GenuineRrep.keep (h : GenuineRrep n p) (hk : NetGrows n n') : GenuineRrep n' p := by
  obtain ⟨d, q, o, r, hq, hsame, hr, hdest, horig⟩ := h
  refine ⟨d, q, o, r, hq.keep hk, hsame, hr.keep hk, ?_, horig⟩
  rw [hk.ip_addr]
  exact hdest

theorem Heard.keep {k : ι} {b : InAddr} {j : RouteInfo} (h : Heard n k b j) (hk : NetGrows n n') :
    Heard n' k b j := by
  obtain ⟨m, p, hp, hnext, hto, habout⟩ := h
  refine ⟨m, p, hk.sent m p hp, ?_, ?_, habout⟩
  · rw [hk.ip_addr]
    exact hnext
  · rw [hk.ip_addr, hk.broadcast_addr]
    exact hto

/-- **A RREQ that a turn sends** is a new one, or a copy of one in flight. -/
theorem Genuine.newRreq (h : Genuine n) (hdel : Deliverable n a)
    (hnew : NewMessage (n a.node) a.input p) (htype : aodvPktGetType p = AODV_RREQ) :
    OwnRreq (n a.node).ip_addr p ∨ GenuineRreq n p := by
  rcases hnew.of_rreq htype with ⟨-, hown⟩ | ⟨pkt, hpkt, -, hp⟩
  · exact .inl hown
  · right
    obtain ⟨hrec, hptype⟩ := receivedRreq_eq_some.1 hpkt
    obtain ⟨m, -, q, hq, hpay, -⟩ := messageFrom_of_received hdel hrec
    obtain ⟨o, q', hq', hsame⟩ := h.rreq m q hq ((type_eq_of_payload hpay).symm.trans hptype)
    have hcopy : p.request = pkt.request := request_prepare (by rw [hp])
    exact ⟨o, q', hq', by rw [hsame, hcopy, request_eq_of_payload hpay]⟩

/-- **A RREP that a turn sends** is the answer to a RREQ in flight, or a copy of a RREP in flight. -/
theorem Genuine.newRrep (h : Genuine n) (hdel : Deliverable n a)
    (hnew : NewMessage (n a.node) a.input p) (htype : aodvPktGetType p = AODV_RREP) :
    (OwnRrep (n a.node).ip_addr p ∧ ∃ o r, RequestedBy n o r ∧
      r.request.dest_ip_addr = (n a.node).ip_addr ∧
      r.request.orig_ip_addr = p.reply.orig_ip_addr) ∨ GenuineRrep n p := by
  rcases hnew.of_rrep htype with ⟨pkt, seq_num, hpkt, hdest, hp⟩ | ⟨pkt, hpkt, hp⟩
  · left
    obtain ⟨hrec, hptype⟩ := receivedRreq_eq_some.1 hpkt
    obtain ⟨m, -, q, hq, hpay, -⟩ := messageFrom_of_received hdel hrec
    obtain ⟨o, r, hr, hsame⟩ := h.rreq m q hq ((type_eq_of_payload hpay).symm.trans hptype)
    rw [← request_eq_of_payload hpay] at hsame
    refine ⟨⟨seq_num, _, hp⟩, o, r, hr, ?_, ?_⟩
    · rw [hsame]
      exact hdest
    · rw [hsame, AodvPkt.reply, hp, rrepOfPayload_build]
      rfl
  · right
    obtain ⟨hrec, hptype⟩ := receivedRrep_eq_some.1 hpkt
    obtain ⟨m, -, q, hq, hpay, -⟩ := messageFrom_of_received hdel hrec
    have hold := h.rrep m q hq ((type_eq_of_payload hpay).symm.trans hptype)
    have hreply : q.reply = p.reply := by
      rw [reply_prepare hp, reply_eq_of_payload hpay]
    obtain ⟨d, q', o, r, hq', hsame, hr, hdest, horig⟩ := hold
    exact ⟨d, q', o, r, hq', hsame.trans hreply, hr, hdest, horig.trans (by rw [hreply])⟩

theorem Genuine.init (addr : ι → InAddr) (bcast : InAddr) (iface : ι → U32) :
    Genuine (netInit addr bcast iface) := by
  refine ⟨fun k p hp => ?_, fun k p hp => ?_, fun k b j hj => ?_⟩
  · cases hp
  · cases hp
  · cases hj

section Net

variable [DecidableEq ι]

theorem netGrows_netStep (hwf : NetWf addr bcast n) (a : Action ι Input) : NetGrows n (netStep n a) := by
  have hwf' := hwf.step a
  refine ⟨fun m p hp => ?_, fun m => ?_, fun m => ?_⟩
  · by_cases hm : m = a.node
    · subst hm
      rw [netStep, Network.act_same]
      exact mem_sent_step (hwf.wf a.node) a.input hp
    · rw [netStep, Network.act_other n hm]
      exact hp
  · rw [hwf'.ip_addr, hwf.ip_addr]
  · rw [hwf'.broadcast_addr, hwf.broadcast_addr]

/-- **One step keeps everything genuine.** -/
theorem Genuine.step (hwf : NetWf addr bcast n) (h : Genuine n) (hdel : Deliverable n a) :
    Genuine (netStep n a) := by
  have hgrows := netGrows_netStep hwf a
  have hnode : netStep n a a.node = Meshias.step (n a.node) a.input := Network.act_same n a
  -- a message is an old one or one that the turn has sent
  have hsent : ∀ k, ∀ p ∈ (netStep n a k).os.sent, p ∈ (n k).os.sent ∨
      k = a.node ∧ NewMessage (n a.node) a.input p := by
    intro k p hp
    by_cases hk : k = a.node
    · subst hk
      rw [hnode] at hp
      exact ((newMessage_step (hwf.wf a.node) a.input).mem hp).imp_right fun hnew => ⟨rfl, hnew⟩
    · rw [netStep, Network.act_other n hk] at hp
      exact .inl hp
  refine ⟨fun k p hp htype => ?_, fun k p hp htype => ?_, fun k b j hj => ?_⟩
  · rcases hsent k p hp with hold | ⟨rfl, hnew⟩
    · exact (h.rreq k p hold htype).keep hgrows
    · rcases h.newRreq hdel hnew htype with hown | hcopy
      · refine ⟨a.node, p, ⟨hp, ?_⟩, rfl⟩
        rw [hgrows.ip_addr]
        exact hown
      · exact hcopy.keep hgrows
  · rcases hsent k p hp with hold | ⟨rfl, hnew⟩
    · exact (h.rrep k p hold htype).keep hgrows
    · rcases h.newRrep hdel hnew htype with ⟨hown, o, r, hr, hdest, horig⟩ | hcopy
      · refine ⟨a.node, p, o, r, ⟨hp, ?_⟩, rfl, hr.keep hgrows, ?_, horig⟩
        · rw [hgrows.ip_addr]
          exact hown
        · rw [hgrows.ip_addr]
          exact hdest
      · exact hcopy.keep hgrows
  · by_cases hk : k = a.node
    · subst hk
      rw [hnode] at hj
      rcases entry_origin (hwf.wf a.node) hj with hold | ⟨pkt, hpkt, hnext, habout⟩
      · exact (h.entry a.node b j hold).keep hgrows
      · obtain ⟨m, hfrom, p, hp, hpay, hto⟩ := messageFrom_of_received hdel hpkt
        have hheard : Heard n a.node b j := by
          refine ⟨m, p, hp, hnext.trans hfrom, hto, ?_⟩
          rcases habout with hb | hb
          · exact .inl (hb.trans hnext.symm)
          · exact .inr (hb.of_payload hpay)
        exact hheard.keep hgrows
    · rw [netStep, Network.act_other n hk] at hj
      exact (h.entry k b j hj).keep hgrows

/-- **Nothing is invented.**  However messages are delayed, reordered, duplicated and lost, in every
    state of the network
    * every RREQ in flight is, but for the hop count, one that its originator has sent;
    * every RREP in flight is, but for the hop count, one that the node it makes a route to has
      itself written, and the node it is for has itself requested that route;
    * every routing table entry goes back to a message that its next hop has sent to this node or to
      all, and is for the next hop itself or for the one that message is about. -/
theorem nothing_invented (addr : ι → InAddr) (bcast : InAddr) (iface : ι → U32)
    (as : List (Action ι Input)) (has : StepsMeet netStep Deliverable (netInit addr bcast iface) as) :
    Genuine (run netStep (netInit addr bcast iface) as) :=
  (Machine.run_invariant (I := fun n => NetWf addr bcast n ∧ Genuine n)
    (fun _ a h hdel => ⟨h.1.step a, h.2.step h.1 hdel⟩)
    ⟨NetWf.init addr bcast iface, Genuine.init addr bcast iface⟩ has).2

end Net

/-- Node 0 has found node 2 over node 1. -/
theorem nothing_invented_chain : Genuine (run netStep (smallNet 3) chainDiscovery) :=
  nothing_invented nodeAddr 0x0A0000FF (fun _ => 0) chainDiscovery (by decide +kernel)

end Meshias
