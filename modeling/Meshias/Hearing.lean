import Meshias.HopCounts
import Meshias.Verdicts

/-!
# What a node does with a message it hears

The exact effect of one turn on a RREQ or RREP of a neighbour, when the kernel takes every route:
what happens to the entries, the buffer and the queue of packets, and what the node sends.

* `heard` — the input by which a node hears a message.
* `HearsAgain`, `HearsNew`, `HearsReply` — the turn of a RREQ that is in the buffer, of one that is
  not, and of a RREP for another node.
* `NoOwn` — the buffer holds requests of other nodes only.

* `Unmoved`, `OwnRing` — the alarms of a node without a discovery of its own, and of one with one.

Principal results: `hearsAgain`, `hearsNew`, `hearsReply`, `ownRing`.
-/

set_option autoImplicit false

namespace Meshias

variable {s : MshData} {now : Nat} {a : InAddr} {p : AodvPkt}

/-! ## Hearing a message -/

/-- The input by which a node hears the message `p` from the node `a`; the kernel takes every route. -/
def heard (now : Nat) (a : InAddr) (p : AodvPkt) : Input :=
  ⟨now, [], [], datagramFrom a p.ttl p.payload⟩

/-- The message as it is received: with the address of its sender. -/
def AodvPkt.heardFrom (p : AodvPkt) (a : InAddr) : AodvPkt := { p with address := a }

/-- The type and the size that a message must have to be handled. -/
structure IsRreq (p : AodvPkt) : Prop where
  type : aodvPktGetType p = AODV_RREQ
  long : 24 ≤ p.payload.length

structure IsRrep (p : AodvPkt) : Prop where
  type : aodvPktGetType p = AODV_RREP
  long : 20 ≤ p.payload.length

theorem received_heard (hvalid : (p.heardFrom a).valid = true) (ha : a ≠ s.ip_addr) :
    s.received (heard now a p) = some (p.heardFrom a) := by
  have hpkt : (⟨some a, p.payload, [⟨SOL_IP, IP_TTL, p.ttl⟩]⟩ : Msghdr).pkt = p.heardFrom a := by
    simp [Msghdr.pkt, aodvPktGet, aodvPktReceiveTtl, AodvPkt.heardFrom]
  rw [MshData.received, heard, datagramFrom]
  dsimp only
  rw [hpkt]
  exact if_pos ⟨hvalid, ha⟩

variable (now) in
theorem IsRreq.received (h : IsRreq p) (ha : a ≠ s.ip_addr) :
    receivedRreq s (heard now a p) = some (p.heardFrom a) := by
  have htype : aodvPktGetType (p.heardFrom a) = AODV_RREQ := h.type
  have hvalid : (p.heardFrom a).valid = true := by
    have hlong : 24 ≤ (p.heardFrom a).payload.length := h.long
    rw [AodvPkt.valid, aodvPktCheck, if_pos htype, if_pos hlong]
  rw [receivedRreq, received_heard hvalid ha, Option.filter_some, if_pos (decide_eq_true htype)]

variable (now) in
theorem IsRrep.received (h : IsRrep p) (ha : a ≠ s.ip_addr) :
    receivedRrep s (heard now a p) = some (p.heardFrom a) := by
  have htype : aodvPktGetType (p.heardFrom a) = AODV_RREP := h.type
  have hvalid : (p.heardFrom a).valid = true := by
    have hlong : 20 ≤ (p.heardFrom a).payload.length := h.long
    rw [AodvPkt.valid, aodvPktCheck, if_neg (by rw [htype]; decide), if_pos htype, if_pos hlong]
  rw [receivedRrep, received_heard hvalid ha, Option.filter_some, if_pos (decide_eq_true htype)]

/-- The state in which the handler runs. -/
def hearing (s : MshData) (now : Nat) (stats : Statistics) : MshData :=
  { s with os := { s.os with now, refusals := [], freed := [] }, stats }

variable (now) in
theorem Wf.hearing (h : Wf s) (stats : Statistics) : Wf (hearing s now stats) :=
  h.congr rfl rfl rfl rfl

variable (now) in
theorem IsRreq.step (h : IsRreq p) (ha : a ≠ s.ip_addr) :
    ∃ stats, step s (heard now a p) = aodvProcessRreq (hearing s now stats) (p.heardFrom a) :=
  step_of_receivedRreq (h.received now ha)

variable (now) in
theorem IsRrep.step (h : IsRrep p) (ha : a ≠ s.ip_addr) :
    ∃ stats, step s (heard now a p) = aodvProcessRrep (hearing s now stats) (p.heardFrom a) :=
  step_of_receivedRrep (h.received now ha)

variable (now) in
/-- A message hands over no packet. -/
theorem ids_heard (h : Wf s) : (step s (heard now a p)).ids.Perm s.ids := by
  have hids := ids_step h (heard now a p)
  have hnone : newId (s.arrive (heard now a p)) (heard now a p) = [] := by
    unfold newId packetId
    split <;> rfl
  rw [hnone] at hids
  exact hids

/-! ## A RREQ that is in the buffer -/

/-- The requests as their fields say. -/
def AodvPkt.rreq (p : AodvPkt) : AodvRreq := rreqOfPayload p.payload

def AodvPkt.rrep (p : AodvPkt) : AodvRrep := rrepOfPayload p.payload

/-- Only the entry of the neighbour may be new. -/
structure HearsAgain (s : MshData) (a : InAddr) (t : MshData) : Prop where
  releases : Releases s t
  rreq_id : t.rreq_id = s.rreq_id
  rreq_queue : t.rreq_queue = s.rreq_queue
  sent : t.os.sent = s.os.sent
  info : ∀ b, b ≠ a ∨ s.info b ≠ none → t.info b = s.info b

/-- The first block of both handlers. -/
theorem arrived_info (h : Wf s) (stats : Statistics) (b : InAddr) :
    (rreqArrived (hearing s now stats) (p.heardFrom a)).info b =
      if s.info a = none ∧ b = a then some (.prevHop s.net_iface a) else s.info b := by
  rw [info_rreqArrived _ (h.hearing _ stats)]
  refine if_congr ?_ rfl rfl
  exact and_congr_right fun _ => and_iff_right rfl

theorem arrived_active (h : Wf s) (stats : Statistics) (b : InAddr) :
    (rreqArrived (hearing s now stats) (p.heardFrom a)).active b = (decide (b = a) || s.active b) := by
  rw [active_rreqArrived _ (h.hearing _ stats)]
  have hrefuses : (hearing s now stats).refuses = false := rfl
  rw [hrefuses]
  simp only [or_true, and_true]
  rfl

theorem arrived_refuses (h : Wf s) (stats : Statistics) :
    (rreqArrived (hearing s now stats) (p.heardFrom a)).refuses = false := by
  rw [refuses_rreqArrived _ (h.hearing _ stats)]
  split <;> rfl

/-- The block of the reverse route. -/
theorem reversed_info (h : Wf s) (stats : Statistics) (b : InAddr) :
    (rreqReversed (hearing s now stats) (p.heardFrom a)).info b =
      if b = p.rreq.orig_ip_addr then
        some (match (rreqArrived (hearing s now stats) (p.heardFrom a)).info p.rreq.orig_ip_addr with
          | some x => x.rreqUpdate a p.rreq.hop_count p.rreq.orig_seq_num
          | none => .orig s.net_iface a p.rreq.hop_count p.rreq.orig_ip_addr p.rreq.orig_seq_num)
      else (rreqArrived (hearing s now stats) (p.heardFrom a)).info b := by
  have hinfo := info_rreqReversed (p.heardFrom a) (h.hearing now stats) b
  rw [arrived_refuses h, if_neg Bool.false_ne_true] at hinfo
  refine hinfo.trans (if_congr Iff.rfl ?_ rfl)
  change (match (rreqArrived (hearing s now stats) (p.heardFrom a)).info p.rreq.orig_ip_addr with
    | some x => some (x.rreqUpdate a p.rreq.hop_count p.rreq.orig_seq_num)
    | none => some (RouteInfo.orig s.net_iface a p.rreq.hop_count p.rreq.orig_ip_addr
        p.rreq.orig_seq_num)) = _
  split <;> rfl

theorem reversed_active (h : Wf s) (stats : Statistics) (b : InAddr) :
    (rreqReversed (hearing s now stats) (p.heardFrom a)).active b =
      (decide (b = p.rreq.orig_ip_addr) &&
        origActivates (rreqArrived (hearing s now stats) (p.heardFrom a)) p.rreq.hop_count
          p.rreq.orig_ip_addr || (decide (b = a) || s.active b)) := by
  rw [← arrived_active (p := p) h stats]
  exact active_rreqReversed (p.heardFrom a) (h.hearing now stats) b

variable (now) in
theorem hearsAgain (h : Wf s) (hp : IsRreq p) (ha : a ≠ s.ip_addr)
    (hknown : rreqFifoContains s.rreq_queue p.rreq.rreq_id p.rreq.dest_ip_addr = true) :
    HearsAgain s a (step s (heard now a p)) := by
  obtain ⟨stats, hstep⟩ := hp.step now ha
  have hwf := h.hearing now stats
  have hdup : rreqDuplicate (hearing s now stats) (p.heardFrom a) = true := hknown
  have harr := onlyTable_rreqArrived (p.heardFrom a) hwf
  obtain ⟨o, heq⟩ := aodvProcessRreq_eq (p.heardFrom a) hwf
  rw [hstep, heq, if_pos hdup]
  refine ⟨⟨harr.keeps_entry, harr.packets, harr.verdicts⟩, harr.rreq_id, harr.rreq_queue, harr.sent,
    fun b hb => ?_⟩
  rw [arrived_info h, if_neg]
  rintro ⟨hnone, rfl⟩
  exact hb.elim (fun hne => hne rfl) (fun hsome => hsome hnone)

/-! ## A RREQ that is new -/

/-- The RREQ is put into the buffer, and its originator has a route over the neighbour. -/
structure HearsNew (s : MshData) (a : InAddr) (p : AodvPkt) (t : MshData) : Prop where
  releases : Releases s t
  rreq_id : t.rreq_id = s.rreq_id
  rreq_queue : ∃ self alarm, t.rreq_queue =
    ⟨self, p.rreq.rreq_id, p.rreq.dest_ip_addr, -1, alarm⟩ :: s.rreq_queue
  info : ∀ b, b ≠ a → b ≠ p.rreq.orig_ip_addr → t.info b = s.info b
  reverse : ∃ x ∈ t.info p.rreq.orig_ip_addr, x.next_hop = a
  active : s.info p.rreq.orig_ip_addr = none → t.active p.rreq.orig_ip_addr = true

section New

variable (now) (h : Wf s) (hp : IsRreq p) (ha : a ≠ s.ip_addr)
  (hnew : rreqFifoContains s.rreq_queue p.rreq.rreq_id p.rreq.dest_ip_addr = false)

include h hp ha hnew

/-- The handler goes on to the reverse route and the reply. -/
theorem processed_new :
    ∃ stats o, step s (heard now a p) = aodvProcessRreq (hearing s now stats) (p.heardFrom a) ∧
      rreqDuplicate (hearing s now stats) (p.heardFrom a) = false ∧
      aodvProcessRreq (hearing s now stats) (p.heardFrom a) =
        rreqReply (rreqReversed (hearing s now stats) (p.heardFrom a)) (p.heardFrom a)
          (rreqNext (p.heardFrom a)) a o := by
  obtain ⟨stats, hstep⟩ := hp.step now ha
  have hdup : rreqDuplicate (hearing s now stats) (p.heardFrom a) = false := hnew
  obtain ⟨o, heq⟩ := aodvProcessRreq_eq (p.heardFrom a) (h.hearing now stats)
  rw [hdup, if_neg Bool.false_ne_true] at heq
  exact ⟨stats, o, hstep, hdup, heq⟩

theorem hearsNew : HearsNew s a p (step s (heard now a p)) := by
  obtain ⟨stats, o, hstep, hdup, heq⟩ := processed_new now h hp ha hnew
  have hwf := h.hearing now stats
  have hrel := releases_aodvProcessRreq (p.heardFrom a) hwf
  have hinfo := info_aodvProcessRreq (p.heardFrom a) hwf
  have hact := active_aodvProcessRreq (p.heardFrom a) hwf
  obtain ⟨self, rank, hqueue⟩ := rreq_queue_aodvProcessRreq (p.heardFrom a) hwf
  rw [hdup, if_neg Bool.false_ne_true] at hinfo hact hqueue
  rw [hstep]
  refine ⟨⟨hrel.keeps_entry, hrel.packets, hrel.verdicts⟩, ?_, ⟨self, _, hqueue⟩, ?_, ?_, ?_⟩
  · rw [heq, (rreqReply_spec _ _ _ o).1.rreq_id, (onlyTable_rreqReversed _ hwf).rreq_id]
    exact (onlyTable_rreqArrived _ hwf).rreq_id
  · intro b hba hborig
    rw [hinfo, reversed_info h, if_neg hborig, arrived_info h, if_neg (fun hc => hba hc.2)]
  · rw [hinfo, reversed_info h, if_pos rfl]
    split <;> exact ⟨_, rfl, rfl⟩
  · intro hnone
    rw [hact, reversed_active h]
    by_cases horig : p.rreq.orig_ip_addr = a
    · simp [horig]
    · have hfirst : (rreqArrived (hearing s now stats) (p.heardFrom a)).info p.rreq.orig_ip_addr =
          none := by
        rw [arrived_info h, if_neg (fun hc => horig hc.2)]
        exact hnone
      have hacts : origActivates (rreqArrived (hearing s now stats) (p.heardFrom a))
          p.rreq.hop_count p.rreq.orig_ip_addr = true := by
        rw [origActivates, hfirst, arrived_refuses h]
        rfl
      rw [Bool.or_eq_true, Bool.and_eq_true]
      exact .inl ⟨decide_eq_true rfl, hacts⟩

/-- What the destination sends. -/
theorem sent_own (hdest : p.rreq.dest_ip_addr = s.ip_addr) :
    ∃ seq_num, (step s (heard now a p)).os.sent = s.os.sent ++
      [⟨aodvPktBuildRrep 0 0 0 s.ip_addr seq_num p.rreq.orig_ip_addr MY_ROUTE_TIMEOUT, a,
        DEFAULT_TTL⟩] := by
  obtain ⟨stats, o, hstep, -, heq⟩ := processed_new now h hp ha hnew
  have hwf := h.hearing now stats
  have hip : (rreqReversed (hearing s now stats) (p.heardFrom a)).ip_addr = s.ip_addr :=
    (onlyTable_rreqReversed _ hwf).ip_addr.trans (onlyTable_rreqArrived _ hwf).ip_addr
  have hsent := (silent_rreqReversed (p.heardFrom a) hwf).sent
  obtain ⟨hsame, -, hreply⟩ := rreqReply_spec (s := rreqReversed (hearing s now stats)
    (p.heardFrom a)) (p.heardFrom a) (rreqNext (p.heardFrom a)) a o
  have hdest' : (rreqNext (p.heardFrom a)).dest_ip_addr =
      (rreqReversed (hearing s now stats) (p.heardFrom a)).ip_addr := hdest.trans hip.symm
  rw [hstep, heq]
  cases hreply with
  | silent hc => exact absurd hdest' hc
  | forwarded hc => exact absurd hdest' hc
  | answered _ _ hans =>
    rw [hsent, ownReply, hsame.ip_addr, hip] at hans
    exact ⟨_, hans⟩

/-- What a node without a route to the destination sends. -/
theorem sent_other (hdest : p.rreq.dest_ip_addr ≠ s.ip_addr) (hda : p.rreq.dest_ip_addr ≠ a)
    (hdo : p.rreq.dest_ip_addr ≠ p.rreq.orig_ip_addr) (hnone : s.info p.rreq.dest_ip_addr = none) :
    (step s (heard now a p)).os.sent = s.os.sent ++
      if 1 < p.ttl then
        [⟨aodvPktPrepareRreq (rreqNext (p.heardFrom a)), s.broadcast_addr, p.ttl - 1⟩] else [] := by
  obtain ⟨stats, o, hstep, -, heq⟩ := processed_new now h hp ha hnew
  have hwf := h.hearing now stats
  have hrev := wf_rreqReversed (p.heardFrom a) hwf
  have hip : (rreqReversed (hearing s now stats) (p.heardFrom a)).ip_addr = s.ip_addr :=
    (onlyTable_rreqReversed _ hwf).ip_addr.trans (onlyTable_rreqArrived _ hwf).ip_addr
  have hbcast : (rreqReversed (hearing s now stats) (p.heardFrom a)).broadcast_addr =
      s.broadcast_addr :=
    (onlyTable_rreqReversed _ hwf).broadcast_addr.trans (onlyTable_rreqArrived _ hwf).broadcast_addr
  have hsent := (silent_rreqReversed (p.heardFrom a) hwf).sent
  have hunknown : (rreqReversed (hearing s now stats) (p.heardFrom a)).info p.rreq.dest_ip_addr =
      none := by
    rw [reversed_info h, if_neg hdo, arrived_info h, if_neg (fun hc => hda hc.2)]
    exact hnone
  have hanswers : answersForOther (rreqReversed (hearing s now stats) (p.heardFrom a))
      (rreqNext (p.heardFrom a)) = false := by
    have hd : (rreqNext (p.heardFrom a)).dest_ip_addr = p.rreq.dest_ip_addr := rfl
    rw [answersForOther, hd, hunknown]
    rfl
  have hdest' : (rreqNext (p.heardFrom a)).dest_ip_addr ≠
      (rreqReversed (hearing s now stats) (p.heardFrom a)).ip_addr := by
    rw [hip]
    exact hdest
  have hiff := rreqReply_sent_iff (p.heardFrom a) (rreqNext (p.heardFrom a)) a o hrev
  rw [hanswers] at hiff
  obtain ⟨-, -, hreply⟩ := rreqReply_spec (s := rreqReversed (hearing s now stats)
    (p.heardFrom a)) (p.heardFrom a) (rreqNext (p.heardFrom a)) a o
  rw [hstep, heq]
  split
  · rename_i httl
    cases hreply with
    | silent _ hsil =>
      rcases (hiff.1 hsil.sent).2 with hle | hc
      · exact absurd httl (BitVec.not_lt.2 hle)
      · exact absurd hc Bool.false_ne_true
    | answered hc => exact absurd hc hdest'
    | forwarded _ _ _ hfwd =>
      rw [hsent, hbcast] at hfwd
      exact hfwd
  · rename_i httl
    rw [List.append_nil]
    exact (hiff.2 ⟨hdest', .inl (BitVec.not_lt.1 httl)⟩).trans hsent

end New

/-! ## A RREP -/

/-- The destination of the RREP has a route over the neighbour. -/
structure HearsReply (s : MshData) (a : InAddr) (p : AodvPkt) (t : MshData) : Prop where
  releases : Releases s t
  rreq_id : t.rreq_id = s.rreq_id
  info : ∀ b, b ≠ a → b ≠ p.rrep.dest_ip_addr → t.info b = s.info b
  forward : ∃ x ∈ t.info p.rrep.dest_ip_addr, x.next_hop = a
  active : t.active p.rrep.dest_ip_addr = true

section Reply

variable (now) (h : Wf s) (hp : IsRrep p) (ha : a ≠ s.ip_addr)
  (hnone : s.info p.rrep.dest_ip_addr = none)

include h

/-- A node without an entry for the destination accepts the RREP. -/
theorem accepts (hnone : s.info p.rrep.dest_ip_addr = none) (stats : Statistics) :
    rrepAccepted (rreqArrived (hearing s now stats) (p.heardFrom a))
      (rrepNext (p.heardFrom a)) = true := by
  have hunknown : (hearing s now stats).info (rrepNext (p.heardFrom a)).dest_ip_addr = none := hnone
  rw [rrepAccepted_eq (h.hearing _ stats), rrepAcceptable, hunknown]

theorem updated_info (stats : Statistics) (b : InAddr) :
    (rrepUpdated (hearing s now stats) (p.heardFrom a)).info b =
      if b = p.rrep.dest_ip_addr then
        some (match (rreqArrived (hearing s now stats) (p.heardFrom a)).info p.rrep.dest_ip_addr with
          | some x => x.rrepUpdate a (rrepNext (p.heardFrom a))
          | none => .dest s.net_iface a (rrepNext (p.heardFrom a)))
      else (rreqArrived (hearing s now stats) (p.heardFrom a)).info b := by
  have hinfo := info_rrepUpdated (p.heardFrom a) (h.hearing now stats) b
  rw [arrived_refuses h, if_neg Bool.false_ne_true] at hinfo
  refine hinfo.trans (if_congr Iff.rfl ?_ rfl)
  change (match (rreqArrived (hearing s now stats) (p.heardFrom a)).info p.rrep.dest_ip_addr with
    | some x => some (x.rrepUpdate a (rrepNext (p.heardFrom a)))
    | none => some (RouteInfo.dest s.net_iface a (rrepNext (p.heardFrom a)))) = _
  split <;> rfl

include hp ha hnone

theorem hearsReply : HearsReply s a p (step s (heard now a p)) := by
  obtain ⟨stats, hstep⟩ := hp.step now ha
  have hwf := h.hearing now stats
  have hacc := accepts now (a := a) h hnone stats
  have hrel := releases_aodvProcessRrep (p.heardFrom a) hwf
  have hinfo := info_aodvProcessRrep (p.heardFrom a) hwf
  have hact := active_aodvProcessRrep (p.heardFrom a) hwf p.rrep.dest_ip_addr
  rw [if_pos hacc] at hinfo hact
  rw [hstep]
  refine ⟨⟨hrel.keeps_entry, hrel.packets, hrel.verdicts⟩, ?_, ?_, ?_, ?_⟩
  · exact rreq_id_aodvProcessRrep (p.heardFrom a) hwf
  · intro b hba hbd
    rw [hinfo, updated_info _ h, if_neg hbd, arrived_info h, if_neg (fun hc => hba hc.2)]
  · rw [hinfo, updated_info _ h, if_pos rfl]
    split <;> exact ⟨_, rfl, rfl⟩
  · have hupd : (rrepUpdated (hearing s now stats) (p.heardFrom a)).active p.rrep.dest_ip_addr =
        true := by
      rw [active_rrepUpdated _ hwf, arrived_refuses h]
      have hd : p.rrep.dest_ip_addr = (rrepNext (p.heardFrom a)).dest_ip_addr := rfl
      simp [hd]
    rw [hact, hupd, Bool.or_true]

/-- What a node between the ends sends, and its buffer. -/
theorem reply_passed (horig : s.ip_addr ≠ p.rrep.orig_ip_addr)
    (hdo : p.rrep.orig_ip_addr ≠ p.rrep.dest_ip_addr) {x : RouteInfo}
    (hx : s.info p.rrep.orig_ip_addr = some x) :
    (step s (heard now a p)).rreq_queue = s.rreq_queue ∧
      (step s (heard now a p)).os.sent = s.os.sent ++
        [⟨aodvPktPrepareRrep (rrepNext (p.heardFrom a)), x.next_hop, s.os.setIpTtl (p.ttl - 1)⟩] := by
  obtain ⟨stats, hstep⟩ := hp.step now ha
  have hwf := h.hearing now stats
  have hacc := accepts now (a := a) h hnone stats
  have hupd := onlyTable_rrepUpdated (p.heardFrom a) hwf
  have hinfo : (rrepUpdated (hearing s now stats) (p.heardFrom a)).info p.rrep.orig_ip_addr =
      some x := by
    rw [updated_info _ h, if_neg hdo, arrived_info h, if_neg]
    · exact hx
    · rintro ⟨hnone, horig⟩
      rw [horig, hnone] at hx
      cases hx
  cases rrepProcessed (p.heardFrom a) hwf with
  | refused hrej _ => exact absurd (hrej.symm.trans hacc) Bool.false_ne_true
  | ended _ hown _ => exact absurd hown horig
  | forwarded _ _ ph d heq =>
    obtain ⟨hsame, -, hfwd, -⟩ :=
      aodvForwardRrep_spec (p.heardFrom a) (rrepNext (p.heardFrom a)) ph d (wf_rrepUpdated _ hwf)
    rw [hstep, heq]
    refine ⟨hsame.rreq_queue.trans hupd.rreq_queue, ?_⟩
    cases hfwd with
    | silent hc =>
      rw [show (rrepNext (p.heardFrom a)).orig_ip_addr = p.rrep.orig_ip_addr from rfl,
        hinfo] at hc
      cases hc
    | forwarded hi hsent =>
      obtain rfl := Option.some.inj (hi.symm.trans hinfo)
      rw [hsent, setIpTtl_congr hupd.sent, hupd.sent]
      rfl

/-- What the originator sends, and its buffer. -/
theorem reply_ended (horig : s.ip_addr = p.rrep.orig_ip_addr) :
    (step s (heard now a p)).rreq_queue =
        rreqDeleted s.rreq_queue s.rreq_id p.rrep.dest_ip_addr ∧
      (step s (heard now a p)).os.sent = s.os.sent := by
  obtain ⟨stats, hstep⟩ := hp.step now ha
  have hwf := h.hearing now stats
  have hacc := accepts now (a := a) h hnone stats
  rw [hstep]
  cases rrepProcessed (p.heardFrom a) hwf with
  | refused hrej _ => exact absurd (hrej.symm.trans hacc) Bool.false_ne_true
  | ended _ _ ht =>
    rw [ht]
    exact ⟨rfl, (onlyTable_rrepUpdated _ hwf).sent⟩
  | forwarded _ hother _ _ _ => exact absurd horig hother

end Reply

/-! ## Alarms -/

/-- Nothing is asked, sent, released or learned; entries may go. -/
structure Unmoved (s t : MshData) : Prop where
  node : SameNode s t
  rreq_id : t.rreq_id = s.rreq_id
  packets_queue : t.packets_queue = s.packets_queue
  verdicts : t.os.verdicts = s.os.verdicts
  sent : t.os.sent = s.os.sent
  info : ∀ b, t.info b = s.info b ∨ t.info b = none

theorem Unmoved.refl (s : MshData) : Unmoved s s := ⟨.refl s, rfl, rfl, rfl, rfl, fun _ => .inl rfl⟩

theorem Unmoved.trans {t u : MshData} (h : Unmoved s t) (h' : Unmoved t u) : Unmoved s u where
  node := h.node.trans h'.node
  rreq_id := h'.rreq_id.trans h.rreq_id
  packets_queue := h'.packets_queue.trans h.packets_queue
  verdicts := h'.verdicts.trans h.verdicts
  sent := h'.sent.trans h.sent
  info b := by
    rcases h'.info b with heq | hnone
    · rw [heq]; exact h.info b
    · exact .inr hnone

/-- All requests in the buffer are those of other nodes. -/
def NoOwn (s : MshData) : Prop := ∀ e ∈ s.rreq_queue, e.prev_tries < 0

/-- An alarm that neither gives up a request nor tries one again. -/
theorem AlarmRun.unmoved {t : MshData} (h : Wf s) (hrun : AlarmRun s t)
    (hgave : ∀ e ∈ s.rreq_queue, 0 ≤ e.prev_tries → t ≠ rreqFifoGiveUp s e)
    (hretried : ∀ e ∈ s.rreq_queue, 0 ≤ e.prev_tries → ¬ Retried s e t) :
    Unmoved s t ∧ ∀ e ∈ t.rreq_queue, e ∈ s.rreq_queue := by
  have hnode := hrun.sameNode
  have hinfo := hrun.info h
  cases hrun with
  | idle hsame hsil =>
    exact ⟨⟨hnode, hsame.rreq_id, hsame.packets_queue, hsame.verdicts, hsil.sent, hinfo⟩,
      fun e he => hsame.rreq_queue ▸ he⟩
  | expired a hexp =>
    exact ⟨⟨hnode, hexp.same.rreq_id, hexp.same.packets_queue, hexp.same.verdicts, hexp.silent.sent,
      hinfo⟩, fun e he => hexp.same.rreq_queue ▸ he⟩
  | destroyed r q _ _ hdel =>
    exact ⟨⟨hnode, hdel.rreq_id, hdel.packets_queue, hdel.verdicts, hdel.silent.sent, hinfo⟩,
      fun e he => hdel.rreq_queue ▸ he⟩
  | forgotten e _ _ ht =>
    subst ht
    exact ⟨⟨hnode, rfl, rfl, rfl, rfl, hinfo⟩, fun x hx => (List.mem_filter.1 hx).1⟩
  | gaveUp e he hown ht => exact absurd ht (hgave e he hown)
  | retried e he hown hret => exact absurd hret (hretried e he hown)

/-- The alarm of a route. -/
theorem unmoved_route (h : Wf s) (p : Nat) : Unmoved s (runAlarm s (.route p)) := by
  obtain ⟨hqueue, hsent⟩ := runAlarm_route_queues s p
  refine ((runAlarm_cases h (.route p)).unmoved h ?_ ?_).1
  · intro e he _ ht
    rw [ht] at hqueue
    have hmem : e ∈ (rreqFifoGiveUp s e).rreq_queue := by rw [hqueue]; exact he
    exact absurd (List.mem_filter.1 hmem).2 (by simp)
  · intro e _ _ hret
    have hgrown := hret.sent
    rw [hsent] at hgrown
    simp at hgrown

/-- **The alarms of a node that has no discovery of its own.** -/
theorem unmoved_doAlarmRun (h : Wf s) (hno : NoOwn s) :
    Unmoved s (doAlarmRun s) ∧ ∀ e ∈ (doAlarmRun s).rreq_queue, e ∈ s.rreq_queue := by
  refine (doAlarmRun_invariant (s := s) (I := fun t => Wf t ∧ Unmoved s t ∧
    ∀ e ∈ t.rreq_queue, e ∈ s.rreq_queue) ?_ ⟨h, .refl s, fun _ he => he⟩).2
  rintro t owner ⟨hwf, hmoved, hsub⟩
  have hext : ∀ e ∈ t.rreq_queue, ¬ 0 ≤ e.prev_tries := fun e he => not_le.2 (hno e (hsub e he))
  have hrun := runAlarm_cases hwf owner
  obtain ⟨hmoved', hsub'⟩ := hrun.unmoved hwf (fun e he hown => absurd hown (hext e he))
    (fun e he hown => absurd hown (hext e he))
  exact ⟨hrun.wf hwf, hmoved.trans hmoved', fun e he => hsub e (hsub' e he)⟩

theorem unmoved_rings (h : Wf s) (hno : NoOwn s) (now : Nat) (freed : List (Nat × InAddr)) :
    Unmoved s (step s ⟨now, [], freed, .alarms⟩) ∧
      ∀ e ∈ (step s ⟨now, [], freed, .alarms⟩).rreq_queue, e ∈ s.rreq_queue := by
  have hrun := unmoved_doAlarmRun (h.arrive ⟨now, [], freed, .alarms⟩) hno
  exact ⟨⟨⟨hrun.1.node.ip_addr, hrun.1.node.broadcast_addr, hrun.1.node.net_iface⟩, hrun.1.rreq_id,
    hrun.1.packets_queue, hrun.1.verdicts, hrun.1.sent, hrun.1.info⟩, hrun.2⟩

/-! ### A node with one discovery of its own -/

/-- What a run of the alarms does to a node whose buffer holds nothing but its own request `e`. -/
inductive OwnRing (s : MshData) (e : RreqFifo) (t : MshData) : Prop where
  | idle (hmoved : Unmoved s t) (hqueue : t.rreq_queue = [e])
      (hdue : e.alarm.pending = true → s.os.now < e.alarm.tv)
  | retried (u : MshData) (rank : Nat) (htries : e.prev_tries + 1 ≤ RREQ_RETRIES.toNat)
      (hbefore : Unmoved s u) (hnode : SameNode s t) (hid : t.rreq_id = s.rreq_id + 1)
      (hqueue : t.rreq_queue = [retriedEntry u e rank]) (hpackets : t.packets_queue = s.packets_queue)
      (hverdicts : t.os.verdicts = s.os.verdicts)
      (hsent : t.os.sent = s.os.sent ++ [ownRequest u e.dst (e.prev_tries + 1)])
      (hinfo : ∀ b, t.info b = s.info b ∨ t.info b = none)
  | gaveUp (hlast : RREQ_RETRIES.toNat < e.prev_tries + 1) (hqueue : t.rreq_queue = [])
      (hpackets : t.packets_queue =
        s.packets_queue.filter (fun x => x.dest ≠ s.os.freedDst e.self))
      (hverdicts : t.os.verdicts = s.os.verdicts ++
        (s.packets_queue.filter (fun x => x.dest = s.os.freedDst e.self)).map
          (fun x => (x.id, .NF_DROP)))
      (hsent : t.os.sent = s.os.sent)

/-- Alarms other than that of the request. -/
theorem unmoved_runAlarms (l : List PendingAlarm) {e : RreqFifo} {t : MshData} (h : Wf t)
    (hqueue : ∃ x, t.rreq_queue = [x] ∧ x.self = e.self ∨ t.rreq_queue = [])
    (hl : ∀ a ∈ l, a.owner ≠ .rreq e.self) :
    let u := l.foldl (fun s a => runAlarm s a.owner) t
    Wf u ∧ Unmoved t u ∧ u.rreq_queue = t.rreq_queue := by
  induction l generalizing t with
  | nil => exact ⟨h, .refl t, rfl⟩
  | cons a l ih =>
    obtain ⟨hne, hl⟩ := List.forall_mem_cons.1 hl
    have hfirst : Unmoved t (runAlarm t a.owner) ∧ (runAlarm t a.owner).rreq_queue = t.rreq_queue := by
      cases howner : a.owner with
      | route p => exact ⟨unmoved_route h p, (runAlarm_route_queues t p).1⟩
      | rreq p =>
        have habsent : ∀ y ∈ t.rreq_queue, y.self ≠ p := by
          intro y hy hself
          obtain ⟨x, ⟨hq, hx⟩ | hq⟩ := hqueue
          · rw [hq, List.mem_singleton] at hy
            rw [howner, ← hself, hy, hx] at hne
            exact hne rfl
          · rw [hq] at hy
            cases hy
        cases rreqAlarm h p with
        | absent _ ht => rw [ht]; exact ⟨.refl t, rfl⟩
        | forgotten y hy hself => exact absurd hself (habsent y hy)
        | gaveUp y hy hself => exact absurd hself (habsent y hy)
        | retried y hy hself => exact absurd hself (habsent y hy)
    have hwf := (runAlarm_cases h a.owner).wf h
    obtain ⟨hwf', hmoved, hq⟩ := ih hwf (by rw [hfirst.2]; exact hqueue) hl
    exact ⟨hwf', hfirst.1.trans hmoved, hq.trans hfirst.2⟩

theorem ownRing (h : Wf s) {e : RreqFifo} (hqueue : s.rreq_queue = [e]) (hown : 0 ≤ e.prev_tries) :
    OwnRing s e (doAlarmRun s) := by
  by_cases hin : ∃ a ∈ alarmRunQueue s, a.owner = .rreq e.self
  · -- the other alarms come before and after that of the request
    obtain ⟨a, ha, howner⟩ := hin
    obtain ⟨l₁, l₂, hl⟩ := List.append_of_mem ha
    have hnodup := owners_alarmRunQueue_nodup h
    rw [hl, List.map_append, List.map_cons, List.nodup_middle, List.nodup_cons, howner,
      ← List.map_append] at hnodup
    have hothers : ∀ x ∈ l₁ ++ l₂, x.owner ≠ .rreq e.self := fun x hx hc =>
      hnodup.1 (List.mem_map.2 ⟨x, hx, hc⟩)
    obtain ⟨hwf, hbefore, hq⟩ := unmoved_runAlarms l₁ h ⟨e, .inl ⟨hqueue, rfl⟩⟩
      fun x hx => hothers x (List.mem_append_left _ hx)
    rw [hqueue] at hq
    have hrun : doAlarmRun s = l₂.foldl (fun s a => runAlarm s a.owner)
        (runAlarm (l₁.foldl (fun s a => runAlarm s a.owner) s) (.rreq e.self)) := by
      rw [doAlarmRun, hl, List.foldl_append, List.foldl_cons, howner]
    have hafter := fun {t : MshData} (ht : Wf t) hx => unmoved_runAlarms l₂ (e := e) ht hx
      fun x hx => hothers x (List.mem_append_right _ hx)
    have hfreed := freed_runAlarms l₁ s
    rw [hrun]
    generalize l₁.foldl (fun s a => runAlarm s a.owner) s = u at hwf hbefore hq hfreed ⊢
    have hcases := rreqAlarm hwf e.self
    have hwf' := (runAlarm_cases hwf (.rreq e.self)).wf hwf
    have hinfo' := (runAlarm_cases hwf (.rreq e.self)).info hwf
    generalize runAlarm u (.rreq e.self) = t at hcases hwf' hinfo' ⊢
    have honly : ∀ x ∈ u.rreq_queue, x = e := by simp [hq]
    cases hcases with
    | absent habsent => exact absurd rfl (habsent e (by simp [hq]))
    | forgotten x hx _ hext =>
      rw [honly x hx] at hext
      omega
    | gaveUp x hx _ _ hlast ht =>
      obtain rfl := honly x hx
      have hempty : t.rreq_queue = [] := by rw [ht]; simp [rreqFifoGiveUp, packetsFifoDropPackets, hq]
      obtain ⟨-, hmoved, hq'⟩ := hafter hwf' ⟨x, .inr hempty⟩
      obtain ⟨hpackets, hverdicts⟩ := packets_rreqFifoGiveUp u x
      rw [freedDst_congr hfreed, hbefore.packets_queue] at hpackets
      rw [freedDst_congr hfreed, hbefore.packets_queue, hbefore.verdicts] at hverdicts
      refine .gaveUp hlast (hq'.trans hempty) ?_ ?_ ?_
      · rw [hmoved.packets_queue, ht, hpackets]
      · rw [hmoved.verdicts, ht, hverdicts]
      · rw [hmoved.sent, ht, ← hbefore.sent]
        rfl
    | retried x hx _ htries hret =>
      obtain rfl := honly x hx
      obtain ⟨rank, hrq⟩ := hret.rreq_queue
      rw [hq, List.map_singleton, if_pos rfl] at hrq
      obtain ⟨-, hmoved, hq'⟩ := hafter hwf' ⟨retriedEntry u x rank, .inl ⟨hrq, rfl⟩⟩
      have hnode : SameNode u t := ⟨hret.ip_addr, hret.broadcast_addr, hret.net_iface⟩
      refine .retried u rank htries.2 hbefore ((hbefore.node.trans hnode).trans hmoved.node) ?_
        (hq'.trans hrq) ?_ ?_ ?_ ?_
      · rw [hmoved.rreq_id, hret.rreq_id, hbefore.rreq_id]
      · rw [hmoved.packets_queue, hret.packets_queue, hbefore.packets_queue]
      · rw [hmoved.verdicts, hret.verdicts, hbefore.verdicts]
      · rw [hmoved.sent, hret.sent, hbefore.sent]
      · intro b
        rcases hmoved.info b with heq | hnone
        · rw [heq, hret.info]
          exact hbefore.info b
        · exact .inr hnone
  · obtain ⟨-, hmoved, hq⟩ := unmoved_runAlarms (alarmRunQueue s) h ⟨e, .inl ⟨hqueue, rfl⟩⟩
      fun x hx hc => hin ⟨x, hx, hc⟩
    refine .idle hmoved (hq.trans hqueue) fun hpend => ?_
    have hmem : e ∈ s.rreq_queue := by rw [hqueue]; exact List.mem_singleton_self e
    obtain ⟨a, ha, howner, htv⟩ := mem_alarmTree_rreq hmem hpend
    by_contra hdue
    exact hin ⟨a, mem_alarmRunQueue.2 ⟨ha, by rw [htv]; exact not_lt.1 hdue⟩, howner⟩

/-! ## Turns that ask for nothing -/

/-- A node without discoveries of its own starts none unless it captures a packet. -/
theorem noOwn_step (h : Wf s) (hno : NoOwn s) {i : Input} (hev : ∀ nfa, i.event ≠ .packet nfa) :
    NoOwn (step s i) := by
  have hwf := fun stats => (h.arrive i).withStats stats
  cases turn s i with
  | rreq pkt stats _ hstep =>
    obtain ⟨self, rank, hqueue⟩ := rreq_queue_aodvProcessRreq pkt (hwf stats)
    intro e he
    rw [hstep, hqueue] at he
    split at he
    · exact hno e he
    · rcases List.mem_cons.1 he with rfl | he
      · exact Int.negSucc_lt_zero 0
      · exact hno e he
  | rrep pkt stats _ hstep =>
    intro e he
    rw [hstep, rreq_queue_aodvProcessRrep pkt (hwf stats)] at he
    split at he
    · obtain ⟨q, hq⟩ := rreqDeleted_eq_filter ((s.arrive i).withStats stats).rreq_queue
        ((s.arrive i).withStats stats).rreq_id (rrepNext pkt).dest_ip_addr
      rw [hq] at he
      exact hno e (List.mem_filter.1 he).1
    · exact hno e he
  | packet nfa hc _ => exact absurd hc (hev nfa)
  | alarms _ hstep =>
    intro e he
    rw [hstep] at he
    exact hno e ((unmoved_doAlarmRun (h.arrive i) hno).2 e he)
  | quiet stats _ _ _ _ hstep => rw [hstep]; exact hno

/-- Where no packet waits and nothing is asked for, no verdict is given. -/
theorem verdicts_step (h : Wf s) (hno : NoOwn s) (hpackets : s.packets_queue = []) {i : Input}
    (hev : ∀ nfa, i.event ≠ .packet nfa) :
    (step s i).packets_queue = [] ∧ (step s i).os.verdicts = s.os.verdicts := by
  have hrel : ∀ {t u : MshData}, Releases t u → t.packets_queue = [] → u.ids.Perm t.ids →
      u.packets_queue = [] ∧ u.os.verdicts = t.os.verdicts := by
    intro t u hrel hnone hids
    have hu : u.packets_queue = [] := by rw [hrel.packets, hnone]; rfl
    obtain ⟨l, hl, -⟩ := hrel.verdicts
    have hlen := hids.length_eq
    rw [MshData.ids, MshData.ids, hu, hnone, hl] at hlen
    have hl0 : l = [] := by simpa using hlen
    exact ⟨hu, by rw [hl, hl0, List.append_nil]⟩
  have hwf := fun stats => (h.arrive i).withStats stats
  cases turn s i with
  | rreq pkt stats _ hstep =>
    have hend := hrel (releases_aodvProcessRreq pkt (hwf stats)) hpackets
      (ids_aodvProcessRreq (hwf stats) pkt)
    rw [hstep]
    exact hend
  | rrep pkt stats _ hstep =>
    have hend := hrel (releases_aodvProcessRrep pkt (hwf stats)) hpackets
      (ids_aodvProcessRrep (hwf stats) pkt)
    rw [hstep]
    exact hend
  | packet nfa hc _ => exact absurd hc (hev nfa)
  | alarms _ hstep =>
    have hmoved := (unmoved_doAlarmRun (h.arrive i) hno).1
    rw [hstep]
    exact ⟨hmoved.packets_queue.trans hpackets, hmoved.verdicts⟩
  | quiet stats _ _ _ _ hstep => rw [hstep]; exact ⟨hpackets, rfl⟩

end Meshias
