import Meshias.Lib.SerialNumbers
import Meshias.PassingOn

/-!
# Who answers a request

`aodv_answer_to_rreq` answers for the node itself, and for a destination that the node has an entry
for.  The second reply is built and destroyed.

* `intermediateReply` — that reply.
* `FreshAnswered` — a node answers for another one if and only if it knows a fresh route.
* `RequestServed`, `AnswerSent` — a new request is answered or goes on; what counts as an answer is
  sent.
* `OwnAnswerFresh` — the sequence number of the destination's own answer.

Principal results: `freshAnswered_iff`, `requests_served_iff`, `ownAnswerFresh_iff`, each with the
input on which the code does not do it.
-/

set_option autoImplicit false

namespace Meshias

open Machine (run)
open SerialNumbers

variable {s t : MshData} {i : Input} {pkt : AodvPkt}

/-! ## Fresh routes -/

/-- The reply of an intermediate node: it carries the stored sequence number, the stored hop count,
    and the difference of a lifetime and the clock. -/
def intermediateReply (now : Nat) (rreq : AodvRreq) (route_to_dest : MshRoute) : AodvPkt :=
  let lifetime := mshRouteGetLifetime now route_to_dest - getAlarmTime (tvSec now) (tvUsec now)
  ⟨aodvPktBuildRrep 0 0 route_to_dest.hop_count rreq.dest_ip_addr route_to_dest.dest_seq_num
    rreq.orig_ip_addr lifetime, rreq.orig_ip_addr, DEFAULT_TTL⟩

/-- The entry is in use, and its sequence number is valid and not below the requested one. -/
def MshRoute.freshFor (rreq : AodvRreq) (route_to_dest : MshRoute) : Bool :=
  route_to_dest.hasFlag RTFLAG_VALID_ENTRY && route_to_dest.hasFlag RTFLAG_VALID_DEST_SEQ_NUM &&
    rreq.dest_seq_num.sle route_to_dest.dest_seq_num

/-- **Only fresh routes answer**: the requests for another node. -/
def FreshAnswered (s : MshData) (rreq : AodvRreq) (prev_hop : InAddr) (route_to_orig : Nat) :
    Prop :=
  rreq.dest_ip_addr ≠ s.ip_addr →
    ((aodvAnswerToRreq s rreq prev_hop route_to_orig).2 = true ↔
      ∃ r ∈ routingTableFindByIp s.routing_table rreq.dest_ip_addr,
        r.freshFor rreq = true ∧ rreq.flags &&& RREQ_DEST_ONLY_FLAG = 0) ∧
    ((aodvAnswerToRreq s rreq prev_hop route_to_orig).2 = true →
      ∃ r ∈ routingTableFindByIp s.routing_table rreq.dest_ip_addr,
        (rrepOfPayload (intermediateReply s.os.now rreq r).payload).dest_seq_num = r.dest_seq_num)

/-- **The condition**: the node's own sequence number is not above the requested one exactly if the
    route is fresh. -/
def OwnNumberTells (s : MshData) (rreq : AodvRreq) : Prop :=
  rreq.dest_ip_addr ≠ s.ip_addr → rreq.flags &&& RREQ_DEST_ONLY_FLAG = 0 →
    ∀ r ∈ routingTableFindByIp s.routing_table rreq.dest_ip_addr,
      s.seq_num.sle rreq.dest_seq_num = r.freshFor rreq

/-- The test of the code. -/
theorem snd_aodvAnswerToRreq_iff {rreq : AodvRreq} (p : InAddr) (o : Nat)
    (hdest : rreq.dest_ip_addr ≠ s.ip_addr) :
    (aodvAnswerToRreq s rreq p o).2 = true ↔
      ∃ r ∈ routingTableFindByIp s.routing_table rreq.dest_ip_addr,
        s.seq_num.sle rreq.dest_seq_num = true ∧ rreq.flags &&& RREQ_DEST_ONLY_FLAG = 0 := by
  unfold aodvAnswerToRreq
  rw [if_neg hdest]
  cases routingTableFindByIp s.routing_table rreq.dest_ip_addr with
  | none => simp
  | some r =>
    dsimp only
    split
    · rename_i hc
      exact iff_of_true rfl ⟨r, rfl, hc⟩
    · rename_i hc
      refine iff_of_false Bool.false_ne_true ?_
      rintro ⟨-, -, hc'⟩
      exact hc hc'

/-- **When only fresh routes answer**, for every state and every request. -/
theorem freshAnswered_iff (s : MshData) (rreq : AodvRreq) (prev_hop : InAddr)
    (route_to_orig : Nat) :
    FreshAnswered s rreq prev_hop route_to_orig ↔ OwnNumberTells s rreq := by
  refine forall_congr' fun hdest => ?_
  have htest := snd_aodvAnswerToRreq_iff prev_hop route_to_orig hdest
  cases hr : routingTableFindByIp s.routing_table rreq.dest_ip_addr with
  | none =>
    rw [hr] at htest
    simp [htest]
  | some r =>
    rw [hr] at htest
    have hcarries : (rrepOfPayload (intermediateReply s.os.now rreq r).payload).dest_seq_num =
        r.dest_seq_num := by
      rw [intermediateReply, rrepOfPayload_build]
    simp only [Option.mem_some_iff, exists_eq_left', forall_eq'] at htest ⊢
    rw [and_iff_left (fun _ => hcarries), htest]
    by_cases hflag : rreq.flags &&& RREQ_DEST_ONLY_FLAG = 0
    · rw [and_iff_left hflag, and_iff_left hflag, forall_prop_of_true hflag]
      exact Bool.eq_iff_iff.symm
    · exact iff_of_true (iff_of_false (fun hc => hflag hc.2) (fun hc => hflag hc.2))
        (fun hc => absurd hc hflag)

/-- 10.0.0.1 knows 10.0.0.9 with sequence number 5, and is asked for sequence number 7. -/
def newerRequest : AodvRreq :=
  rreqOfPayload (aodvPktBuildRreq 0 1 3 0x0A000009 7 0x0A000007 4)

/-- **It answers with the old route**: the number is compared with its own. -/
theorem stale_route_answers :
    ¬ ∀ (ip bcast : InAddr) (iface : U32) (is : List Input) (rreq : AodvRreq) (prev_hop : InAddr)
      (route_to_orig : Nat), FreshAnswered (run step (mshDataInit ip bcast iface) is) rreq prev_hop
        route_to_orig := by
  intro hall
  have htells := (freshAnswered_iff _ _ _ _).1
    (hall 0x0A000001 0x0A0000FF 0 destinationKnown newerRequest 0x0A000003 0)
  exact absurd htells (by unfold OwnNumberTells; decide +kernel)

/-! ## Requests that are served -/

/-- The reply `p` answers the request `pkt`, towards its originator. -/
structure AnswerTo (t : MshData) (pkt p : AodvPkt) : Prop where
  type : aodvPktGetType p = AODV_RREP
  dest_ip_addr : (rrepOfPayload p.payload).dest_ip_addr = (rreqNext pkt).dest_ip_addr
  orig_ip_addr : (rrepOfPayload p.payload).orig_ip_addr = (rreqNext pkt).orig_ip_addr
  address : p.address = pkt.address
  next_hop : ∀ j ∈ t.info (rreqNext pkt).orig_ip_addr, p.address = j.next_hop

/-- The request `p` is the request `pkt`, rebroadcast. -/
structure CopyOf (bcast : InAddr) (pkt p : AodvPkt) : Prop where
  type : aodvPktGetType p = AODV_RREQ
  address : p.address = bcast
  bytes : SameBytesBut [3, 12, 13, 14, 15] p pkt

/-- **A new request is served**: it is answered or goes on. -/
def RequestServed (s : MshData) (i : Input) : Prop :=
  ∀ pkt ∈ receivedRreq s i, rreqDuplicate s pkt = false → 1 < pkt.ttl →
    ∃ p ∈ sentBy s i, AnswerTo (step s i) pkt p ∨ CopyOf s.broadcast_addr pkt p

/-- **What counts as an answer is sent.** -/
def AnswerSent (s : MshData) (rreq : AodvRreq) (prev_hop : InAddr) (route_to_orig : Nat) : Prop :=
  (aodvAnswerToRreq s rreq prev_hop route_to_orig).2 = true →
    ∃ p, (aodvAnswerToRreq s rreq prev_hop route_to_orig).1.os.sent = s.os.sent ++ [p] ∧
      aodvPktGetType p = AODV_RREP

/-- The condition on one turn: the request is for the node itself, or the node does not answer for
    its destination. -/
def RequestLeft (s : MshData) (i : Input) : Prop :=
  ∀ pkt ∈ receivedRreq s i, rreqDuplicate s pkt = false → 1 < pkt.ttl →
    (rreqNext pkt).dest_ip_addr = s.ip_addr ∨ answersInstead s i pkt = false

/-- The condition on one call. -/
def OwnNumberAbove (s : MshData) (rreq : AodvRreq) : Prop :=
  rreq.dest_ip_addr ≠ s.ip_addr → rreq.flags &&& RREQ_DEST_ONLY_FLAG = 0 →
    ∀ r ∈ routingTableFindByIp s.routing_table rreq.dest_ip_addr,
      rreq.dest_seq_num.slt s.seq_num = true

/-- After a new request the entry of its originator points to the sender. -/
theorem next_hop_orig (h : Wf s) (hpkt : receivedRreq s i = some pkt)
    (hnew : rreqDuplicate s pkt = false) {j : RouteInfo}
    (hj : (step s i).info (rreqNext pkt).orig_ip_addr = some j) : j.next_hop = pkt.address := by
  have horig : (rreqNext pkt).orig_ip_addr = (rreqOfPayload pkt.payload).orig_ip_addr := rfl
  rw [info_new_rreq h hpkt hnew, infoReversed, if_pos horig] at hj
  exact field_of_written (·.next_hop) (fun _ => rfl) rfl hj

/-- The answer of the node itself. -/
theorem answerTo_own (h : Wf s) (hpkt : receivedRreq s i = some pkt)
    (hnew : rreqDuplicate s pkt = false) (hdest : (rreqNext pkt).dest_ip_addr = s.ip_addr) :
    AnswerTo (step s i) pkt (ownReply (step s i) (rreqNext pkt) pkt.address) := by
  obtain ⟨stats, o, hstep⟩ := step_new_rreq h hpkt hnew
  have hwf := (h.arrive i).withStats stats
  have hreply := (rreqReply_spec (s := rreqReversed ((s.arrive i).withStats stats) pkt) pkt
    (rreqNext pkt) pkt.address o).1.ip_addr
  have haddr : (step s i).ip_addr = s.ip_addr := by
    rw [hstep, hreply, (addr_rreqReversed hwf pkt).1]
    rfl
  have hfields : rrepOfPayload (ownReply (step s i) (rreqNext pkt) pkt.address).payload =
      ⟨2, 0, 0, 0, 0, 0, (step s i).ip_addr, (step s i).seq_num, (rreqNext pkt).orig_ip_addr,
        MY_ROUTE_TIMEOUT, []⟩ := rrepOfPayload_build ..
  exact ⟨type_build_rrep .., by rw [hfields, haddr, hdest], by rw [hfields], rfl,
    fun j hj => (next_hop_orig h hpkt hnew hj).symm⟩

theorem requestServed_step_iff (h : Wf s) : RequestServed s i ↔ RequestLeft s i := by
  refine forall_congr' fun pkt => forall_congr' fun hpkt => forall_congr' fun hnew =>
    forall_congr' fun httl => ?_
  have hsent := sentBy_rreq h hpkt
  rw [hnew, if_neg Bool.false_ne_true] at hsent
  by_cases hdest : (rreqNext pkt).dest_ip_addr = s.ip_addr
  · rw [if_pos hdest] at hsent
    refine iff_of_true ⟨_, by rw [hsent]; exact List.mem_singleton_self _, .inl ?_⟩ (.inl hdest)
    exact answerTo_own h hpkt hnew hdest
  · rw [if_neg hdest] at hsent
    rw [or_iff_right hdest]
    cases hans : answersInstead s i pkt with
    | true =>
      rw [if_pos (.inr hans)] at hsent
      refine iff_of_false ?_ Bool.noConfusion
      rintro ⟨p, hp, -⟩
      rw [hsent] at hp
      cases hp
    | false =>
      have hre := sentBy_rebroadcast h hpkt (rebroadcasts_iff.2 ⟨hnew, hdest, hans, httl⟩)
      refine iff_of_true ⟨_, by rw [hre]; exact List.mem_singleton_self _, .inr ?_⟩ rfl
      exact ⟨type_rebroadcast hpkt _ _, rfl, sameBytes_set_hop _ (by decide) _ _ _ _⟩

theorem answerSent_iff (s : MshData) (rreq : AodvRreq) (p : InAddr) (o : Nat) :
    AnswerSent s rreq p o ↔ OwnNumberAbove s rreq := by
  by_cases hdest : rreq.dest_ip_addr = s.ip_addr
  · refine iff_of_true (fun _ => ?_) (fun hne => absurd hdest hne)
    rw [aodvAnswerToRreq_own rreq p o hdest]
    dsimp only
    split
    · exact ⟨_, rfl, type_build_rrep ..⟩
    · exact ⟨_, rfl, type_build_rrep ..⟩
  · have hsilent := (aodvAnswerToRreq_other rreq p o hdest).2.2.sent
    have hunsent : AnswerSent s rreq p o ↔ ¬ (aodvAnswerToRreq s rreq p o).2 = true := by
      refine ⟨fun hans htrue => ?_, fun hnot htrue => absurd htrue hnot⟩
      obtain ⟨q, hsent, -⟩ := hans htrue
      rw [hsilent] at hsent
      simp at hsent
    rw [hunsent, snd_aodvAnswerToRreq_iff p o hdest, OwnNumberAbove, forall_prop_of_true hdest,
      BitVec.sle_eq_not_slt]
    constructor
    · intro hnot hflag r hr
      by_contra hlt
      exact hnot ⟨r, hr, by simpa using hlt, hflag⟩
    · rintro habove ⟨r, hr, hle, hflag⟩
      rw [habove hflag r hr] at hle
      cases hle

/-- **When a new request is served**: in every turn of every run, and in every call. -/
theorem requests_served_iff (ip bcast : InAddr) (iface : U32) (is : List Input) (i : Input)
    (s : MshData) (rreq : AodvRreq) (prev_hop : InAddr) (route_to_orig : Nat) :
    (RequestServed (run step (mshDataInit ip bcast iface) is) i ↔
      RequestLeft (run step (mshDataInit ip bcast iface) is) i) ∧
    (AnswerSent s rreq prev_hop route_to_orig ↔ OwnNumberAbove s rreq) :=
  ⟨requestServed_step_iff (wf_run ip bcast iface is), answerSent_iff s rreq prev_hop route_to_orig⟩

/-- 10.0.0.3 asks 10.0.0.1 for 10.0.0.9. -/
def knownRequest : Input :=
  ⟨1000000, [], [], datagramFrom 0x0A000003 60 (aodvPktBuildRreq 0 1 3 0x0A000009 1 0x0A000007 4)⟩

/-- **10.0.0.1 knows the way and says nothing.** -/
theorem request_swallowed :
    ¬ ((∀ (ip bcast : InAddr) (iface : U32) (is : List Input) (i : Input),
        RequestServed (run step (mshDataInit ip bcast iface) is) i) ∧
      ∀ (s : MshData) (rreq : AodvRreq) (prev_hop : InAddr) (route_to_orig : Nat),
        AnswerSent s rreq prev_hop route_to_orig) := by
  rintro ⟨hserved, -⟩
  have hleft := (requestServed_step_iff (wf_run _ _ _ destinationKnown)).1
    (hserved 0x0A000001 0x0A0000FF 0 destinationKnown knownRequest)
  exact absurd hleft (by unfold RequestLeft; decide +kernel)

/-! ## The destination's own answer -/

/-- **The answer of the destination** carries a number that is not older than its own nor than the
    requested one, and not below the latter for a requester that compares the two. -/
def OwnAnswerFresh (s : MshData) (rreq : AodvRreq) (prev_hop : InAddr) (route_to_orig : Nat) :
    Prop :=
  rreq.dest_ip_addr = s.ip_addr →
    ∃ p, (aodvAnswerToRreq s rreq prev_hop route_to_orig).1.os.sent = s.os.sent ++ [p] ∧
      aodvPktGetType p = AODV_RREP ∧
      ¬ Older (rrepOfPayload p.payload).dest_seq_num s.seq_num ∧
      ¬ Older (rrepOfPayload p.payload).dest_seq_num rreq.dest_seq_num ∧
      (rrepOfPayload p.payload).dest_seq_num.slt rreq.dest_seq_num = false

/-- **The condition** on the own number and the requested one: equal, and not the largest signed
    number; or the requested one is not ahead in either sense. -/
def numberAnswers (own requested : U32) : Bool :=
  if requested = own then own ≠ BitVec.intMax 32
  else ¬ Older own requested && !own.slt requested

def answerSeqNum (own requested : U32) : U32 := if requested = own then own + 1 else own

/-- The next number compares as the smaller one where the sign changes. -/
theorem slt_add_one_iff (a : U32) : (a + 1).slt a = false ↔ a ≠ BitVec.intMax 32 := by
  have hmax : (BitVec.intMax 32).toNat = 2 ^ 31 - 1 := by decide
  rw [BitVec.slt, decide_eq_false_iff_not, BitVec.toInt_eq_toNat_cond, BitVec.toInt_eq_toNat_cond,
    BitVec.toNat_add, ne_eq, ← BitVec.toNat_inj, hmax]
  have hone : (1 : U32).toNat = 1 := rfl
  rw [hone]
  have hlt := a.isLt
  split
  · split <;> omega
  · split <;> omega

theorem numberAnswers_iff (own requested : U32) :
    numberAnswers own requested = true ↔
      ¬ Older (answerSeqNum own requested) own ∧ ¬ Older (answerSeqNum own requested) requested ∧
        (answerSeqNum own requested).slt requested = false := by
  rw [numberAnswers, answerSeqNum]
  split
  · rename_i heq
    subst heq
    have hnext := not_older_add_one (show 1 < 32 by decide) requested
    rw [and_iff_right hnext, and_iff_right hnext, decide_eq_true_eq, slt_add_one_iff]
  · simp [not_older_self]

theorem sent_own_answer {rreq : AodvRreq} (p : InAddr) (o : Nat)
    (hdest : rreq.dest_ip_addr = s.ip_addr) :
    (aodvAnswerToRreq s rreq p o).1.os.sent = s.os.sent ++
      [⟨aodvPktBuildRrep 0 0 0 s.ip_addr (answerSeqNum s.seq_num rreq.dest_seq_num)
        rreq.orig_ip_addr MY_ROUTE_TIMEOUT, p, DEFAULT_TTL⟩] := by
  rw [aodvAnswerToRreq_own rreq p o hdest, answerSeqNum]
  dsimp only
  split
  · rfl
  · rfl

/-- The condition on one call. -/
def NumberAnswers (s : MshData) (rreq : AodvRreq) : Prop :=
  rreq.dest_ip_addr = s.ip_addr → numberAnswers s.seq_num rreq.dest_seq_num = true

/-- **When the destination's answer is fresh**, for every state and every request. -/
theorem ownAnswerFresh_iff (s : MshData) (rreq : AodvRreq) (prev_hop : InAddr)
    (route_to_orig : Nat) :
    OwnAnswerFresh s rreq prev_hop route_to_orig ↔ NumberAnswers s rreq := by
  refine forall_congr' fun hdest => ?_
  rw [numberAnswers_iff, sent_own_answer prev_hop route_to_orig hdest]
  constructor
  · rintro ⟨p, hsent, -, hfresh⟩
    obtain rfl := List.singleton_injective (List.append_cancel_left hsent)
    rw [rrepOfPayload_build] at hfresh
    exact hfresh
  · intro hfresh
    refine ⟨_, rfl, type_build_rrep .., ?_⟩
    rw [rrepOfPayload_build]
    exact hfresh

/-- 10.0.0.3 has known 10.0.0.1 with sequence number 1, before it was started again. -/
def requestAhead : AodvRreq :=
  rreqOfPayload (aodvPktBuildRreq 0 1 3 0x0A000001 1 0x0A000007 4)

/-- **The answer carries the number of a node that has just been started.** -/
theorem answer_behind :
    ¬ ∀ (ip bcast : InAddr) (iface : U32) (is : List Input) (rreq : AodvRreq) (prev_hop : InAddr)
      (route_to_orig : Nat), OwnAnswerFresh (run step (mshDataInit ip bcast iface) is) rreq prev_hop
        route_to_orig := by
  intro hall
  have hnumber := (ownAnswerFresh_iff _ _ _ _).1
    (hall 0x0A000001 0x0A0000FF 0 [] requestAhead 0x0A000003 0)
  exact absurd hnumber (by unfold NumberAnswers; decide +kernel)

end Meshias
