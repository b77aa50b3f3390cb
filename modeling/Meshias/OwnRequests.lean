import Meshias.Lib.Machine
import Meshias.Forecast

/-!
# Copies of the node's own requests

The neighbours of a node rebroadcast its RREQs, so it hears them again.  The handler looks only at
the sender, not at the originator; an echo is discarded when it is still in the RREQ buffer, and
otherwise treated as the request of another node: it is rebroadcast, and a route to the node's own
address is made.

* `NeverActsOnOwn` — the table has no entry for the node itself, and no RREQ it originated makes it
  send anything.
* `OwnHarmless` — the condition on one turn: an echo is found in the buffer, and no RREP names the
  node as destination.

Principal results: `neverActsOnOwn_iff` — the property holds all along a run exactly if every turn
meets the condition; `echo_after_retry` — a retry overwrites the id in the buffer, and the echo of
the first try is then processed.
-/

set_option autoImplicit false

namespace Meshias

open Machine (run StepsMeet recording)

variable {s t : MshData}

/-! ## The property -/

def NoOwnEntry (s : MshData) : Prop := ∀ r ∈ s.routing_table, r.dst_ip ≠ s.ip_addr

instance (s : MshData) : Decidable (NoOwnEntry s) := by unfold NoOwnEntry; infer_instance

/-- A RREQ that names the node as its originator makes it send nothing. -/
def OwnRreqSilent (s : MshData) (i : Input) : Prop :=
  ∀ pkt ∈ receivedRreq s i, (rreqOfPayload pkt.payload).orig_ip_addr = s.ip_addr →
    (step s i).os.sent = s.os.sent

/-- **A node never acts on its own discovery.** -/
def NeverActsOnOwn (s : MshData) (is : List Input) : Prop :=
  (∀ pre, pre <+: is → NoOwnEntry (run step s pre)) ∧ StepsMeet step OwnRreqSilent s is

/-- A RREQ that is not found in the buffer stays without effect in one case only: the kernel
    refuses the route to the originator, and the request is for another node and either at the end
    of its TTL or one that an intermediate node answers (silently). -/
def rreqHarmless (s : MshData) (i : Input) (pkt : AodvPkt) : Bool :=
  rreqDuplicate s pkt || nextRefused s i pkt &&
    (rreqOfPayload pkt.payload).dest_ip_addr ≠ s.ip_addr &&
    (pkt.ttl ≤ 1 || knownOnArrival s i pkt (rreqOfPayload pkt.payload).dest_ip_addr &&
      s.seq_num.sle (rreqOfPayload pkt.payload).dest_seq_num &&
      (rreqOfPayload pkt.payload).flags &&& RREQ_DEST_ONLY_FLAG = 0)

/-- The condition on one turn. -/
def OwnHarmless (s : MshData) (i : Input) : Prop :=
  (∀ pkt ∈ receivedRreq s i, (rreqOfPayload pkt.payload).orig_ip_addr = s.ip_addr →
    rreqHarmless s i pkt = true) ∧
  (∀ pkt ∈ receivedRrep s i, (rrepOfPayload pkt.payload).dest_ip_addr = s.ip_addr →
    nextRefused s i pkt = true)

/-! ## One turn -/

theorem noOwnEntry_iff (s : MshData) : NoOwnEntry s ↔ s.info s.ip_addr = none := by
  rw [info_eq_none, MshData.entry, KeyedList.find_key_none]
  rfl

/-- No entry for the node comes from the previous hop, which is another node. -/
theorem info_own_rreqArrived (h : Wf s) {pkt : AodvPkt} (hne : pkt.address ≠ s.ip_addr)
    (hown : s.info s.ip_addr = none) : (rreqArrived s pkt).info s.ip_addr = none := by
  rw [info_rreqArrived pkt h, if_neg (fun hc => hne hc.2.2.symm)]
  exact hown

theorem noOwnEntry_step_iff (h : Wf s) (i : Input) :
    NoOwnEntry (step s i) ↔ (step s i).info s.ip_addr = none := by
  rw [noOwnEntry_iff, (sameNode_step h i).ip_addr]

/-- **A RREQ of the node itself.** -/
theorem own_rreq_iff (h : Wf s) {i : Input} {pkt : AodvPkt} {stats : Statistics}
    (hne : pkt.address ≠ s.ip_addr) (hown : s.info s.ip_addr = none)
    (horig : (rreqOfPayload pkt.payload).orig_ip_addr = s.ip_addr) :
    ((aodvProcessRreq ((s.arrive i).withStats stats) pkt).info s.ip_addr = none ∧
      (aodvProcessRreq ((s.arrive i).withStats stats) pkt).os.sent = s.os.sent) ↔
      rreqHarmless s i pkt = true := by
  have hwf : Wf ((s.arrive i).withStats stats) := (h.arrive i).withStats stats
  have harr : (rreqArrived ((s.arrive i).withStats stats) pkt).info s.ip_addr = none :=
    info_own_rreqArrived hwf hne hown
  have htable := onlyTable_aodvRreqPrevHop hwf pkt.address
  obtain ⟨o, heq⟩ := aodvProcessRreq_eq pkt hwf
  rw [info_aodvProcessRreq pkt hwf, heq, rreqHarmless, rreqDuplicate_arrive]
  cases rreqDuplicate s pkt with
  | true =>
    simp only [if_true, Bool.true_or, iff_true]
    exact ⟨harr, htable.sent⟩
  | false =>
    have hrev := onlyTable_aodvUpdateOrig pkt.address (rreqOfPayload pkt.payload).hop_count
      (rreqOfPayload pkt.payload).orig_ip_addr (rreqOfPayload pkt.payload).orig_seq_num
      (wf_rreqBuffered pkt hwf)
    have hinfo := info_rreqReversed pkt hwf
    have hsent : (rreqReversed ((s.arrive i).withStats stats) pkt).os.sent = s.os.sent :=
      hrev.sent.trans htable.sent
    have hip : (rreqReversed ((s.arrive i).withStats stats) pkt).ip_addr = s.ip_addr :=
      hrev.ip_addr.trans htable.ip_addr
    have hseq : (rreqReversed ((s.arrive i).withStats stats) pkt).seq_num = s.seq_num :=
      hrev.seq_num.trans htable.seq_num
    have hsil := rreqReply_sent_iff pkt (rreqNext pkt) pkt.address o (wf_rreqReversed pkt hwf)
    rw [hsent, hip] at hsil
    simp only [Bool.false_eq_true, if_false, Bool.false_or]
    rw [hsil, hinfo s.ip_addr, if_pos horig.symm, horig, harr, nextRefused_eq h]
    have hdest : (rreqNext pkt).dest_ip_addr = (rreqOfPayload pkt.payload).dest_ip_addr := rfl
    rw [hdest]
    cases hbad : nextRefused s i pkt with
    | false => simp
    | true =>
      by_cases hd : (rreqOfPayload pkt.payload).dest_ip_addr = s.ip_addr
      · simp [hd]
      · have hans : answersForOther (rreqReversed ((s.arrive i).withStats stats) pkt) (rreqNext pkt) =
            (knownOnArrival s i pkt (rreqOfPayload pkt.payload).dest_ip_addr &&
              s.seq_num.sle (rreqOfPayload pkt.payload).dest_seq_num &&
              decide ((rreqOfPayload pkt.payload).flags &&& RREQ_DEST_ONLY_FLAG = 0)) := by
          rw [answersForOther, hseq, hdest, hinfo, if_neg (by rw [horig]; exact hd),
            isSome_rreqArrived h]
          rfl
        rw [hans]
        simp [hd]

theorem own_step_iff (h : Wf s) (i : Input) (hown : NoOwnEntry s) :
    (NoOwnEntry (step s i) ∧ OwnRreqSilent s i) ↔ OwnHarmless s i := by
  rw [noOwnEntry_step_iff h]
  rw [noOwnEntry_iff] at hown
  -- a turn without a message of the AODV protocol makes no entry
  have hnone : (step s i).info s.ip_addr = none → receivedRreq s i = none →
      receivedRrep s i = none →
      (((step s i).info s.ip_addr = none ∧ OwnRreqSilent s i) ↔ OwnHarmless s i) := by
    intro hinfo hrreq hrrep
    simp [OwnRreqSilent, OwnHarmless, hinfo, hrreq, hrrep]
  cases turn s i with
  | rreq pkt stats hpkt hstep =>
    have hne := address_of_receivedRreq hpkt
    have hwf : Wf ((s.arrive i).withStats stats) := (h.arrive i).withStats stats
    have hrrep := receivedRrep_of_rreq hpkt
    simp only [OwnRreqSilent, OwnHarmless, hpkt, hrrep, Option.mem_def, Option.some.injEq,
      forall_eq', reduceCtorEq, false_imp_iff, implies_true, and_true]
    rw [hstep]
    by_cases horig : (rreqOfPayload pkt.payload).orig_ip_addr = s.ip_addr
    · simp only [horig, true_imp_iff]
      exact own_rreq_iff h hne hown horig
    · simp only [horig, false_imp_iff, and_true, iff_true]
      have harr : (rreqArrived ((s.arrive i).withStats stats) pkt).info s.ip_addr = none :=
        info_own_rreqArrived hwf hne hown
      rw [info_aodvProcessRreq pkt hwf]
      split
      · exact harr
      · rw [info_rreqReversed pkt hwf, if_neg (Ne.symm horig)]
        exact harr
  | rrep pkt stats hpkt hstep =>
    have hne := address_of_receivedRrep hpkt
    have hwf : Wf ((s.arrive i).withStats stats) := (h.arrive i).withStats stats
    have hrreq := receivedRreq_of_rrep hpkt
    have harr : (rreqArrived ((s.arrive i).withStats stats) pkt).info s.ip_addr = none :=
      info_own_rreqArrived hwf hne hown
    have hupd := info_rrepUpdated pkt hwf s.ip_addr
    have hdest : (rrepNext pkt).dest_ip_addr = (rrepOfPayload pkt.payload).dest_ip_addr := rfl
    simp only [OwnRreqSilent, OwnHarmless, hpkt, hrreq, Option.mem_def, Option.some.injEq,
      forall_eq', reduceCtorEq, false_imp_iff, implies_true, and_true, true_and]
    rw [hstep, info_aodvProcessRrep pkt hwf]
    by_cases hd : (rrepOfPayload pkt.payload).dest_ip_addr = s.ip_addr
    · have hacc : rrepAccepted (rreqArrived ((s.arrive i).withStats stats) pkt) (rrepNext pkt) =
          true := by
        rw [rrepAccepted, hdest, hd, harr]
      rw [if_pos hacc, hupd, hdest, hd, if_pos rfl, harr, nextRefused_eq h]
      cases nextRefused s i pkt <;> simp
    · simp only [hd, false_imp_iff, iff_true]
      split
      · rw [hupd, if_neg (by rw [hdest]; exact Ne.symm hd)]
        exact harr
      · exact harr
  | packet nfa hev hstep =>
    obtain ⟨hrreq, hrrep⟩ := received_of_event (s := s) (i := i) (by simp [hev])
    exact hnone (by rw [hstep, info_managePacket (h.arrive i)]; exact hown) hrreq hrrep
  | alarms hev hstep =>
    obtain ⟨hrreq, hrrep⟩ := received_of_event (s := s) (i := i) (by simp [hev])
    refine hnone ?_ hrreq hrrep
    rw [hstep]
    rcases info_doAlarmRun (h.arrive i) s.ip_addr with heq | hno
    · rw [heq]; exact hown
    · exact hno
  | quiet stats hrreq hrrep _ _ hstep => exact hnone (by rw [hstep]; exact hown) hrreq hrrep

/-! ## Runs -/

/-- **The node never acts on its own discovery** in a run if and only if every turn of the run is
    harmless. -/
theorem neverActsOnOwn_iff (ip bcast : InAddr) (iface : U32) (is : List Input) :
    NeverActsOnOwn (mshDataInit ip bcast iface) is ↔
      StepsMeet step OwnHarmless (mshDataInit ip bcast iface) is := by
  refine Machine.forall_steps_iff (I := Wf) (fun s i h => h.step i)
    (fun s i h hown => own_step_iff h i hown) (Wf.init ip bcast iface) ?_
  intro r hr
  cases hr

/-! ## An echo after a retry -/

/-- What a turn sends, with the time. -/
def sentAt (s : MshData) (i : Input) : List (Nat × AodvPkt) :=
  ((step s i).os.sent.drop s.os.sent.length).map (fun pkt => (i.now, pkt))

/-- The two requests are the same but for the hop count. -/
def sameRequest (p q : AodvPkt) : Bool :=
  { rreqOfPayload p.payload with hop_count := 0 } = { rreqOfPayload q.payload with hop_count := 0 }

/-- A RREQ that names the node as originator is a copy of one that the node has sent less than
    `PATH_DISCOVERY_TIME` ago; the history is that of `sentAt`. -/
def EchoTimely (c : MshData × List (Nat × AodvPkt)) (i : Input) : Prop :=
  ∀ pkt ∈ receivedRreq c.1 i, (rreqOfPayload pkt.payload).orig_ip_addr = c.1.ip_addr →
    ∃ m ∈ c.2, sameRequest pkt m.2 = true ∧ i.now < m.1 + PATH_DISCOVERY_TIME.toNat * 1000

instance (c : MshData × List (Nat × AodvPkt)) (i : Input) : Decidable (EchoTimely c i) := by
  unfold EchoTimely; infer_instance

/-- Node 10.0.0.1 captures a packet for 10.0.0.9 and sends its RREQ 1; 2.8 s later it tries again
    with RREQ 2; 0.2 s after that 10.0.0.2 passes on RREQ 1. -/
def lateEcho : List Input :=
  let node := mshDataInit 0x0A000001 0x0A0000FF 0
  let first : Input := ⟨0, [], [], .packet (capturedPacket 1 3 1 0x0A000001 0x0A000009)⟩
  let request := (step node first).os.sent.headD ⟨[], 0, 0⟩
  [first, ⟨2800000, [], [], .alarms⟩,
    ⟨3000000, [], [], datagramFrom 0x0A000002 2 (aodvPktPrepareRreq (rreqNext request))⟩]

theorem echo_after_retry :
    ¬ ∀ (ip bcast : InAddr) (iface : U32) (is : List Input), ClockMonotone is →
      StepsMeet (recording step sentAt) EchoTimely (mshDataInit ip bcast iface, []) is →
      NeverActsOnOwn (mshDataInit ip bcast iface) is := by
  intro hall
  have hnever := hall 0x0A000001 0x0A0000FF 0 lateEcho (by decide +kernel) (by decide +kernel)
  exact absurd (hnever.1 lateEcho (List.prefix_refl _)) (by decide +kernel)

end Meshias
