import Meshias.Discovery

/-!
# The request that a reply answers

What an accepted RREP for the node removes from the RREQ buffer.

* `AnsweredOnly` — the node's own request for the destination goes, and nothing else.
* `OwnFirst` — the condition: in the buffer, newest first, the node's own request is the first one
  for the destination that `rreq_fifo_del` does not skip.

Own and external entries for one destination are mixed in the buffer, and `rreq_fifo_del` compares
the ids of other nodes with the node's own counter.

Principal results: `rreqDeleted_answered_iff`, `answeredOnly_iff`.
-/

set_option autoImplicit false

namespace Meshias

open Machine (run)

variable {s : MshData} {i : Input}

/-! ## The buffer -/

/-- Of the entries for the destination only the own one has gone. -/
structure Answered (q q' : List RreqFifo) (dst : InAddr) : Prop where
  gone : ∀ e ∈ q', 0 ≤ e.prev_tries → e.dst ≠ dst
  kept : ∀ e ∈ q, e.prev_tries < 0 ∨ e.dst ≠ dst → e ∈ q'

/-- An own request for the destination with an id not above `rreq_id` stands in front of all other
    entries for it with such an id; or there is no own request and no entry with such an id. -/
def OwnFirst (q : List RreqFifo) (rreq_id : U32) (dst : InAddr) : Prop :=
  (∃ e newer older, q = newer ++ e :: older ∧ 0 ≤ e.prev_tries ∧ e.dst = dst ∧
    e.rreq_id ≤ rreq_id ∧ ∀ x ∈ newer, x.dst = dst → ¬ x.rreq_id ≤ rreq_id) ∨
  ∀ e ∈ q, e.dst = dst → e.prev_tries < 0 ∧ ¬ e.rreq_id ≤ rreq_id

/-- The entry that `rreq_fifo_del` stops at. -/
theorem rreqFifoDelEntry_eq_some {q : List RreqFifo} {rreq_id : U32} {dst : InAddr}
    {e : RreqFifo} : rreqFifoDelEntry q rreq_id dst = some e ↔
      (e.rreq_id ≤ rreq_id ∧ e.dst = dst) ∧ ∃ newer older, q = newer ++ e :: older ∧
        ∀ x ∈ newer, x.dst = dst → ¬ x.rreq_id ≤ rreq_id := by
  rw [rreqFifoDelEntry, List.find?_eq_some_iff_append, decide_eq_true_iff]
  refine and_congr_right fun _ => exists₂_congr fun newer older => and_congr_right fun _ => ?_
  refine forall₂_congr fun x _ => ?_
  rw [Bool.not_eq_true', decide_eq_false_iff_not]
  tauto

theorem rreqFifoDelEntry_eq_none {q : List RreqFifo} {rreq_id : U32} {dst : InAddr} :
    rreqFifoDelEntry q rreq_id dst = none ↔ ∀ e ∈ q, e.dst = dst → ¬ e.rreq_id ≤ rreq_id := by
  rw [rreqFifoDelEntry, List.find?_eq_none]
  refine forall₂_congr fun e _ => ?_
  rw [decide_eq_true_iff]
  tauto

/-- The condition by the entry that is deleted. -/
theorem ownFirst_iff {q : List RreqFifo} {rreq_id : U32} {dst : InAddr} :
    OwnFirst q rreq_id dst ↔
      match rreqFifoDelEntry q rreq_id dst with
      | some e => 0 ≤ e.prev_tries
      | none => rreqFifoWaitingResponseFor q dst = false := by
  unfold OwnFirst
  cases hfound : rreqFifoDelEntry q rreq_id dst with
  | none =>
    have hnone := rreqFifoDelEntry_eq_none.1 hfound
    rw [waiting_eq_false]
    constructor
    · rintro (⟨e, newer, older, rfl, -, hdst, hle, -⟩ | hall) x hx hown hxd
      · exact hnone e (by simp) hdst hle
      · exact absurd hown (Int.not_le.2 (hall x hx hxd).1)
    · intro hext
      refine .inr fun x hx hxd => ⟨Int.not_le.1 fun hown => hext x hx hown hxd, hnone x hx hxd⟩
  | some e =>
    have hsome := rreqFifoDelEntry_eq_some.1 hfound
    obtain ⟨⟨hle, hdst⟩, newer, older, hq, hnewer⟩ := hsome
    constructor
    · rintro (⟨e', newer', older', hq', hown', hdst', hle', hnewer'⟩ | hall)
      · have hfound' := rreqFifoDelEntry_eq_some.2 ⟨⟨hle', hdst'⟩, newer', older', hq', hnewer'⟩
        rwa [Option.some.inj (hfound.symm.trans hfound')]
      · exact absurd hle (hall e (by rw [hq]; simp) hdst).2
    · intro hown
      exact .inl ⟨e, newer, older, hq, hown, hdst, hle, hnewer⟩

/-- **One deletion.** -/
theorem rreqDeleted_answered_iff (h : Wf s) (hok : OwnOk s.rreq_queue) (rreq_id : U32)
    (dst : InAddr) :
    Answered s.rreq_queue (rreqDeleted s.rreq_queue rreq_id dst) dst ↔
      OwnFirst s.rreq_queue rreq_id dst := by
  have hwaiting := waiting_rreqDeleted h hok rreq_id dst dst
  have hgone : (∀ e ∈ rreqDeleted s.rreq_queue rreq_id dst, 0 ≤ e.prev_tries → e.dst ≠ dst) ↔
      (rreqFifoWaitingResponseFor s.rreq_queue dst &&
        !(delEndsOwn s.rreq_queue rreq_id dst)) = false := by
    rw [← waiting_eq_false, hwaiting]
    simp
  rw [ownFirst_iff]
  unfold delEndsOwn at hgone
  cases hfound : rreqFifoDelEntry s.rreq_queue rreq_id dst with
  | none =>
    have hsame : rreqDeleted s.rreq_queue rreq_id dst = s.rreq_queue := by
      rw [rreqDeleted, hfound]
    rw [hfound] at hgone
    constructor
    · intro hans
      simpa using hgone.1 hans.gone
    · intro hext
      refine ⟨hgone.2 (by simpa using hext), fun e he _ => ?_⟩
      rwa [hsame]
  | some x =>
    have hx : x ∈ s.rreq_queue := List.mem_of_find?_eq_some hfound
    have hxd := (rreqFifoDelEntry_eq_some.1 hfound).1.2
    have hfilter : rreqDeleted s.rreq_queue rreq_id dst =
        s.rreq_queue.filter (fun e => e.self ≠ x.self) := by
      rw [rreqDeleted, hfound]
    rw [hfound] at hgone
    constructor
    · intro hans
      -- an external entry would have to stay
      by_contra hext
      have hstays := hans.kept x hx (.inl (Int.not_le.1 hext))
      rw [hfilter] at hstays
      simpa using (List.mem_filter.1 hstays).2
    · intro hown
      refine ⟨hgone.2 (by simp [hown]), fun e he hother => ?_⟩
      rw [hfilter]
      refine List.mem_filter.2 ⟨he, decide_eq_true fun hself => ?_⟩
      obtain rfl := KeyedList.eq_of_key h.rreq_nodup he hx hself
      rcases hother with hneg | hne
      · exact absurd hown (Int.not_le.2 hneg)
      · exact hne hxd

/-! ## The turn of the daemon -/

/-- The answered request, and only it, is removed.  An entry that stays has kept its alarm. -/
def AnsweredOnly (s : MshData) (i : Input) : Prop :=
  ∀ pkt ∈ receivedRrep s i, rrepAcceptable s pkt = true →
    (rrepNext pkt).orig_ip_addr = s.ip_addr →
    Answered s.rreq_queue (step s i).rreq_queue (rrepNext pkt).dest_ip_addr

/-- `OwnFirst` for the destination of a reply that the node accepts for itself. -/
def AnswerFirst (s : MshData) (i : Input) : Prop :=
  ∀ pkt ∈ receivedRrep s i, rrepAcceptable s pkt = true →
    (rrepNext pkt).orig_ip_addr = s.ip_addr →
    OwnFirst s.rreq_queue s.rreq_id (rrepNext pkt).dest_ip_addr

/-- The buffer after a reply for the node. -/
theorem rreq_queue_step_answer (h : Wf s) {pkt : AodvPkt} (hpkt : receivedRrep s i = some pkt)
    (hacc : rrepAcceptable s pkt = true) (hown : (rrepNext pkt).orig_ip_addr = s.ip_addr) :
    (step s i).rreq_queue = rreqDeleted s.rreq_queue s.rreq_id (rrepNext pkt).dest_ip_addr := by
  obtain ⟨stats, hstep⟩ := step_of_receivedRrep hpkt
  have hwf : Wf ((s.arrive i).withStats stats) := (h.arrive i).withStats stats
  have haccepted := (rrepAccepted_arrive h i stats pkt).trans hacc
  rw [hstep, rreq_queue_aodvProcessRrep pkt hwf]
  exact if_pos ⟨haccepted, hown.symm⟩

theorem answeredOnly_step_iff (h : Wf s) (hok : OwnOk s.rreq_queue) (i : Input) :
    AnsweredOnly s i ↔ AnswerFirst s i := by
  refine forall₂_congr fun pkt hpkt => forall₂_congr fun hacc hown => ?_
  rw [rreq_queue_step_answer h (Option.mem_def.1 hpkt) hacc hown]
  exact rreqDeleted_answered_iff h hok _ _

/-! ## Runs -/

/-- Other nodes' ids and the node's own counter have nothing to do with each other: the state
    after a run, with any value of the counter. -/
theorem wf_ownOk_run (ip bcast : InAddr) (iface : U32) (is : List Input) (rreq_id : U32) :
    let s := { run step (mshDataInit ip bcast iface) is with rreq_id := rreq_id }
    Wf s ∧ OwnOk s.rreq_queue := by
  have hrun := Machine.run_invariant_always (I := fun s => Wf s ∧ OwnOk s.rreq_queue)
    (fun s i h => ⟨h.1.step i, ownOk_step h.1 h.2 i⟩) ⟨Wf.init ip bcast iface, .nil⟩ is
  exact ⟨hrun.1.congr rfl rfl rfl rfl, hrun.2⟩

/-- **The answered request, and only it, is removed** after any run and for any value of the
    node's counter exactly if the own request is the first that `rreq_fifo_del` may delete. -/
theorem answeredOnly_iff (ip bcast : InAddr) (iface : U32) (is : List Input) (rreq_id : U32)
    (i : Input) :
    AnsweredOnly { run step (mshDataInit ip bcast iface) is with rreq_id := rreq_id } i ↔
      AnswerFirst { run step (mshDataInit ip bcast iface) is with rreq_id := rreq_id } i := by
  have hreach := wf_ownOk_run ip bcast iface is rreq_id
  exact answeredOnly_step_iff hreach.1 hreach.2 i

/-- Node 10.0.0.1 starts a discovery of 10.0.0.9; then 10.0.0.2 passes on the request that
    10.0.0.8 has made for the same destination. -/
def mixedRequests : List Input :=
  [⟨0, [], [], .packet (capturedPacket 1 3 1 0x0A000001 0x0A000009)⟩,
    ⟨100000, [], [], datagramFrom 0x0A000002 3 (aodvPktBuildRreq 0 1 0 0x0A000009 0 0x0A000008 5)⟩]

/-- The reply of 10.0.0.9 to 10.0.0.1, from 10.0.0.2. -/
def answerToOwn : Input :=
  ⟨200000, [], [], datagramFrom 0x0A000002 3 (aodvPktBuildRrep 0 0 1 0x0A000009 7 0x0A000001 6000)⟩

/-- **The reply ends the request of 10.0.0.8**, and the own request is retried. -/
theorem answer_deletes_external :
    ¬ ∀ (ip bcast : InAddr) (iface : U32) (is : List Input) (rreq_id : U32) (i : Input),
      AnsweredOnly { run step (mshDataInit ip bcast iface) is with rreq_id := rreq_id } i := by
  intro hall
  have hanswered := hall 0x0A000001 0x0A0000FF 0 mixedRequests 1 answerToOwn
  have hqueue : ∃ pkt ∈ receivedRrep { run step (mshDataInit 0x0A000001 0x0A0000FF 0)
      mixedRequests with rreq_id := 1 } answerToOwn,
      rrepAcceptable { run step (mshDataInit 0x0A000001 0x0A0000FF 0)
        mixedRequests with rreq_id := 1 } pkt = true ∧
      (rrepNext pkt).orig_ip_addr = 0x0A000001 ∧ (rrepNext pkt).dest_ip_addr = 0x0A000009 := by
    decide +kernel
  obtain ⟨pkt, hpkt, hacc, horig, hdest⟩ := hqueue
  have hgone := (hanswered pkt hpkt hacc horig).gone
  rw [hdest] at hgone
  revert hgone
  decide +kernel

end Meshias
