import Meshias.Network
import Meshias.Sending

/-!
# A flood is bounded by its TTL

A RREQ is originated with hop count 0 and a TTL; each rebroadcast takes one from the TTL and adds
one to the hop count.  Both are bytes, and neither operation is guarded except by the test on the
TTL.

* `NewMessage` — where a message that a turn sends comes from.
* `Delivered` — the condition on one action: a datagram is a message that was sent, with its TTL.
* `Copy` — the copies of an originated RREQ, by the number of rebroadcasts.

Principal results: `newMessage_step`, `flood_bounded`.
-/

set_option autoImplicit false

namespace Meshias

open Machine (run StepsMeet)
open Network (Action)

variable {s : MshData}

/-! ## What a turn sends -/

/-- **Where a message that a turn sends comes from.** -/
inductive NewMessage (s : MshData) (i : Input) (p : AodvPkt) : Prop where
  | own (hevent : ∀ msg, i.event ≠ .datagram msg) (hown : OwnRreq s.ip_addr p)
  | rebroadcast (pkt : AodvPkt) (hpkt : receivedRreq s i = some pkt) (httl : 1 < pkt.ttl)
      (hp : p = ⟨aodvPktPrepareRreq (rreqNext pkt), s.broadcast_addr, pkt.ttl - 1⟩)
  | answer (pkt : AodvPkt) (hpkt : receivedRreq s i = some pkt)
      (hdest : (rreqOfPayload pkt.payload).dest_ip_addr = s.ip_addr) (seq_num : U32)
      (hp : p.payload = aodvPktBuildRrep 0 0 0 s.ip_addr seq_num
        (rreqOfPayload pkt.payload).orig_ip_addr MY_ROUTE_TIMEOUT)
  | passedOn (pkt : AodvPkt) (hpkt : receivedRrep s i = some pkt)
      (hp : p.payload = aodvPktPrepareRrep (rrepNext pkt))

/-- **The messages that a turn sends.** -/
theorem newMessage_step (h : Wf s) (i : Input) : SendsOnly (NewMessage s i) s (step s i) := by
  have hwf := fun stats => (h.arrive i).withStats stats
  cases turn s i with
  | rreq pkt stats hpkt hstep =>
    rw [hstep]
    refine (sendsOnly_aodvProcessRreq (hwf stats) pkt).mono fun p hp => ?_
    cases hp.2 with
    | rebroadcast httl hp => exact .rebroadcast pkt hpkt httl hp
    | answer hdest seq_num hp => exact .answer pkt hpkt hdest seq_num hp
  | rrep pkt stats hpkt hstep =>
    rw [hstep]
    exact (sendsOnly_aodvProcessRrep (hwf stats) pkt).mono fun p hp => .passedOn pkt hpkt hp.2.1
  | packet nfa hev hstep =>
    rw [hstep]
    exact (sendsOnly_managePacket (h.arrive i) nfa).mono fun p hp => .own (by simp [hev]) hp
  | alarms hev hstep =>
    rw [hstep]
    exact (sendsOnly_doAlarmRun (h.arrive i)).mono fun p hp => .own (by simp [hev]) hp
  | quiet stats _ _ _ _ hstep => rw [hstep]; exact .of_sent rfl

/-- What is received is the packet of the datagram. -/
theorem pkt_of_received {i : Input} {msg : Msghdr} {pkt : AodvPkt} (hevent : i.event = .datagram msg)
    (h : s.received i = some pkt) : pkt = msg.pkt := by
  rw [MshData.received, hevent] at h
  dsimp only at h
  split at h
  · exact (Option.some.inj h).symm
  · cases h

/-- A RREQ was originated or passed on. -/
theorem NewMessage.of_rreq {i : Input} {p : AodvPkt} (h : NewMessage s i p)
    (htype : aodvPktGetType p = AODV_RREQ) :
    ((∀ msg, i.event ≠ .datagram msg) ∧ OwnRreq s.ip_addr p) ∨
      ∃ pkt, receivedRreq s i = some pkt ∧ 1 < pkt.ttl ∧
        p = ⟨aodvPktPrepareRreq (rreqNext pkt), s.broadcast_addr, pkt.ttl - 1⟩ := by
  cases h with
  | own hevent hown => exact .inl ⟨hevent, hown⟩
  | rebroadcast pkt hpkt httl hp => exact .inr ⟨pkt, hpkt, httl, hp⟩
  | answer pkt _ _ seq_num hp =>
    have hrrep : aodvPktGetType p = AODV_RREP := by
      rw [aodvPktGetType, hp]
      exact type_build_rrep _ _ _ _ _ _ _
    exact absurd (htype.symm.trans hrrep) rreq_ne_rrep
  | passedOn pkt hpkt hp =>
    have hrrep := type_prepare_rrepNext pkt
    rw [← hp, (receivedRrep_eq_some.1 hpkt).2] at hrrep
    exact absurd (htype.symm.trans hrrep) rreq_ne_rrep

/-- A RREP was the answer to a RREQ, or passed on. -/
theorem NewMessage.of_rrep {i : Input} {p : AodvPkt} (h : NewMessage s i p)
    (htype : aodvPktGetType p = AODV_RREP) :
    (∃ pkt seq_num, receivedRreq s i = some pkt ∧
      (rreqOfPayload pkt.payload).dest_ip_addr = s.ip_addr ∧
      p.payload = aodvPktBuildRrep 0 0 0 s.ip_addr seq_num
        (rreqOfPayload pkt.payload).orig_ip_addr MY_ROUTE_TIMEOUT) ∨
      ∃ pkt, receivedRrep s i = some pkt ∧ p.payload = aodvPktPrepareRrep (rrepNext pkt) := by
  cases h with
  | own _ hown =>
    exact absurd (hown.type_orig.1.symm.trans htype) rreq_ne_rrep
  | rebroadcast pkt hpkt _ hp =>
    have hrreq := type_prepare_rreqNext pkt
    rw [(receivedRreq_eq_some.1 hpkt).2] at hrreq
    rw [hp] at htype
    exact absurd (hrreq.symm.trans htype) rreq_ne_rrep
  | answer pkt hpkt hdest seq_num hp => exact .inl ⟨pkt, seq_num, hpkt, hdest, hp⟩
  | passedOn pkt hpkt hp => exact .inr ⟨pkt, hpkt, hp⟩

/-! ## Copies -/

section Copies

variable {ι : Type} [DecidableEq ι]

/-- The message was sent by a node, to this one or to all, and has the TTL it was sent with. -/
def DeliveredWhole (n : ι → MshData) (k m : ι) (msg : Msghdr) : Prop :=
  msg.msg_name = some (n m).ip_addr ∧ ∃ p ∈ (n m).os.sent, msg.msg_iov = p.payload ∧
    msg.pkt.ttl = p.ttl ∧ (p.address = (n k).ip_addr ∨ p.address = (n m).broadcast_addr)

instance (n : ι → MshData) (k m : ι) (msg : Msghdr) : Decidable (DeliveredWhole n k m msg) := by
  unfold DeliveredWhole; infer_instance

/-- The condition on one action: a datagram is a message that was sent, with its TTL. -/
def Delivered (n : ι → MshData) (a : Action ι Input) : Prop :=
  match a.input.event with
  | .datagram msg => ∃ m, DeliveredWhole n a.node m msg
  | _ => True

instance [Fintype ι] (n : ι → MshData) : (a : Action ι Input) → Decidable (Delivered n a)
  | ⟨k, ⟨_, _, _, .datagram msg⟩⟩ => inferInstanceAs (Decidable (∃ m, DeliveredWhole n k m msg))
  | ⟨_, ⟨_, _, _, .packet _⟩⟩ => isTrue trivial
  | ⟨_, ⟨_, _, _, .alarms⟩⟩ => isTrue trivial
  | ⟨_, ⟨_, _, _, .cleanStatistics⟩⟩ => isTrue trivial

/-- What the node of an action sends by it. -/
def newlySent (n : ι → MshData) (a : Action ι Input) : List AodvPkt :=
  (netStep n a a.node).os.sent.drop (n a.node).os.sent.length

/-- **The copies of an originated RREQ** `o` in a run of a network, by the number of rebroadcasts.
    A node originates a RREQ when it handles a data packet or runs its alarms; it rebroadcasts the
    RREQ of a datagram. -/
inductive Copy (n₀ : ι → MshData) (as : List (Action ι Input)) (o : AodvPkt) :
    Nat → AodvPkt → Prop where
  | originated (pre post : List (Action ι Input)) (a : Action ι Input)
      (has : as = pre ++ a :: post) (hevent : ∀ msg, a.input.event ≠ .datagram msg)
      (hnew : o ∈ newlySent (run netStep n₀ pre) a) (htype : aodvPktGetType o = AODV_RREQ) :
      Copy n₀ as o 0 o
  | rebroadcast (j : Nat) (p q : AodvPkt) (hp : Copy n₀ as o j p)
      (pre post : List (Action ι Input)) (a : Action ι Input) (has : as = pre ++ a :: post)
      (msg : Msghdr) (hevent : a.input.event = .datagram msg) (hpayload : msg.msg_iov = p.payload)
      (httl : msg.pkt.ttl = p.ttl) (hnew : q ∈ newlySent (run netStep n₀ pre) a)
      (htype : aodvPktGetType q = AODV_RREQ) : Copy n₀ as o (j + 1) q

variable {n₀ : ι → MshData} {as : List (Action ι Input)} {o q : AodvPkt} {j : Nat}

theorem Copy.snoc (h : Copy n₀ as o j q) (a : Action ι Input) : Copy n₀ (as ++ [a]) o j q := by
  induction h with
  | originated pre post b has hevent hnew htype =>
    exact .originated pre (post ++ [a]) b (by rw [has]; simp) hevent hnew htype
  | rebroadcast j p q _ pre post b has msg hevent hpayload httl hnew htype ih =>
    exact .rebroadcast j p q ih pre (post ++ [a]) b (by rw [has]; simp) msg hevent hpayload httl
      hnew htype

theorem newMessage_of_newlySent {n : ι → MshData} {a : Action ι Input} (h : Wf (n a.node))
    (hnew : q ∈ newlySent n a) : NewMessage (n a.node) a.input q := by
  obtain ⟨new, hsent, hall⟩ := newMessage_step h a.input
  rw [newlySent, netStep, Network.act_same, hsent, List.drop_left] at hnew
  exact hall q hnew

/-- What the counters of a RREQ say. -/
structure Counted (t j : Nat) (q : AodvPkt) : Prop where
  hops : (rreqOfPayload q.payload).hop_count.toNat = j
  total : j + q.ttl.toNat = t
  alive : 1 ≤ q.ttl.toNat

/-- The TTL of the `k`-th RREQ: the retries never come to `NET_DIAMETER`. -/
theorem ring_ttl {k : Nat} (hk : k ≤ RREQ_RETRIES.toNat) :
    ((expandingRingSearchTtl 0 k).setWidth 8).toNat = TTL_START.toNat + k * TTL_INCREMENT.toNat := by
  have hk : k ≤ 2 := hk
  interval_cases k
  · decide
  · decide
  · decide

/-- The TTL of an originated RREQ is that of the expanding ring. -/
theorem OwnRreq.counted {ip : InAddr} (h : OwnRreq ip q) : Counted q.ttl.toNat 0 q := by
  obtain ⟨s, d, k, -, hk, rfl⟩ := h
  refine ⟨by rw [ownRequest, rreqOfPayload_build]; rfl, Nat.zero_add _, ?_⟩
  rw [ownRequest, ring_ttl hk]
  have hstart : 1 ≤ TTL_START.toNat := by decide
  omega

/-- A hop is counted without a wrap. -/
theorem toNat_add_one {b : U8} (h : b.toNat + 1 < 256) : (b + 1).toNat = b.toNat + 1 := by
  rw [BitVec.toNat_add]
  exact Nat.mod_eq_of_lt h

/-- A TTL above one is lowered without a wrap. -/
theorem toNat_sub_one {b : U8} (h : 1 < b.toNat) : (b - 1).toNat = b.toNat - 1 := by
  have hle : (1 : U8) ≤ b := Nat.le_of_lt h
  rw [BitVec.toNat_sub_of_le hle]
  rfl

/-- **One rebroadcast** takes one from the TTL and adds one to the hop count, without a wrap. -/
theorem Counted.passed {t : Nat} {pkt : AodvPkt} {bcast : InAddr} (h : Counted t j pkt)
    (ht : t < 256) (httl : 1 < pkt.ttl) :
    Counted t (j + 1) ⟨aodvPktPrepareRreq (rreqNext pkt), bcast, pkt.ttl - 1⟩ := by
  obtain ⟨hhops, htotal, -⟩ := h
  have hlt : 1 < pkt.ttl.toNat := httl
  have hminus := toNat_sub_one hlt
  have hplus : ((rreqOfPayload pkt.payload).hop_count + 1).toNat = j + 1 := by
    rw [toNat_add_one (by omega), hhops]
  refine ⟨?_, ?_, ?_⟩
  · rw [rreqOfPayload_prepare]
    exact hplus
  · dsimp only
    omega
  · dsimp only
    omega

/-- **Every copy has the hop count and the TTL its rebroadcasts have left.** -/
theorem Copy.counted (hwf : ∀ pre k, Wf (run netStep n₀ pre k)) (h : Copy n₀ as o j q) :
    Counted o.ttl.toNat j q := by
  induction h with
  | originated pre post a has hevent hnew htype =>
    rcases (newMessage_of_newlySent (hwf pre a.node) hnew).of_rreq htype with
      ⟨-, hown⟩ | ⟨pkt, hpkt, -⟩
    · exact hown.counted
    · rw [(received_of_event hevent).1] at hpkt
      cases hpkt
  | rebroadcast j p q _ pre post a has msg hevent hpayload httl hnew htype ih =>
    rcases (newMessage_of_newlySent (hwf pre a.node) hnew).of_rreq htype with
      ⟨hnot, -⟩ | ⟨pkt, hpkt, hlt, hq⟩
    · exact absurd hevent (hnot msg)
    · have hmsg := pkt_of_received hevent (receivedRreq_eq_some.1 hpkt).1
      have hsame : Counted o.ttl.toNat j pkt := by
        rw [hmsg]
        refine ⟨?_, ?_, ?_⟩
        · rw [(pkt_eq msg).1, hpayload]
          exact ih.hops
        · rw [httl]
          exact ih.total
        · rw [httl]
          exact ih.alive
      rw [hq]
      exact hsame.passed o.ttl.isLt hlt

/-- **Every RREQ in flight is a copy of one that was originated.** -/
theorem copy_of_sent (hwf : ∀ pre k, Wf (run netStep n₀ pre k)) (hstart : ∀ k, (n₀ k).os.sent = [])
    (has : StepsMeet netStep Delivered n₀ as) {k : ι} (hq : q ∈ (run netStep n₀ as k).os.sent)
    (htype : aodvPktGetType q = AODV_RREQ) : ∃ o j, Copy n₀ as o j q := by
  induction as using List.reverseRecOn generalizing k q with
  | nil =>
    rw [Machine.run_nil, hstart] at hq
    cases hq
  | append_singleton as a ih =>
    obtain ⟨hbefore, hlast, -⟩ := (Machine.stepsMeet_append n₀ as [a]).1 has
    have hold : ∀ {k : ι} {p : AodvPkt}, p ∈ (run netStep n₀ as k).os.sent →
        aodvPktGetType p = AODV_RREQ → ∃ o j, Copy n₀ (as ++ [a]) o j p := by
      intro k p hp hptype
      obtain ⟨o, j, hcopy⟩ := ih hbefore hp hptype
      exact ⟨o, j, hcopy.snoc a⟩
    rw [Machine.run_append] at hq
    change q ∈ (netStep (run netStep n₀ as) a k).os.sent at hq
    by_cases hk : k = a.node
    · subst hk
      obtain ⟨new, hsent, hall⟩ := newMessage_step (hwf as a.node) a.input
      have hnew : newlySent (run netStep n₀ as) a = new := by
        rw [newlySent, netStep, Network.act_same, hsent, List.drop_left]
      rw [netStep, Network.act_same, hsent] at hq
      rcases List.mem_append.1 hq with hq | hq
      · exact hold hq htype
      · rcases (hall q hq).of_rreq htype with ⟨hevent, -⟩ | ⟨pkt, hpkt, -⟩
        · exact ⟨q, 0, .originated as [] a rfl hevent (by rw [hnew]; exact hq) htype⟩
        · -- the RREQ is the copy of one that was delivered
          obtain ⟨hrec, hptype⟩ := receivedRreq_eq_some.1 hpkt
          rw [MshData.received] at hrec
          rw [Delivered] at hlast
          split at hrec
          · rename_i msg hevent
            rw [hevent] at hlast
            obtain ⟨m, -, p, hp, hpayload, httl, -⟩ := hlast
            split at hrec
            · obtain rfl := Option.some.inj hrec
              have hpt : aodvPktGetType p = AODV_RREQ := by
                rw [← hptype, aodvPktGetType, aodvPktGetType, (pkt_eq msg).1,
                  hpayload]
              obtain ⟨o, j, hcopy⟩ := hold hp hpt
              exact ⟨o, j + 1, .rebroadcast j p q hcopy as [] a rfl msg hevent hpayload httl
                (by rw [hnew]; exact hq) htype⟩
            · cases hrec
          · cases hrec
    · rw [netStep, Network.act_other _ hk] at hq
      exact hold hq htype

/-- **A flood is bounded by its TTL.**  When every datagram is a message that was sent, with the TTL
    it was sent with, every RREQ in flight is a copy of an originated one; and every copy of a RREQ
    originated with TTL `t` has a TTL of at least 1, a hop count that with the TTL makes `t`, and
    fewer than `t` rebroadcasts behind it. -/
theorem flood_bounded (addr : ι → InAddr) (bcast : InAddr) (iface : ι → U32)
    (as : List (Action ι Input)) (has : StepsMeet netStep Delivered (netInit addr bcast iface) as) :
    (∀ k, ∀ q ∈ (run netStep (netInit addr bcast iface) as k).os.sent,
      aodvPktGetType q = AODV_RREQ → ∃ o j, Copy (netInit addr bcast iface) as o j q) ∧
    ∀ o j q, Copy (netInit addr bcast iface) as o j q →
      1 ≤ q.ttl.toNat ∧
        (rreqOfPayload q.payload).hop_count.toNat + q.ttl.toNat = o.ttl.toNat ∧
        (rreqOfPayload q.payload).hop_count.toNat = j ∧ j < o.ttl.toNat := by
  have hwf : ∀ pre k, Wf (run netStep (netInit addr bcast iface) pre k) := by
    intro pre k
    rw [netStep, Network.run_apply]
    exact wf_run (addr k) bcast (iface k) _
  refine ⟨fun k q hq htype => copy_of_sent hwf (fun _ => rfl) has hq htype, fun o j q hcopy => ?_⟩
  obtain ⟨hhops, htotal, halive⟩ := hcopy.counted hwf
  exact ⟨halive, by rw [hhops, htotal], hhops, by omega⟩

end Copies

/-- The RREQ of 10.0.0.1 for 10.0.0.3 reaches 10.0.0.2, which passes it on. -/
def floodScript : List (Action (Fin 4) Input) :=
  script (smallNet 4) [.packet 0 0 (capturedPacket 1 3 1 (nodeAddr (0 : Fin 4)) (nodeAddr (2 : Fin 4))),
    .deliver 1 0 0 0 3]

/-- What it passes on. -/
def floodCopy : AodvPkt :=
  (run netStep (smallNet 4) floodScript 1).os.sent.headD ⟨[], 0, 0⟩

theorem flood_bounded_script : ∃ o j, Copy (smallNet 4) floodScript o j floodCopy :=
  (flood_bounded nodeAddr 0x0A0000FF (fun _ => 0) floodScript (by decide +kernel)).1 1 floodCopy
    (by decide +kernel) (by decide +kernel)

end Meshias
