import Meshias.Hearing

/-!
# A chain of nodes

The nodes 0, …, `k` stand in a line, and each hears its two neighbours.  Nothing is lost: what a
node sends is under way to every neighbour it is addressed to until it is heard.  Delays are
negligible: as long as something is under way, no clock runs out.  The order in which messages are
heard is free, and so are the readings of the clocks and what freed memory holds.

* `ChainNet`, `chainStep`, `Undelayed` — the nodes with the messages under way, and the events.
* `chainAsked` — node 0 has captured a packet, the others are in their initial states.
* `Request`, `Reply` — the RREQs for node `k` and the RREPs that answer them, by the node that sends
  them.
-/

set_option autoImplicit false

namespace Meshias

/-! ## The network -/

/-- A message on its way from a node to a neighbour. -/
structure Flight where
  sender : Nat
  receiver : Nat
  pkt : AodvPkt
  deriving DecidableEq, Repr

/-- The nodes, and the messages under way. -/
structure ChainNet where
  node : Nat → MshData
  air : List Flight

/-- The neighbours of node `m` in the chain 0, …, `k`. -/
def neighbours (k m : Nat) : List Nat :=
  (if 0 < m then [m - 1] else []) ++ (if m < k then [m + 1] else [])

/-- Where a message of node `m` goes: to the neighbours it is addressed to. -/
def flights (k : Nat) (n : Nat → MshData) (m : Nat) (p : AodvPkt) : List Flight :=
  ((neighbours k m).filter fun r =>
    p.address = (n r).ip_addr ∨ p.address = (n m).broadcast_addr).map (⟨m, ·, p⟩)

/-- A turn of node `m`. -/
def ChainNet.turn (k : Nat) (c : ChainNet) (m : Nat) (i : Input) : ChainNet where
  node := netStep c.node ⟨m, i⟩
  air := c.air ++ (newMessages (c.node m) i).flatMap (flights k c.node m)

/-- A message is heard, or a node runs its alarms, whose callbacks may read freed memory. -/
inductive ChainEvent where
  | hear (x : Flight) (now : Nat)
  | ring (m : Nat) (now : Nat) (freed : List (Nat × InAddr))

def chainStep (k : Nat) (c : ChainNet) : ChainEvent → ChainNet
  | .hear x now => { c with air := c.air.erase x }.turn k x.receiver
      (heard now (c.node x.sender).ip_addr x.pkt)
  | .ring m now freed => c.turn k m ⟨now, [], freed, .alarms⟩

/-- What is heard is under way, and alarms run only when nothing is. -/
def Undelayed (k : Nat) (c : ChainNet) : ChainEvent → Prop
  | .hear x _ => x ∈ c.air
  | .ring m _ _ => m ≤ k ∧ c.air = []

instance (k : Nat) (c : ChainNet) (e : ChainEvent) : Decidable (Undelayed k c e) := by
  unfold Undelayed; split <;> infer_instance

/-- Node 0 captures a packet when all nodes are in their initial states. -/
def chainAsked (k : Nat) (addr : Nat → InAddr) (bcast : InAddr) (iface : Nat → U32) (now : Nat)
    (nfa : NfqData) : ChainNet :=
  (ChainNet.mk (netInit addr bcast iface) []).turn k 0 ⟨now, [], [], .packet nfa⟩

/-! ## Nodes and messages -/

section Net

variable {k : Nat} {c : ChainNet} {m : Nat} {i : Input}

theorem node_turn_same : (c.turn k m i).node m = step (c.node m) i :=
  Network.act_same c.node (⟨m, i⟩ : Network.Action Nat Input)

theorem node_turn_other {n : Nat} (h : n ≠ m) : (c.turn k m i).node n = c.node n :=
  Network.act_other c.node h

theorem newMessages_of_sent {s : MshData} {i : Input} {l : List AodvPkt}
    (h : (step s i).os.sent = s.os.sent ++ l) : newMessages s i = l := by
  rw [newMessages, h, List.drop_left]

/-- A turn that sends nothing. -/
theorem air_turn_silent (h : (step (c.node m) i).os.sent = (c.node m).os.sent) :
    (c.turn k m i).air = c.air := by
  rw [ChainNet.turn, newMessages_of_sent (l := []) (by rw [h, List.append_nil])]
  exact List.append_nil _

/-- A turn that sends one message. -/
theorem air_turn_single {p : AodvPkt}
    (h : (step (c.node m) i).os.sent = (c.node m).os.sent ++ [p]) :
    (c.turn k m i).air = c.air ++ flights k c.node m p := by
  rw [ChainNet.turn, newMessages_of_sent h, List.flatMap_singleton]

end Net

section Messages

variable {k : Nat} {addr : Nat → InAddr} {bcast : InAddr} {n : Nat → MshData} {m j : Nat}
  {p : AodvPkt} {a : InAddr}

/-- A broadcast reaches the neighbours. -/
theorem flights_broadcast (hn : NetWf addr bcast n) (hp : p.address = bcast) :
    flights k n m p = (neighbours k m).map (⟨m, ·, p⟩) := by
  rw [flights, List.filter_eq_self.2]
  intro r _
  rw [hn.broadcast_addr, hp]
  simp

/-- A message to one node reaches it alone. -/
theorem flights_unicast (hn : NetWf addr bcast n)
    (hdistinct : ∀ i ≤ k, ∀ j ≤ k, addr i = addr j → i = j) (hbcast : ∀ i ≤ k, addr i ≠ bcast)
    (hm : 1 ≤ m) (hp : p.address = addr (m - 1)) :
    flights k n m p = [⟨m, m - 1, p⟩] := by
  have hto : decide (p.address = (n (m - 1)).ip_addr ∨ p.address = (n m).broadcast_addr) = true := by
    simp [hn.ip_addr, hp]
  rw [flights, neighbours, if_pos (show 0 < m from hm)]
  split
  · rename_i hlt
    have hother : decide (p.address = (n (m + 1)).ip_addr ∨ p.address = (n m).broadcast_addr) =
        false := by
      rw [decide_eq_false_iff_not, hn.ip_addr, hn.broadcast_addr, hp]
      rintro (heq | heq)
      · have := hdistinct _ (by omega) _ (by omega) heq
        omega
      · exact hbcast _ (by omega) heq
    simp only [List.singleton_append, List.filter_cons, List.filter_nil, hto, hother]
    rfl
  · simp only [List.append_nil, List.filter_cons, List.filter_nil, hto]
    rfl

/-- The id of the RREQ of try `j`, and its TTL. -/
def rreqNo (j : Nat) : U32 := BitVec.ofNat 32 (j + 1)

def ringTtl (j : Nat) : Nat := TTL_START.toNat + j * TTL_INCREMENT.toNat

/-- The RREQ of try `j` for node `k`, as node `m` sends it. -/
structure Request (k : Nat) (addr : Nat → InAddr) (bcast : InAddr) (j m : Nat) (p : AodvPkt) :
    Prop where
  isRreq : IsRreq p
  id : p.rreq.rreq_id = rreqNo j
  dest : p.rreq.dest_ip_addr = addr k
  orig : p.rreq.orig_ip_addr = addr 0
  address : p.address = bcast
  ttl : m + p.ttl.toNat = ringTtl j
  alive : 1 ≤ p.ttl.toNat

/-- The RREP of node `k` for node 0, as node `m` sends it. -/
structure Reply (k : Nat) (addr : Nat → InAddr) (m : Nat) (p : AodvPkt) : Prop where
  isRrep : IsRrep p
  dest : p.rrep.dest_ip_addr = addr k
  orig : p.rrep.orig_ip_addr = addr 0
  address : p.address = addr (m - 1)

/-- The request of the node itself. -/
theorem request_own {u : MshData} (hid : u.rreq_id + 1 = rreqNo j) (hip : u.ip_addr = addr 0)
    (hb : u.broadcast_addr = bcast) (hj : j ≤ RREQ_RETRIES.toNat) :
    Request k addr bcast j 0 (ownRequest u (addr k) j) := by
  have hrreq : (ownRequest u (addr k) j).rreq =
      ⟨1, (5 : U8).setWidth 5, 0, 0, 0, u.rreq_id + 1, addr k, 0, u.ip_addr, u.seq_num + 1, []⟩ := by
    rw [AodvPkt.rreq, ownRequest, rreqOfPayload_build]
  have httl : (ownRequest u (addr k) j).ttl.toNat = ringTtl j := ring_ttl hj
  refine ⟨⟨(ownRequest_own u _ _).1, ?_⟩, ?_, ?_, ?_, hb, by rw [httl, Nat.zero_add], ?_⟩
  · rw [ownRequest, aodvPktBuildRreq, length_aodvPktPrepareRreq]
    omega
  · rw [hrreq]
    exact hid
  · rw [hrreq]
  · rw [hrreq]
    exact hip
  · rw [httl]
    have hstart : 1 ≤ TTL_START.toNat := by decide
    rw [ringTtl]
    omega

/-- The request a node further. -/
theorem Request.next (h : Request k addr bcast j m p) (httl : 1 < p.ttl) :
    Request k addr bcast j (m + 1) ⟨aodvPktPrepareRreq (rreqNext (p.heardFrom a)), bcast, p.ttl - 1⟩ := by
  have hlt : 1 < p.ttl.toNat := httl
  have hminus := toNat_sub_one hlt
  have hrreq : (⟨aodvPktPrepareRreq (rreqNext (p.heardFrom a)), bcast, p.ttl - 1⟩ : AodvPkt).rreq =
      rreqNext (p.heardFrom a) := rreqOfPayload_prepare _
  refine ⟨⟨(type_prepare_rreqNext _).trans h.isRreq.type, ?_⟩, ?_, ?_, ?_, rfl, ?_, ?_⟩
  · rw [length_aodvPktPrepareRreq]
    omega
  · rw [hrreq]
    exact h.id
  · rw [hrreq]
    exact h.dest
  · rw [hrreq]
    exact h.orig
  · have := h.ttl
    dsimp only
    omega
  · dsimp only
    omega

/-- The reply of node `k` itself. -/
theorem reply_own (k : Nat) (addr : Nat → InAddr) (seq_num : U32) :
    Reply k addr k ⟨aodvPktBuildRrep 0 0 0 (addr k) seq_num (addr 0) MY_ROUTE_TIMEOUT, addr (k - 1),
      DEFAULT_TTL⟩ := by
  refine ⟨⟨type_build_rrep _ _ _ _ _ _ _, ?_⟩, ?_, ?_, rfl⟩
  · simp [aodvPktBuildRrep, aodvPktPrepareRrep, htonl]
  · rw [AodvPkt.rrep, rrepOfPayload_build]
  · rw [AodvPkt.rrep, rrepOfPayload_build]

/-- The reply a node further. -/
theorem Reply.next (h : Reply k addr (m + 1) p) (ttl : U8) :
    Reply k addr m ⟨aodvPktPrepareRrep (rrepNext (p.heardFrom a)), addr (m - 1), ttl⟩ := by
  have hrrep : (⟨aodvPktPrepareRrep (rrepNext (p.heardFrom a)), addr (m - 1), ttl⟩ : AodvPkt).rrep =
      rrepNext (p.heardFrom a) := rrepOfPayload_prepare _
  refine ⟨⟨(type_prepare_rrepNext _).trans h.isRrep.type, ?_⟩, ?_, ?_, rfl⟩
  · simp [aodvPktPrepareRrep, htonl]
  · rw [hrrep]
    exact h.dest
  · rw [hrrep]
    exact h.orig

end Messages

end Meshias
