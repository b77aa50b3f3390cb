import Meshias.Flood
import Meshias.Reachable

/-!
# Hop counts

A RREQ travels along a chain of nodes and the reply of the last one travels back.  The handler of
RREPs counts the hop over which the message came and stores the result; the handler of RREQs
counts it too, but stores the hop count that was received.

* `Carries` — an input delivers what the turn of another node has sent.
* `Passage`, `Passage.Along` — the turns of the nodes of the chain.
* `Passage.MeasuresDistance` — the entries for both ends count the links to them.

Principal results: `Passage.Along.rreq`, `Passage.Along.rrep`, `hop_counts`.
-/

set_option autoImplicit false

namespace Meshias

open Machine (run)

variable {s : MshData} {i j : Input} {p : AodvPkt} {type : Int}

/-! ## One turn -/

/-- What a turn sends. -/
def newMessages (s : MshData) (i : Input) : List AodvPkt :=
  (step s i).os.sent.drop s.os.sent.length

theorem newMessage_of_mem (h : Wf s) (hp : p ∈ newMessages s i) : NewMessage s i p := by
  obtain ⟨new, hsent, hall⟩ := newMessage_step h i
  rw [newMessages, hsent, List.drop_left] at hp
  exact hall p hp

/-- The input `j` delivers a message of this type that the turn of `s` on `i` has sent. -/
def Carries (s : MshData) (i j : Input) (type : Int) : Prop :=
  match j.event with
  | .datagram msg => msg.msg_name = some s.ip_addr ∧
      ∃ p ∈ newMessages s i, msg.msg_iov = p.payload ∧ aodvPktGetType p = type
  | _ => False

instance (s : MshData) (i : Input) (type : Int) : (j : Input) → Decidable (Carries s i j type)
  | ⟨_, _, _, .datagram msg⟩ => inferInstanceAs (Decidable (msg.msg_name = some s.ip_addr ∧
      ∃ p ∈ newMessages s i, msg.msg_iov = p.payload ∧ aodvPktGetType p = type))
  | ⟨_, _, _, .packet _⟩ => isFalse id
  | ⟨_, _, _, .alarms⟩ => isFalse id
  | ⟨_, _, _, .cleanStatistics⟩ => isFalse id

theorem Carries.datagram (h : Carries s i j type) :
    ∃ msg p, j.event = .datagram msg ∧ p ∈ newMessages s i ∧ msg.msg_iov = p.payload ∧
      aodvPktGetType p = type := by
  unfold Carries at h
  split at h
  · rename_i msg hevent
    obtain ⟨-, p, hp, hiov, htype⟩ := h
    exact ⟨msg, p, hevent, hp, hiov, htype⟩
  · exact h.elim

theorem type_of_iov {msg : Msghdr} (hiov : msg.msg_iov = p.payload)
    (htype : aodvPktGetType p = type) : aodvPktGetType msg.pkt = type := by
  rw [← htype, aodvPktGetType, aodvPktGetType, (pkt_eq msg).1, hiov]

/-- A turn on the datagram of a RREQ that sends something is the turn of a new RREQ. -/
theorem rreq_turn (h : Wf s) {msg : Msghdr} (hevent : i.event = .datagram msg)
    (htype : aodvPktGetType msg.pkt = AODV_RREQ) (hp : p ∈ newMessages s i) :
    ∃ stats, step s i = aodvProcessRreq ((s.arrive i).withStats stats) msg.pkt ∧
      rreqDuplicate s msg.pkt = false := by
  cases turn s i with
  | rreq pkt stats hpkt hstep =>
    obtain rfl := pkt_of_received hevent (receivedRreq_eq_some.1 hpkt).1
    refine ⟨stats, hstep, Bool.eq_false_iff.2 fun hdup => ?_⟩
    have hwf := (h.arrive i).withStats stats
    obtain ⟨o, heq⟩ := aodvProcessRreq_eq msg.pkt hwf
    rw [rreqDuplicate_arrive, if_pos hdup] at heq
    rw [newMessages, hstep, heq, (onlyTable_rreqArrived msg.pkt hwf).sent] at hp
    simp at hp
  | rrep pkt stats hpkt hstep =>
    obtain ⟨hrec, hrrep⟩ := receivedRrep_eq_some.1 hpkt
    obtain rfl := pkt_of_received hevent hrec
    exact absurd (htype.symm.trans hrrep) rreq_ne_rrep
  | packet nfa hc _ => rw [hevent] at hc; cases hc
  | alarms hc _ => rw [hevent] at hc; cases hc
  | quiet stats _ _ _ _ hstep =>
    rw [newMessages, hstep] at hp
    simp at hp

/-- The entry of the originator after a new RREQ has the hop count that came with it. -/
theorem hop_count_rreq (h : Wf s) {pkt : AodvPkt} (hnew : rreqDuplicate s pkt = false)
    {x : RouteInfo}
    (hx : (aodvProcessRreq s pkt).info (rreqOfPayload pkt.payload).orig_ip_addr = some x) :
    x.hop_count = (rreqOfPayload pkt.payload).hop_count := by
  rw [info_aodvProcessRreq pkt h, hnew, if_neg Bool.false_ne_true, info_rreqReversed pkt h,
    if_pos rfl] at hx
  exact field_of_written (·.hop_count) (fun _ => rfl) rfl hx

/-- The turn of a RREP, or one that does nothing to the table. -/
theorem rrep_turn {msg : Msghdr} (hevent : i.event = .datagram msg)
    (htype : aodvPktGetType msg.pkt = AODV_RREP) :
    (∃ stats, step s i = aodvProcessRrep ((s.arrive i).withStats stats) msg.pkt) ∨
      ∃ stats, step s i = (s.arrive i).withStats stats := by
  cases turn s i with
  | rreq pkt stats hpkt hstep =>
    obtain ⟨hrec, hrreq⟩ := receivedRreq_eq_some.1 hpkt
    obtain rfl := pkt_of_received hevent hrec
    exact absurd (hrreq.symm.trans htype) rreq_ne_rrep
  | rrep pkt stats hpkt hstep =>
    obtain rfl := pkt_of_received hevent (receivedRrep_eq_some.1 hpkt).1
    exact .inl ⟨stats, hstep⟩
  | packet nfa hc _ => rw [hevent] at hc; cases hc
  | alarms hc _ => rw [hevent] at hc; cases hc
  | quiet stats _ _ _ _ hstep => exact .inr ⟨stats, hstep⟩

/-- A RREP that is passed on was accepted. -/
theorem acceptable_of_sent (h : Wf s) {pkt : AodvPkt}
    (hp : p ∈ (aodvProcessRrep s pkt).os.sent.drop s.os.sent.length) :
    rrepAcceptable s pkt = true := by
  by_contra hrej
  rw [← rrepAccepted_eq h] at hrej
  cases rrepProcessed pkt h with
  | refused _ ht =>
    rw [ht, (onlyTable_rreqArrived pkt h).sent] at hp
    simp at hp
  | ended hacc _ _ => exact hrej hacc
  | forwarded hacc _ _ _ _ => exact hrej hacc

/-- The entry of the destination after an accepted RREP has the hop count that came with it, and
    one more. -/
theorem hop_count_rrep (h : Wf s) {pkt : AodvPkt} (hacc : rrepAcceptable s pkt = true)
    {x : RouteInfo}
    (hx : (aodvProcessRrep s pkt).info (rrepOfPayload pkt.payload).dest_ip_addr = some x) :
    x.hop_count = (rrepOfPayload pkt.payload).hop_count + 1 := by
  have hd : (rrepOfPayload pkt.payload).dest_ip_addr = (rrepNext pkt).dest_ip_addr := rfl
  rw [info_aodvProcessRrep pkt h, rrepAccepted_eq h, if_pos hacc, info_rrepUpdated pkt h, hd,
    if_pos rfl] at hx
  exact field_of_written (·.hop_count) (fun _ => rfl) rfl hx

/-! ## A passage along a chain -/

/-- The nodes 0, 1, … of a chain, each with the inputs it has had before, the turn in which it
    handles the RREQ (node 0 originates it), the inputs after that, and the turn in which it handles
    the RREP. -/
structure Passage where
  addr : Nat → InAddr
  bcast : InAddr
  iface : Nat → U32
  before : Nat → List Input
  rreqTurn : Nat → Input
  between : Nat → List Input
  rrepTurn : Nat → Input

namespace Passage

variable (c : Passage) {k n : Nat}

def start (n : Nat) : MshData := run step (mshDataInit (c.addr n) c.bcast (c.iface n)) (c.before n)

def afterRreq (n : Nat) : MshData := step (c.start n) (c.rreqTurn n)

def beforeRrep (n : Nat) : MshData := run step (c.afterRreq n) (c.between n)

def afterRrep (n : Nat) : MshData := step (c.beforeRrep n) (c.rrepTurn n)

/-- **The RREQ of node 0 is forwarded up to node `k`**, whose RREP is forwarded back to node 0.  All
    tables are empty before; node 0 does not learn of node `k` in any other way. -/
structure Along (k : Nat) : Prop where
  distinct : ∀ m ≤ k, ∀ n ≤ k, c.addr m = c.addr n → m = n
  empty : ∀ n ≤ k, (c.start n).routing_table = []
  originated : ∀ msg, (c.rreqTurn 0).event ≠ .datagram msg
  forwarded : ∀ n < k, Carries (c.start n) (c.rreqTurn n) (c.rreqTurn (n + 1)) AODV_RREQ
  answered : ∀ n, n + 1 = k → Carries (c.start k) (c.rreqTurn k) (c.rrepTurn n) AODV_RREP
  returned : ∀ n, n + 1 < k →
    Carries (c.beforeRrep (n + 1)) (c.rrepTurn (n + 1)) (c.rrepTurn n) AODV_RREP
  unknown : (c.beforeRrep 0).info (c.addr k) = none

/-- The entries for both ends count the links to them. -/
def MeasuresDistance (k : Nat) : Prop :=
  (∀ n, 1 ≤ n → n ≤ k →
    ((c.afterRreq n).info (c.addr 0)).map (·.hop_count.toNat) = some n) ∧
  ∀ n < k, ((c.afterRrep n).info (c.addr k)).map (·.hop_count.toNat) = some (k - n)

instance (k : Nat) : Decidable (c.MeasuresDistance k) := by
  unfold MeasuresDistance
  have : Decidable (∀ n, 1 ≤ n → n ≤ k →
      ((c.afterRreq n).info (c.addr 0)).map (·.hop_count.toNat) = some n) :=
    decidable_of_iff (∀ n ≤ k, 1 ≤ n →
      ((c.afterRreq n).info (c.addr 0)).map (·.hop_count.toNat) = some n)
      ⟨fun h n h1 hn => h n hn h1, fun h n hn h1 => h n h1 hn⟩
  infer_instance

variable {c}

theorem node_start (n : Nat) : Wf (c.start n) ∧ (c.start n).ip_addr = c.addr n := by
  refine Machine.run_invariant_always (I := fun s => Wf s ∧ s.ip_addr = c.addr n) ?_
    ⟨Wf.init _ _ _, rfl⟩ (c.before n)
  rintro s i ⟨hwf, hip⟩
  exact ⟨hwf.step i, (sameNode_step hwf i).ip_addr.trans hip⟩

theorem node_beforeRrep (n : Nat) : Wf (c.beforeRrep n) ∧ (c.beforeRrep n).ip_addr = c.addr n := by
  obtain ⟨hwf, hip⟩ := c.node_start n
  refine Machine.run_invariant_always (I := fun s => Wf s ∧ s.ip_addr = c.addr n) ?_
    ⟨hwf.step _, (sameNode_step hwf _).ip_addr.trans hip⟩ (c.between n)
  rintro s i ⟨hwf, hip⟩
  exact ⟨hwf.step i, (sameNode_step hwf i).ip_addr.trans hip⟩

/-! ### The way of the RREQ -/

/-- **What node `n` sends of the RREQ**: the hop count is the number of links behind it. -/
theorem Along.rreq_sent (h : c.Along k) (hk : k < 255) (hn : n < k) {p : AodvPkt}
    (hp : p ∈ newMessages (c.start n) (c.rreqTurn n)) (htype : aodvPktGetType p = AODV_RREQ) :
    (rreqOfPayload p.payload).orig_ip_addr = c.addr 0 ∧
      (rreqOfPayload p.payload).hop_count.toNat = n := by
  induction n generalizing p with
  | zero =>
    obtain ⟨hwf, hip⟩ := c.node_start 0
    rcases (newMessage_of_mem hwf hp).of_rreq htype with ⟨-, s, d, k, hs, -, rfl⟩ | ⟨pkt, hpkt, -⟩
    · rw [ownRequest, rreqOfPayload_build]
      exact ⟨hs.trans hip, rfl⟩
    · rw [(received_of_event h.originated).1] at hpkt
      cases hpkt
  | succ n ih =>
    obtain ⟨msg, q, hevent, hq, hiov, hqtype⟩ := (h.forwarded n (by omega)).datagram
    obtain ⟨horig, hhops⟩ := ih (by omega) hq hqtype
    rcases (newMessage_of_mem (c.node_start _).1 hp).of_rreq htype with
      ⟨hno, -⟩ | ⟨pkt, hpkt, -, rfl⟩
    · exact absurd hevent (hno msg)
    · obtain rfl := pkt_of_received hevent (receivedRreq_eq_some.1 hpkt).1
      rw [← hiov, ← (pkt_eq msg).1] at horig hhops
      rw [rreqOfPayload_prepare]
      refine ⟨horig, ?_⟩
      change ((rreqOfPayload msg.pkt.payload).hop_count + 1).toNat = n + 1
      rw [toNat_add_one (by omega), hhops]

/-- Every node of the chain but the first sends something in its turn on the RREQ. -/
theorem Along.sends (h : c.Along k) (hn : n < k) :
    ∃ p, p ∈ newMessages (c.start (n + 1)) (c.rreqTurn (n + 1)) := by
  rcases Nat.lt_or_ge (n + 1) k with hlt | hge
  · obtain ⟨-, p, -, hp, -⟩ := (h.forwarded (n + 1) hlt).datagram
    exact ⟨p, hp⟩
  · obtain rfl : n + 1 = k := by omega
    obtain ⟨-, p, -, hp, -⟩ := (h.answered n rfl).datagram
    exact ⟨p, hp⟩

/-- **The RREQ at node `n + 1`**: the entry of node 0 has one hop less than there are links. -/
theorem Along.rreq (h : c.Along k) (hk : k < 255) (hn : n < k) {x : RouteInfo}
    (hx : (c.afterRreq (n + 1)).info (c.addr 0) = some x) : x.hop_count.toNat = n := by
  obtain ⟨msg, q, hevent, hq, hiov, hqtype⟩ := (h.forwarded n hn).datagram
  obtain ⟨horig, hhops⟩ := h.rreq_sent hk hn hq hqtype
  rw [← hiov, ← (pkt_eq msg).1] at horig hhops
  obtain ⟨p, hp⟩ := h.sends hn
  have hwf := (c.node_start (n + 1)).1
  obtain ⟨stats, hstep, hnew⟩ := rreq_turn hwf hevent (type_of_iov hiov hqtype) hp
  rw [afterRreq, hstep, ← horig] at hx
  rw [hop_count_rreq ((hwf.arrive _).withStats stats) hnew hx, hhops]

/-! ### The way of the RREP -/

/-- **The RREP at node `n`** comes with one hop less than there are links to node `k`. -/
theorem Along.rrep_received (h : c.Along k) (hk : k < 255) (hn : n < k) :
    ∃ msg, (c.rrepTurn n).event = .datagram msg ∧ aodvPktGetType msg.pkt = AODV_RREP ∧
      (rrepOfPayload msg.pkt.payload).dest_ip_addr = c.addr k ∧
      (rrepOfPayload msg.pkt.payload).hop_count.toNat + (n + 1) = k := by
  -- by induction on the links between the nodes `n + 1` and `k`
  obtain ⟨d, hd⟩ := Nat.exists_eq_add_of_le (show n + 1 ≤ k from hn)
  induction d generalizing n with
  | zero =>
    obtain ⟨msg, p, hevent, hp, hiov, htype⟩ := (h.answered n hd.symm).datagram
    obtain ⟨hwf, hip⟩ := c.node_start k
    obtain ⟨msg', q, hevent', -, hiov', hqtype⟩ := (h.forwarded n hn).datagram
    obtain rfl : n + 1 = k := hd.symm
    refine ⟨msg, hevent, type_of_iov hiov htype, ?_⟩
    rcases (newMessage_of_mem hwf hp).of_rrep htype with
      ⟨pkt, seq_num, -, -, hbuilt⟩ | ⟨pkt, hpkt, -⟩
    · rw [(pkt_eq msg).1, hiov, hbuilt, rrepOfPayload_build]
      exact ⟨hip, Nat.zero_add _⟩
    · -- the turn is that of the RREQ
      obtain ⟨hrec, hrrep⟩ := receivedRrep_eq_some.1 hpkt
      obtain rfl := pkt_of_received hevent' hrec
      exact absurd ((type_of_iov hiov' hqtype).symm.trans hrrep) rreq_ne_rrep
  | succ d ih =>
    obtain ⟨msg, p, hevent, hp, hiov, htype⟩ := (h.returned n (by omega)).datagram
    obtain ⟨hwf, -⟩ := c.node_beforeRrep (n + 1)
    obtain ⟨msg', hevent', htype', hdest, hhops⟩ := ih (n := n + 1) (by omega) (by omega)
    refine ⟨msg, hevent, type_of_iov hiov htype, ?_⟩
    rcases (newMessage_of_mem hwf hp).of_rrep htype with ⟨pkt, _, hpkt, -⟩ | ⟨pkt, hpkt, hpass⟩
    · obtain ⟨hrec, hrreq⟩ := receivedRreq_eq_some.1 hpkt
      obtain rfl := pkt_of_received hevent' hrec
      exact absurd (hrreq.symm.trans htype') rreq_ne_rrep
    · obtain rfl := pkt_of_received hevent' (receivedRrep_eq_some.1 hpkt).1
      rw [(pkt_eq msg).1, hiov, hpass, rrepOfPayload_prepare]
      refine ⟨hdest, ?_⟩
      change ((rrepOfPayload msg'.pkt.payload).hop_count + 1).toNat + (n + 1) = k
      rw [toNat_add_one (by omega)]
      omega

/-- **The RREP at node `n`**: the entry of node `k` has as many hops as there are links. -/
theorem Along.rrep (h : c.Along k) (hk : k < 255) (hn : n < k) {x : RouteInfo}
    (hx : (c.afterRrep n).info (c.addr k) = some x) : x.hop_count.toNat = k - n := by
  obtain ⟨msg, hevent, htype, hdest, hhops⟩ := h.rrep_received hk hn
  obtain ⟨hwf, -⟩ := c.node_beforeRrep n
  have hcount : ∀ stats, rrepAcceptable (((c.beforeRrep n).arrive (c.rrepTurn n)).withStats stats)
        msg.pkt = true →
      c.afterRrep n = aodvProcessRrep (((c.beforeRrep n).arrive (c.rrepTurn n)).withStats stats)
        msg.pkt → x.hop_count.toNat = k - n := by
    intro stats hacc hstep
    rw [hstep, ← hdest] at hx
    rw [hop_count_rrep ((hwf.arrive _).withStats stats) hacc hx, toNat_add_one (by omega)]
    omega
  rcases rrep_turn hevent htype with ⟨stats, hstep⟩ | ⟨stats, hstep⟩
  · refine hcount stats ?_ hstep
    cases n with
    | zero =>
      -- the originator has no entry, and accepts
      have hnone : (((c.beforeRrep 0).arrive (c.rrepTurn 0)).withStats stats).info
          (rrepNext msg.pkt).dest_ip_addr = none := by
        change (c.beforeRrep 0).info (rrepOfPayload msg.pkt.payload).dest_ip_addr = none
        rw [hdest]
        exact h.unknown
      rw [rrepAcceptable, hnone]
    | succ n =>
      obtain ⟨-, p, -, hp, -⟩ := (h.returned n hn).datagram
      rw [newMessages, hstep] at hp
      exact acceptable_of_sent ((hwf.arrive _).withStats stats) hp
  · -- a datagram that is discarded changes no entry and sends nothing
    cases n with
    | zero =>
      rw [afterRrep, hstep] at hx
      change (c.beforeRrep 0).info (c.addr k) = some x at hx
      rw [h.unknown] at hx
      cases hx
    | succ n =>
      obtain ⟨-, p, -, hp, -⟩ := (h.returned n hn).datagram
      rw [newMessages, hstep] at hp
      simp at hp

end Passage

/-- **Hop counts.**  Along every chain the entries for the originator of a RREQ have one hop less
    than there are links, and those for its destination as many; so the two directions never count
    alike. -/
theorem hop_counts (c : Passage) (k : Nat) (hk : 1 ≤ k) (hk' : k < 255) (h : c.Along k) :
    ¬ c.MeasuresDistance k ∧
      (∀ n, 1 ≤ n → n ≤ k → ∀ x, (c.afterRreq n).info (c.addr 0) = some x →
        x.hop_count.toNat = n - 1) ∧
      ∀ n < k, ∀ x, (c.afterRrep n).info (c.addr k) = some x → x.hop_count.toNat = k - n := by
  have hrreq : ∀ n, 1 ≤ n → n ≤ k → ∀ x, (c.afterRreq n).info (c.addr 0) = some x →
      x.hop_count.toNat = n - 1 := by
    intro n h1 hn x hx
    obtain ⟨m, rfl⟩ := Nat.exists_eq_add_of_le' h1
    exact h.rreq hk' hn hx
  refine ⟨fun hmeasures => ?_, hrreq, fun n hn x hx => h.rrep hk' hn hx⟩
  -- the first node after the originator is one link away, and has a hop count of 0
  obtain ⟨x, hx, hhops⟩ := Option.map_eq_some_iff.1 (hmeasures.1 1 (Nat.le_refl 1) hk)
  rw [hrreq 1 (Nat.le_refl 1) hk x hx] at hhops
  cases hhops

/-- 10.0.0.1 asks for 10.0.0.3, with 10.0.0.2 in between. -/
def twoLinks : Passage where
  addr n := 0x0A000001 + BitVec.ofNat 32 n
  bcast := 0x0A0000FF
  iface _ := 0
  before _ := []
  rreqTurn n :=
    ⟨0, [], [], match n with
      | 0 => .packet (capturedPacket 1 3 1 0x0A000001 0x0A000003)
      | 1 => datagramFrom 0x0A000001 3 (aodvPktBuildRreq 5 0 1 0x0A000003 0 0x0A000001 1)
      | _ => datagramFrom 0x0A000002 2 (aodvPktBuildRreq 5 1 1 0x0A000003 0 0x0A000001 1)⟩
  between _ := []
  rrepTurn n :=
    ⟨0, [], [], match n with
      | 1 => datagramFrom 0x0A000003 64
          (aodvPktBuildRrep 0 0 0 0x0A000003 1 0x0A000001 MY_ROUTE_TIMEOUT)
      | _ => datagramFrom 0x0A000002 63
          (aodvPktBuildRrep 0 0 1 0x0A000003 1 0x0A000001 MY_ROUTE_TIMEOUT)⟩

theorem along_twoLinks : twoLinks.Along 2 where
  distinct := by decide
  empty := fun n _ => rfl
  originated := fun msg hc => by cases hc
  forwarded := by decide +kernel
  answered := fun n hn => by
    obtain rfl : n = 1 := by omega
    decide +kernel
  returned := fun n hn => by
    obtain rfl : n = 0 := by omega
    decide +kernel
  unknown := by decide +kernel

theorem hop_counts_two_links : ¬ twoLinks.MeasuresDistance 2 :=
  (hop_counts twoLinks 2 (by decide) (by decide) along_twoLinks).1

/-- **The entries do not measure distance**: 10.0.0.2 has its neighbour at 0 hops. -/
theorem distance_not_measured :
    ¬ ∀ (c : Passage) (k : Nat), 1 ≤ k → k < 255 → c.Along k → c.MeasuresDistance k := by
  intro hall
  exact absurd (hall twoLinks 2 (by decide) (by decide) along_twoLinks) (by decide +kernel)

end Meshias
