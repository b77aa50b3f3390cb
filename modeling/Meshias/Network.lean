import Meshias.Lib.Network
import Meshias.Traffic

/-!
# Many nodes

Any number of nodes run the daemon.  A message that some node has sent may reach, at any later
time, any number of times and in any order, the node it is addressed to, or every node if it was
broadcast; it may also never arrive.  What a node has sent is kept in `Os.sent`, so the messages in
flight are among those.

* `Deliverable` — the condition on one action: a received datagram is a message that was sent.
* `MessageFrom` — what that says about a RREQ or RREP that passes the checks.
-/

set_option autoImplicit false

namespace Meshias

open Network (Action act)

variable {ι : Type} [DecidableEq ι]

/-- The nodes in their initial state. -/
def netInit (addr : ι → InAddr) (bcast : InAddr) (iface : ι → U32) (k : ι) : MshData :=
  mshDataInit (addr k) bcast (iface k)

abbrev netStep : (ι → MshData) → Action ι Input → ι → MshData := act step

/-- The datagram was sent by a node, to this one or to all; its TTL is whatever the way left. -/
def DeliveredFrom (n : ι → MshData) (k m : ι) (msg : Msghdr) : Prop :=
  msg.msg_name = some (n m).ip_addr ∧ ∃ pkt ∈ (n m).os.sent, msg.msg_iov = pkt.payload ∧
    (pkt.address = (n k).ip_addr ∨ pkt.address = (n m).broadcast_addr)

instance (n : ι → MshData) (k m : ι) (msg : Msghdr) : Decidable (DeliveredFrom n k m msg) := by
  unfold DeliveredFrom; infer_instance

def Deliverable (n : ι → MshData) (a : Action ι Input) : Prop :=
  match a.input.event with
  | .datagram msg => ∃ m, DeliveredFrom n a.node m msg
  | _ => True

instance [Fintype ι] (n : ι → MshData) (a : Action ι Input) : Decidable (Deliverable n a) := by
  unfold Deliverable; split <;> infer_instance

/-- The packet that was received carries a payload that was sent. -/
structure MessageFrom (n : ι → MshData) (k : ι) (pkt : AodvPkt) (m : ι) : Prop where
  address : pkt.address = (n m).ip_addr
  sent : ∃ p ∈ (n m).os.sent, pkt.payload = p.payload ∧
    (p.address = (n k).ip_addr ∨ p.address = (n m).broadcast_addr)

theorem pkt_eq (msg : Msghdr) :
    msg.pkt.payload = msg.msg_iov ∧ ∀ a, msg.msg_name = some a → msg.pkt.address = a := by
  unfold Msghdr.pkt aodvPktGet
  cases msg.msg_name with
  | none => dsimp only; split <;> exact ⟨rfl, fun a ha => absurd ha (by simp)⟩
  | some name =>
    dsimp only
    split <;> exact ⟨rfl, fun a ha => by simpa using ha⟩

omit [DecidableEq ι] in
theorem messageFrom_of_received {n : ι → MshData} {a : Action ι Input} {pkt : AodvPkt}
    (h : Deliverable n a) (hpkt : (n a.node).received a.input = some pkt) :
    ∃ m, MessageFrom n a.node pkt m := by
  unfold MshData.received at hpkt
  unfold Deliverable at h
  split at hpkt
  · rename_i msg hev
    rw [hev] at h
    obtain ⟨m, hname, p, hp, hiov, hto⟩ := h
    obtain ⟨hpay, haddr⟩ := pkt_eq msg
    split at hpkt
    · obtain rfl := Option.some.inj hpkt
      exact ⟨m, haddr _ hname, p, hp, hpay.trans hiov, hto⟩
    · exact absurd hpkt (by simp)
  · exact absurd hpkt (by simp)

/-! ## Scripts -/

/-- An action that names a message by its sender and its place among what the sender has sent. -/
inductive Stage (ι : Type) where
  | packet (node : ι) (now : Nat) (nfa : NfqData)
  | alarms (node : ι) (now : Nat)
  | deliver (node : ι) (now : Nat) (sender : ι) (index : Nat) (ttl : U8)

def stageAction (n : ι → MshData) : Stage ι → Action ι Input
  | .packet node now nfa => ⟨node, now, [], [], .packet nfa⟩
  | .alarms node now => ⟨node, now, [], [], .alarms⟩
  | .deliver node now sender index ttl =>
    ⟨node, now, [], [], datagramFrom (n sender).ip_addr ttl
      ((n sender).os.sent.getD index ⟨[], 0, 0⟩).payload⟩

/-- The actions of a script, each taken in the state it meets. -/
def script (n : ι → MshData) : List (Stage ι) → List (Action ι Input)
  | [] => []
  | stage :: rest =>
    stageAction n stage :: script (netStep n (stageAction n stage)) rest

/-- The addresses 10.0.0.1, 10.0.0.2, … -/
def nodeAddr {m : Nat} (k : Fin m) : InAddr := 0x0A000001 + BitVec.ofNat 32 k

/-- A network of `m` nodes with these addresses. -/
def smallNet (m : Nat) : Fin m → MshData := netInit nodeAddr 0x0A0000FF (fun _ => 0)

/-! ## What every reachable network keeps -/

/-- The nodes are well formed and keep the addresses they started with. -/
structure NetWf (addr : ι → InAddr) (bcast : InAddr) (n : ι → MshData) : Prop where
  wf : ∀ k, Wf (n k)
  ip_addr : ∀ k, (n k).ip_addr = addr k
  broadcast_addr : ∀ k, (n k).broadcast_addr = bcast

omit [DecidableEq ι] in
theorem NetWf.init (addr : ι → InAddr) (bcast : InAddr) (iface : ι → U32) :
    NetWf addr bcast (netInit addr bcast iface) :=
  ⟨fun k => Wf.init (addr k) bcast (iface k), fun _ => rfl, fun _ => rfl⟩

theorem NetWf.step {addr : ι → InAddr} {bcast : InAddr} {n : ι → MshData}
    (h : NetWf addr bcast n) (a : Action ι Input) : NetWf addr bcast (netStep n a) := by
  have hnode : ∀ k, Wf (netStep n a k) ∧ SameNode (n k) (netStep n a k) := by
    intro k
    by_cases hk : k = a.node
    · subst hk
      rw [netStep, Network.act_same]
      exact ⟨(h.wf _).step a.input, sameNode_step (h.wf _) a.input⟩
    · rw [netStep, Network.act_other n hk]
      exact ⟨h.wf k, .refl _⟩
  exact ⟨fun k => (hnode k).1, fun k => (hnode k).2.ip_addr.trans (h.ip_addr k),
    fun k => (hnode k).2.broadcast_addr.trans (h.broadcast_addr k)⟩

end Meshias
