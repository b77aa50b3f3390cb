import Meshias.Prefixes

/-!
# The order in which waiting packets are accepted

Runs of the three operations on the packet queue, with any routes and destinations.

* `packetOp` — the operations as a machine on the daemon's state.
* `Numbered` — the state with what the code does not record: the number of each waiting packet in
  the order of the pushes, and which packets `packets_fifo_process_route` has accepted so far.
* `InOrder`, `StepExact` — first in, first out; what one operation accepts and leaves.

Principal result: `firstInFirstOut_iff`.
-/

set_option autoImplicit false

namespace Meshias

open Machine

inductive PacketOp where
  | push (id : U32) (dest : InAddr)
  | processRoute (route : MshRoute)
  | dropPackets (dest : InAddr)
  deriving DecidableEq, Repr

def packetOp (s : MshData) : PacketOp → MshData
  | .push id dest => packetsFifoPush s id dest
  | .processRoute route => packetsFifoProcessRoute s route
  | .dropPackets dest => packetsFifoDropPackets s dest

/-- The route matches the destination of the packet. -/
def PacketsFifo.MatchedBy (e : PacketsFifo) (route : MshRoute) : Prop :=
  route.Matches { self := 0, dst_ip := e.dest }

instance (e : PacketsFifo) (route : MshRoute) : Decidable (e.MatchedBy route) :=
  inferInstanceAs (Decidable (route.Matches _))

/-- The destination decides. -/
theorem matchedBy_congr {e e' : PacketsFifo} {route : MshRoute} (h : e.dest = e'.dest) :
    e.MatchedBy route ↔ e'.MatchedBy route := by
  rw [PacketsFifo.MatchedBy, PacketsFifo.MatchedBy, h]

theorem packetsFifoProcessRoute_eq (s : MshData) (route : MshRoute) :
    packetsFifoProcessRoute s route =
      packetObjAcceptWhere s (fun e => decide (e.MatchedBy route)) := by
  rw [packetsFifoProcessRoute]
  congr 1
  funext e
  rw [Bool.eq_iff_iff, decide_eq_true_iff, Bool.not_eq_true']
  rfl

/-- The ids the kernel was told to accept, first accepted first. -/
def acceptedIds (s : MshData) : List U32 :=
  (s.os.verdicts.filter (fun v => v.2 = .NF_ACCEPT)).map Prod.fst

theorem acceptedIds_acceptWhere (s : MshData) (p : PacketsFifo → Bool) :
    acceptedIds (packetObjAcceptWhere s p) =
      acceptedIds s ++ (s.packets_queue.filter p).map (·.id) := by
  simp [acceptedIds, packetObjAcceptWhere, List.filter_append, List.filter_map, Function.comp_def]

theorem acceptedIds_dropWhere (s : MshData) (p : PacketsFifo → Bool) :
    acceptedIds (packetObjDropWhere s p) = acceptedIds s := by
  simp [acceptedIds, packetObjDropWhere, List.filter_append, List.filter_map, Function.comp_def]

/-! ## Numbered packets -/

/-- A packet with the number of its push. -/
abbrev NumberedPacket := Nat × PacketsFifo

theorem map_snd_filter (l : List NumberedPacket) (p : PacketsFifo → Bool) :
    (l.filter (fun e => p e.2)).map Prod.snd = (l.map Prod.snd).filter p := by
  rw [List.filter_map]
  rfl

structure Numbered where
  data : MshData
  pushed : Nat
  waiting : List NumberedPacket
  accepted : List NumberedPacket
  waiting_eq : waiting.map Prod.snd = data.packets_queue
  accepted_eq : (accepted.map Prod.snd).map (·.id) = acceptedIds data

def Numbered.init (ip bcast : InAddr) (iface : U32) : Numbered where
  data := mshDataInit ip bcast iface
  pushed := 0
  waiting := []
  accepted := []
  waiting_eq := rfl
  accepted_eq := rfl

def Numbered.push (c : Numbered) (id : U32) (dest : InAddr) : Numbered where
  data := packetsFifoPush c.data id dest
  pushed := c.pushed + 1
  waiting := (c.pushed, ⟨id, dest⟩) :: c.waiting
  accepted := c.accepted
  waiting_eq := congrArg (_ :: ·) c.waiting_eq
  accepted_eq := c.accepted_eq

def Numbered.acceptWhere (c : Numbered) (p : PacketsFifo → Bool) : Numbered where
  data := packetObjAcceptWhere c.data p
  pushed := c.pushed
  waiting := c.waiting.filter (fun e => !p e.2)
  accepted := c.accepted ++ c.waiting.filter (fun e => p e.2)
  waiting_eq := by
    rw [map_snd_filter c.waiting (fun e => !p e), c.waiting_eq, packetObjAcceptWhere_packets_queue]
  accepted_eq := by
    rw [List.map_append, List.map_append, c.accepted_eq, map_snd_filter, c.waiting_eq,
      acceptedIds_acceptWhere]

def Numbered.dropWhere (c : Numbered) (p : PacketsFifo → Bool) : Numbered where
  data := packetObjDropWhere c.data p
  pushed := c.pushed
  waiting := c.waiting.filter (fun e => !p e.2)
  accepted := c.accepted
  waiting_eq := by
    rw [map_snd_filter c.waiting (fun e => !p e), c.waiting_eq, packetObjDropWhere_packets_queue]
  accepted_eq := by rw [c.accepted_eq, acceptedIds_dropWhere]

def Numbered.step (c : Numbered) : PacketOp → Numbered
  | .push id dest => c.push id dest
  | .processRoute route => c.acceptWhere (fun e => e.MatchedBy route)
  | .dropPackets dest => c.dropWhere (fun e => e.dest = dest)

theorem Numbered.data_step (c : Numbered) (op : PacketOp) :
    (c.step op).data = packetOp c.data op := by
  cases op with
  | push id dest => rfl
  | processRoute route => exact (packetsFifoProcessRoute_eq c.data route).symm
  | dropPackets dest => rfl

/-! ## First in, first out -/

/-- Of two accepted packets for one destination the one that was pushed first was accepted
    first. -/
def InOrder (accepted : List NumberedPacket) : Prop :=
  accepted.Pairwise (fun e e' => e.2.dest = e'.2.dest → e.1 < e'.1)

/-- `packets_fifo_process_route`, and no other operation, accepts exactly the waiting packets that
    the route matches, and the packets that stay keep their order. -/
structure StepExact (c : Numbered) (op : PacketOp) : Prop where
  accepts : ∀ e, e ∈ (c.step op).accepted ↔
    e ∈ c.accepted ∨ ∃ route, op = .processRoute route ∧ e ∈ c.waiting ∧ e.2.MatchedBy route
  keeps : ((c.step op).waiting.filter (fun e => e.1 < c.pushed)).Sublist c.waiting

/-- No two of the waiting packets that the route matches have the same destination. -/
def OneEach (s : MshData) : PacketOp → Prop
  | .processRoute route => ((s.packets_queue.filter (fun e => e.MatchedBy route)).map (·.dest)).Nodup
  | _ => True

instance (s : MshData) (op : PacketOp) : Decidable (OneEach s op) := by
  cases op <;> unfold OneEach <;> infer_instance

/-- The numbers of the waiting packets: newest first, and above those of the accepted packets for
    the same destination. -/
structure Numbered.Ordered (c : Numbered) : Prop where
  lt_pushed : ∀ e ∈ c.accepted ++ c.waiting, e.1 < c.pushed
  newest_first : c.waiting.Pairwise (fun e e' => e'.1 < e.1)
  accepted_lt : ∀ e ∈ c.accepted, ∀ e' ∈ c.waiting, e.2.dest = e'.2.dest → e.1 < e'.1

variable {c : Numbered}

theorem Numbered.Ordered.push (h : c.Ordered) (id : U32) (dest : InAddr) :
    (c.push id dest).Ordered where
  lt_pushed e he := by
    have hcases : e ∈ c.accepted ++ c.waiting ∨ e = (c.pushed, ⟨id, dest⟩) := by
      simp only [Numbered.push, List.mem_append, List.mem_cons] at he ⊢
      tauto
    show e.1 < c.pushed + 1
    rcases hcases with he | rfl
    · exact Nat.lt_succ_of_lt (h.lt_pushed e he)
    · exact Nat.lt_succ_self c.pushed
  newest_first :=
    List.pairwise_cons.2
      ⟨fun e he => h.lt_pushed e (List.mem_append_right _ he), h.newest_first⟩
  accepted_lt e he e' he' hdest := by
    rcases List.mem_cons.1 he' with rfl | he'
    · exact h.lt_pushed e (List.mem_append_left _ he)
    · exact h.accepted_lt e he e' he' hdest

/-- A route matches all waiting packets for a destination or none of them. -/
theorem Numbered.Ordered.acceptMatched (h : c.Ordered) (route : MshRoute) :
    (c.acceptWhere (fun e => e.MatchedBy route)).Ordered where
  lt_pushed e he := by
    refine h.lt_pushed e ?_
    simp only [acceptWhere, List.mem_append, List.mem_filter] at he ⊢
    tauto
  newest_first := h.newest_first.filter _
  accepted_lt e he e' he' hdest := by
    obtain ⟨he', hnot⟩ := List.mem_filter.1 he'
    rcases List.mem_append.1 he with he | he
    · exact h.accepted_lt e he e' he' hdest
    · have hmatch : e.2.MatchedBy route := by simpa using (List.mem_filter.1 he).2
      have hnot : ¬ e'.2.MatchedBy route := by simpa using hnot
      exact absurd ((matchedBy_congr hdest).1 hmatch) hnot

theorem Numbered.Ordered.dropWhere (h : c.Ordered) (p : PacketsFifo → Bool) :
    (c.dropWhere p).Ordered where
  lt_pushed e he := by
    refine h.lt_pushed e ?_
    simp only [Numbered.dropWhere, List.mem_append, List.mem_filter] at he ⊢
    tauto
  newest_first := h.newest_first.filter _
  accepted_lt e he e' he' := h.accepted_lt e he e' (List.mem_filter.1 he').1

theorem Numbered.Ordered.step (h : c.Ordered) (op : PacketOp) : (c.step op).Ordered := by
  cases op with
  | push id dest => exact h.push id dest
  | processRoute route => exact h.acceptMatched route
  | dropPackets dest => exact h.dropWhere _

theorem Numbered.Ordered.init (ip bcast : InAddr) (iface : U32) :
    (Numbered.init ip bcast iface).Ordered := by
  constructor <;> simp [Numbered.init]

theorem stepExact (c : Numbered) (op : PacketOp) : StepExact c op := by
  cases op with
  | push id dest =>
    constructor
    · intro e
      simp [Numbered.step, Numbered.push]
    · show (List.filter _ ((c.pushed, _) :: c.waiting)).Sublist c.waiting
      rw [List.filter_cons_of_neg (by simp)]
      exact List.filter_sublist
  | processRoute route =>
    constructor
    · intro e
      simp [Numbered.step, Numbered.acceptWhere]
    · exact List.filter_sublist.trans List.filter_sublist
  | dropPackets dest =>
    constructor
    · intro e
      simp [Numbered.step, Numbered.dropWhere]
    · exact List.filter_sublist.trans List.filter_sublist

/-- The matched packets are accepted newest first. -/
theorem inOrder_matched (h : c.Ordered) (route : MshRoute) :
    InOrder (c.waiting.filter (fun e => decide (e.2.MatchedBy route))) ↔
      OneEach c.data (.processRoute route) := by
  have hnewest := h.newest_first.filter (fun e => decide (e.2.MatchedBy route))
  show _ ↔ ((c.data.packets_queue.filter (fun e => decide (e.MatchedBy route))).map (·.dest)).Nodup
  unfold InOrder
  rw [← c.waiting_eq, ← map_snd_filter c.waiting (fun e => decide (e.MatchedBy route)),
    List.map_map, List.Nodup, List.pairwise_map]
  constructor
  · intro hord
    refine (hord.and hnewest).imp fun {e e'} hboth hdest => ?_
    exact Nat.lt_asymm (hboth.1 hdest) hboth.2
  · intro hne
    exact hne.imp fun {e e'} hdest heq => absurd heq hdest

theorem inOrder_step (h : c.Ordered) (op : PacketOp) :
    InOrder (c.step op).accepted ↔ InOrder c.accepted ∧ OneEach c.data op := by
  cases op with
  | push id dest => exact (and_iff_left trivial).symm
  | dropPackets dest => exact (and_iff_left trivial).symm
  | processRoute route =>
    rw [← inOrder_matched h route]
    show InOrder (c.accepted ++ c.waiting.filter _) ↔ _
    unfold InOrder
    rw [List.pairwise_append]
    refine ⟨fun hall => ⟨hall.1, hall.2.1⟩, fun hboth => ⟨hboth.1, hboth.2, ?_⟩⟩
    intro e he e' he'
    exact h.accepted_lt e he e' (List.mem_filter.1 he').1

/-- **First in, first out.**  Whatever operations are run: packets for one destination are accepted
    in the order in which they were pushed exactly if no route ever meets two of them. -/
theorem firstInFirstOut_iff (ip bcast : InAddr) (iface : U32) (ops : List PacketOp) :
    (InOrder (run Numbered.step (Numbered.init ip bcast iface) ops).accepted ∧
        StepsMeet Numbered.step StepExact (Numbered.init ip bcast iface) ops) ↔
      StepsMeet packetOp OneEach (mshDataInit ip bcast iface) ops := by
  have hexact : StepsMeet Numbered.step StepExact (Numbered.init ip bcast iface) ops :=
    StepsMeet.of_forall stepExact _ _
  have horder := run_iff (I := Numbered.Ordered) (P := fun c : Numbered => InOrder c.accepted)
    (fun _ op h => h.step op) (fun _ op h => inOrder_step h op)
    (Numbered.Ordered.init ip bcast iface) ops
  rw [and_iff_left hexact, horder]
  exact (and_iff_right List.Pairwise.nil).trans
    (stepsMeet_proj (f := Numbered.data) Numbered.data_step _ ops)

/-- Two packets for 10.0.0.1, and then the route to it. -/
def twoWaiting : List PacketOp :=
  [.push 1 0x0a000001, .push 2 0x0a000001, .processRoute { self := 0, dst_ip := 0x0a000001 }]

/-- The second packet is accepted before the first. -/
theorem last_in_first_out :
    ¬ ∀ (ip bcast : InAddr) (iface : U32) (ops : List PacketOp),
      InOrder (run Numbered.step (Numbered.init ip bcast iface) ops).accepted := by
  intro hall
  have h := hall 1 2 3 twoWaiting
  revert h
  unfold InOrder
  decide

end Meshias
