import Mathlib.Data.Prod.Lex
import Meshias.Kernel
import Meshias.Network
import Meshias.Sending
import Meshias.Lib.DistanceVector

/-!
# Loop freedom

For a destination, a node points at the next hop of its entry.  The nodes run a distance-vector
protocol: the rank of a route is its sequence number and then its hop count, and a node learns a
rank with every RREQ it handles and every RREP it accepts.  What keeps the routes free of cycles is
that no node takes up what is worse than something it has taken up before.  The code does not see to
that: `aodv_process_rreq` overwrites the entry of the originator in any case, `aodv_process_rrep`
accepts by the hop count alone, and an entry that has expired is forgotten with its number.

* `routeEdge` — the graph of the active entries for a destination.
* `taken` — what a message tells a node about its originator or destination.
* `TakesNothingWorse` — the condition on one step of the network.
* `routes` — the network as distance vectors; `turn_routes` — a step of the network is one of their
  turns.
* `Backed` — a message says less than its sender has learned.

Principal results: `turn_routes`, `loopFree_of_takesNothingWorse`, and `late_request_loops` — a late
copy of a RREQ makes two nodes point at each other.
-/

set_option autoImplicit false

namespace Meshias

open Network (Action)
open Machine (run StepsMeet recording)
open DistanceVector (Routes Ordered LoopFree Fact best)

variable {s : MshData} {ι : Type}

/-! ## The graph -/

/-- For destination `d`, node `k` points at node `m` with an active entry. -/
def routeEdge (addr : ι → InAddr) (n : ι → MshData) (d : InAddr) (k m : ι) : Prop :=
  addr k ≠ d ∧ ∃ r ∈ (n k).routing_table,
    r.dst_ip = d ∧ r.hasFlag RTFLAG_VALID_ENTRY = true ∧ r.next_hop = addr m

instance (addr : ι → InAddr) (n : ι → MshData) (d : InAddr) (k m : ι) :
    Decidable (routeEdge addr n d k m) :=
  have : Decidable (∃ r ∈ (n k).routing_table,
      r.dst_ip = d ∧ r.hasFlag RTFLAG_VALID_ENTRY = true ∧ r.next_hop = addr m) :=
    List.decidableBEx _ _
  inferInstanceAs (Decidable (_ ∧ _))

/-- The same with any entry. -/
def points (addr : ι → InAddr) (n : ι → MshData) (d : InAddr) (k m : ι) : Prop :=
  addr k ≠ d ∧ ∃ j, (n k).info d = some j ∧ j.next_hop = addr m

theorem points_of_routeEdge {addr : ι → InAddr} {n : ι → MshData} (hwf : ∀ k, Wf (n k))
    {d : InAddr} {k m : ι} (h : routeEdge addr n d k m) : points addr n d k m := by
  obtain ⟨hne, r, hr, rfl, -, hnext⟩ := h
  exact ⟨hne, r.info, info_of_entry (entry_of_mem (hwf k) hr), hnext⟩

/-! ## Ranks -/

/-- A newer sequence number is better, and with the same number a smaller hop count. -/
abbrev Rank := ℤ ×ₗ ℕᵒᵈ

def rank (seq_num : U32) (hop_count : U8) : Rank :=
  toLex (seq_num.toInt, OrderDual.toDual hop_count.toNat)

/-- The order of ranks is the one of the code's comparisons. -/
theorem rank_lt_iff {seq seq' : U32} {hop hop' : U8} :
    rank seq hop < rank seq' hop' ↔ seq.slt seq' = true ∨ seq = seq' ∧ hop' < hop := by
  rw [rank, rank, Prod.Lex.toLex_lt_toLex, BitVec.slt_iff_toInt_lt, BitVec.toInt_inj,
    OrderDual.toDual_lt_toDual, BitVec.lt_def]

/-- One hop more is worse, if the 8-bit count does not wrap. -/
theorem rank_add_one_lt (seq : U32) {hop : U8} (h : hop + 1 ≠ 0) :
    rank seq (hop + 1) < rank seq hop := by
  refine rank_lt_iff.2 (.inr ⟨rfl, ?_⟩)
  bv_omega

/-! ## What a node takes from a message -/

/-- Whom a message is about, its sequence number, the hop count that the entry gets and the one
    that the message gets when it is passed on. -/
structure Taken where
  dst : InAddr
  seq_num : U32
  hop_count : U8
  passed_count : U8
  deriving DecidableEq, Repr

def Taken.rank (x : Taken) : Rank := Meshias.rank x.seq_num x.hop_count

/-- What is taken from a RREQ that is no duplicate, and from a RREP that is accepted. -/
def taken (s : MshData) (i : Input) : Option Taken :=
  match receivedRreq s i, receivedRrep s i with
  | some pkt, _ =>
    let rreq := rreqOfPayload pkt.payload
    if rreqDuplicate s pkt then none
    else some ⟨rreq.orig_ip_addr, rreq.orig_seq_num, rreq.hop_count, rreq.hop_count + 1⟩
  | none, some pkt =>
    let rrep := rrepNext pkt
    if rrepAcceptable s pkt then
      some ⟨rrep.dest_ip_addr, rrep.dest_seq_num, rrep.hop_count, rrep.hop_count⟩
    else none
  | none, none => none

/-- The history of a network: what every node has taken. -/
def takenFacts (n : ι → MshData) (a : Action ι Input) : List (Fact ι InAddr Rank) :=
  (taken (n a.node) a.input).toList.map (fun x => ⟨a.node, x.dst, x.rank⟩)

/-- **The condition on one step**: what the node takes about another one is not worse than what it
    has taken about it before, and has not come over 255 hops. -/
def TakesNothingWorse (c : (ι → MshData) × List (Fact ι InAddr Rank)) (a : Action ι Input) : Prop :=
  ∀ x ∈ taken (c.1 a.node) a.input, x.dst ≠ (c.1 a.node).ip_addr →
    x.passed_count ≠ 0 ∧ ∀ f ∈ c.2, f.node = a.node → f.about = x.dst → ¬ x.rank < f.rank

instance [DecidableEq ι] (c : (ι → MshData) × List (Fact ι InAddr Rank)) (a : Action ι Input) :
    Decidable (TakesNothingWorse c a) := by
  unfold TakesNothingWorse; infer_instance

variable {i : Input} {pkt : AodvPkt}

theorem taken_of_rreq (hpkt : receivedRreq s i = some pkt) :
    taken s i = if rreqDuplicate s pkt then none
      else some ⟨(rreqOfPayload pkt.payload).orig_ip_addr, (rreqOfPayload pkt.payload).orig_seq_num,
        (rreqOfPayload pkt.payload).hop_count, (rreqNext pkt).hop_count⟩ := by
  rw [taken, hpkt]
  rfl

theorem taken_of_rrep (hpkt : receivedRrep s i = some pkt) :
    taken s i = if rrepAcceptable s pkt then
      some ⟨(rrepNext pkt).dest_ip_addr, (rrepNext pkt).dest_seq_num, (rrepNext pkt).hop_count,
        (rrepNext pkt).hop_count⟩
      else none := by
  rw [taken, receivedRreq_of_rrep hpkt, hpkt]

theorem taken_eq_none (hrreq : receivedRreq s i = none) (hrrep : receivedRrep s i = none) :
    taken s i = none := by
  rw [taken, hrreq, hrrep]

/-! ## The table after a turn -/

theorem eq_of_mem_prevHopInserted {b : InAddr} (h : b ∈ prevHopInserted s i pkt) :
    b = pkt.address := by
  unfold prevHopInserted at h
  split at h
  · exact List.mem_singleton.1 h
  · cases h

theorem eq_of_mem_bodyInserted {b d : InAddr} (h : b ∈ bodyInserted s i pkt d) : b = d := by
  unfold bodyInserted at h
  split at h
  · cases h
  · exact List.mem_singleton.1 h

/-- What a message about `d` writes is about its sender, or about `d`. -/
theorem eq_of_mem_written {b d : InAddr} {known : Prop} [Decidable known]
    (h : (b ∈ prevHopInserted s i pkt ∨ b ∈ bodyInserted s i pkt d) ∨
      b ∈ (if known then [d] else [])) : b = pkt.address ∨ b = d := by
  rcases h with (h | h) | h
  · exact .inl (eq_of_mem_prevHopInserted h)
  · exact .inr (eq_of_mem_bodyInserted h)
  · split at h
    · exact .inr (List.mem_singleton.1 h)
    · cases h

/-- An address is known on arrival or gets a new entry, unless the kernel refuses it. -/
theorem known_or_inserted (s : MshData) (i : Input) (pkt : AodvPkt) (d : InAddr) :
    knownOnArrival s i pkt d = true ∨ d ∈ bodyInserted s i pkt d ∨
      nextRefused s i pkt = true ∧ s.info d = none := by
  cases hknown : knownOnArrival s i pkt d with
  | true => exact .inl rfl
  | false =>
    right
    cases href : nextRefused s i pkt with
    | false => left; simp [bodyInserted, hknown, href]
    | true =>
      right
      rw [knownOnArrival, Bool.or_eq_false_iff] at hknown
      exact ⟨rfl, Option.isNone_iff_eq_none.1 (by simpa using hknown.1)⟩

/-- What a message writes is about its sender, or about the one it is taken for; the latter is
    written unless the kernel refuses it. -/
structure WritesTaken (s : MshData) (i : Input) (w : Writes) : Prop where
  sender : ∃ pkt, s.received i = some pkt ∧ w.sender = pkt.address
  about : ∀ b, b ∈ w.inserted ∨ b ∈ w.updated → b = w.sender ∨ ∃ x ∈ taken s i, x.dst = b
  written : ∀ x ∈ taken s i, x.dst ∈ w.inserted ∨ x.dst ∈ w.updated ∨ s.info x.dst = none

theorem writesTaken_rreq (hpkt : receivedRreq s i = some pkt) :
    WritesTaken s i (rreqWrites s i pkt) := by
  refine ⟨⟨pkt, (receivedRreq_eq_some.1 hpkt).1, rfl⟩, fun b hb => ?_, fun x hx => ?_⟩
  · rw [taken_of_rreq hpkt]
    cases hdup : rreqDuplicate s pkt with
    | true =>
      left
      simp only [rreqWrites, hdup, if_true, List.append_nil, Bool.not_true, Bool.false_and,
        Bool.false_eq_true, if_false, List.not_mem_nil, or_false] at hb
      exact eq_of_mem_prevHopInserted hb
    | false =>
      simp only [rreqWrites, hdup, Bool.false_eq_true, if_false, Bool.not_false, Bool.true_and,
        List.mem_append] at hb
      exact (eq_of_mem_written hb).imp_right fun heq => ⟨_, rfl, heq.symm⟩
  · rw [taken_of_rreq hpkt] at hx
    split at hx
    · cases hx
    · rename_i hdup
      obtain rfl := Option.some.inj hx
      dsimp only [rreqWrites]
      rcases known_or_inserted s i pkt (rreqOfPayload pkt.payload).orig_ip_addr with
        hknown | hins | ⟨-, hnone⟩
      · right; left
        simp [hknown, hdup]
      · left
        rw [if_neg hdup]
        exact List.mem_append_right _ hins
      · exact .inr (.inr hnone)

theorem writesTaken_rrep (hpkt : receivedRrep s i = some pkt) :
    WritesTaken s i (rrepWrites s i pkt) := by
  refine ⟨⟨pkt, (receivedRrep_eq_some.1 hpkt).1, rfl⟩, fun b hb => ?_, fun x hx => ?_⟩
  · rw [taken_of_rrep hpkt]
    cases hacc : rrepAcceptable s pkt with
    | false =>
      left
      simp only [rrepWrites, hacc, Bool.false_eq_true, if_false, List.append_nil,
        List.not_mem_nil, or_false] at hb
      exact eq_of_mem_prevHopInserted hb
    | true =>
      simp only [rrepWrites, hacc, if_true, List.mem_append, destActivated] at hb
      exact (eq_of_mem_written hb).imp_right fun heq => ⟨_, rfl, heq.symm⟩
  · rw [taken_of_rrep hpkt] at hx
    split at hx
    · rename_i hacc
      obtain rfl := Option.some.inj hx
      dsimp only [rrepWrites]
      rcases known_or_inserted s i pkt (rrepNext pkt).dest_ip_addr with hknown | hins | ⟨-, hnone⟩
      · right; left
        rw [if_pos hacc, destActivated, hknown, Bool.true_or, if_pos rfl]
        exact List.mem_singleton_self _
      · left
        rw [if_pos hacc]
        exact List.mem_append_right _ hins
      · exact .inr (.inr hnone)
    · cases hx

theorem writesTaken {w : Writes} (hw : writes s i = some w) : WritesTaken s i w := by
  unfold writes at hw
  split at hw
  · rename_i pkt hpkt
    obtain rfl := Option.some.inj hw
    exact writesTaken_rreq hpkt
  · rename_i pkt _ hpkt
    obtain rfl := Option.some.inj hw
    exact writesTaken_rrep hpkt
  · cases hw

/-- **The next hops after a turn**: an entry is an old one about which nothing was taken, leads
    straight to its destination, or leads to the sender and is what was taken. -/
theorem hop_step (h : Wf s) {b : InAddr} {j : RouteInfo} (hj : (step s i).info b = some j) :
    (s.info b = some j ∧ ∀ x ∈ taken s i, x.dst ≠ b) ∨ j.next_hop = b ∨
      ∃ pkt, s.received i = some pkt ∧ j.next_hop = pkt.address ∧ ∃ x ∈ taken s i, x.dst = b := by
  cases hw : writes s i with
  | none =>
    left
    have hnone : taken s i = none := by
      unfold writes at hw
      split at hw
      · cases hw
      · cases hw
      · exact taken_eq_none (by assumption) (by assumption)
    refine ⟨?_, fun x hx => by rw [hnone] at hx; cases hx⟩
    by_cases hi : i.event = .alarms
    · have hstep : step s i = doAlarmRun (s.arrive i) := by rw [step, hi]; rfl
      rw [hstep] at hj
      rcases info_doAlarmRun (h.arrive i) b with hsame | hgone
      · rw [hsame] at hj; exact hj
      · rw [hgone] at hj; cases hj
    · rwa [(unwritten_step h hw hi).1] at hj
  | some w =>
    have hwrote := wrote_step h hw
    obtain ⟨⟨pkt, hpkt, hsender⟩, habout, hwritten⟩ := writesTaken hw
    by_cases hmem : b ∈ w.inserted ∨ b ∈ w.updated
    · right
      obtain ⟨j', hj', hnext, -⟩ := hwrote.hop b hmem
      rw [hj] at hj'
      obtain rfl := Option.some.inj hj'
      rcases habout b hmem with rfl | hx
      · exact .inl hnext
      · exact .inr ⟨pkt, hpkt, hnext.trans hsender, hx⟩
    · obtain ⟨hins, hupd⟩ := not_or.1 hmem
      rw [hwrote.other b hins hupd] at hj
      refine .inl ⟨hj, fun x hx hxb => ?_⟩
      subst hxb
      rcases hwritten x hx with hc | hc | hc
      · exact hins hc
      · exact hupd hc
      · rw [hc] at hj; cases hj

/-! ## Messages -/

/-- What a node sends about another one says less than what it has learned: a RREQ is to be taken
    with the hop count in it, a RREP with one hop more. -/
structure Backed (own : InAddr) (learned : InAddr → WithBot Rank) (payload : List U8) : Prop where
  rreq : (payload.headD 0).toInt = AODV_RREQ → (rreqOfPayload payload).orig_ip_addr ≠ own →
    ↑(rank (rreqOfPayload payload).orig_seq_num (rreqOfPayload payload).hop_count) <
      learned (rreqOfPayload payload).orig_ip_addr
  rrep : (payload.headD 0).toInt = AODV_RREP → (rrepOfPayload payload).dest_ip_addr ≠ own →
    ↑(rank (rrepOfPayload payload).dest_seq_num (rrepOfPayload payload).hop_count) ≤
      learned (rrepOfPayload payload).dest_ip_addr

variable {own : InAddr} {learned learned' : InAddr → WithBot Rank}

theorem Backed.mono {payload : List U8} (h : Backed own learned payload)
    (hle : ∀ d, learned d ≤ learned' d) : Backed own learned' payload :=
  ⟨fun ht hne => (h.rreq ht hne).trans_le (hle _), fun ht hne => (h.rrep ht hne).trans (hle _)⟩

/-- A message of a type is backed if it is as a message of that type. -/
theorem backed_of_rreq {payload : List U8} (htype : (payload.headD 0).toInt = AODV_RREQ)
    (h : (rreqOfPayload payload).orig_ip_addr ≠ own →
      ↑(rank (rreqOfPayload payload).orig_seq_num (rreqOfPayload payload).hop_count) <
        learned (rreqOfPayload payload).orig_ip_addr) : Backed own learned payload :=
  ⟨fun _ => h, fun ht => absurd (htype.symm.trans ht) rreq_ne_rrep⟩

theorem backed_of_rrep {payload : List U8} (htype : (payload.headD 0).toInt = AODV_RREP)
    (h : (rrepOfPayload payload).dest_ip_addr ≠ own →
      ↑(rank (rrepOfPayload payload).dest_seq_num (rrepOfPayload payload).hop_count) ≤
        learned (rrepOfPayload payload).dest_ip_addr) : Backed own learned payload :=
  ⟨fun ht => absurd (ht.symm.trans htype) rreq_ne_rrep, fun _ => h⟩

/-- What was taken is at most what is learned by then, and did not come over 255 hops. -/
def TakenIsLearned (s : MshData) (i : Input) (learned' : InAddr → WithBot Rank) : Prop :=
  ∀ x ∈ taken s i, x.dst ≠ s.ip_addr → x.passed_count ≠ 0 ∧ ↑x.rank ≤ learned' x.dst

/-- **What a node sends stays backed.** -/
theorem backed_step (h : Wf s) (hle : ∀ d, learned d ≤ learned' d)
    (hold : ∀ p ∈ s.os.sent, Backed s.ip_addr learned p.payload)
    (htaken : TakenIsLearned s i learned') {p : AodvPkt} (hp : p ∈ (step s i).os.sent) :
    Backed s.ip_addr learned' p.payload := by
  cases sent_step h i hp with
  | before hp => exact (hold p hp).mono hle
  | ownRreq htype horig => exact backed_of_rreq htype fun hne => absurd horig hne
  | ownRrep htype hdest => exact backed_of_rrep htype fun hne => absurd hdest hne
  | passedRreq pkt hpkt hnew hpay =>
    rw [hpay]
    refine backed_of_rreq ?_ fun hne => ?_
    · rw [type_prepare_rreqNext]
      exact (receivedRreq_eq_some.1 hpkt).2
    · rw [rreqOfPayload_prepare] at hne ⊢
      obtain ⟨hhops, hrank⟩ := htaken ⟨_, _, _, (rreqNext pkt).hop_count⟩
        (by rw [taken_of_rreq hpkt, hnew]; rfl) hne
      exact (WithBot.coe_lt_coe.2 (rank_add_one_lt _ hhops)).trans_le hrank
  | passedRrep pkt hpkt hacc hpay =>
    rw [hpay]
    refine backed_of_rrep ?_ fun hne => ?_
    · rw [type_prepare_rrepNext]
      exact (receivedRrep_eq_some.1 hpkt).2
    · rw [rrepOfPayload_prepare] at hne ⊢
      exact (htaken ⟨_, _, _, (rrepNext pkt).hop_count⟩
        (by rw [taken_of_rrep hpkt, hacc]; rfl) hne).2

/-- **What is taken from a backed message is worse than what its sender has learned.** -/
theorem taken_lt_of_backed (hpkt : s.received i = some pkt) (hb : Backed own learned pkt.payload)
    {x : Taken} (hx : x ∈ taken s i) (hne : x.dst ≠ own) (hhops : x.passed_count ≠ 0) :
    ↑x.rank < learned x.dst := by
  unfold taken at hx
  split at hx
  · rename_i pkt' hpkt'
    obtain ⟨hrec, htype⟩ := receivedRreq_eq_some.1 hpkt'
    rw [hpkt] at hrec
    obtain rfl := Option.some.inj hrec
    dsimp only at hx
    split at hx
    · cases hx
    · obtain rfl := Option.some.inj hx
      exact hb.rreq htype hne
  · rename_i pkt' _ hpkt'
    obtain ⟨hrec, htype⟩ := receivedRrep_eq_some.1 hpkt'
    rw [hpkt] at hrec
    obtain rfl := Option.some.inj hrec
    dsimp only at hx
    split at hx
    · obtain rfl := Option.some.inj hx
      exact (WithBot.coe_lt_coe.2 (rank_add_one_lt _ hhops)).trans_le
        (hb.rrep htype hne)
    · cases hx
  · cases hx

/-! ## The network -/

section Net

variable [DecidableEq ι] {addr : ι → InAddr} {bcast : InAddr} {iface : ι → U32}
  {c : (ι → MshData) × List (Fact ι InAddr Rank)} {a : Action ι Input}

/-- **The network as distance vectors** for destination `d`. -/
def routes (addr : ι → InAddr) (c : (ι → MshData) × List (Fact ι InAddr Rank)) (d : InAddr) :
    Routes ι Rank where
  next := points addr c.1 d
  best k := best c.2 k d

def NetBacked (addr : ι → InAddr) (c : (ι → MshData) × List (Fact ι InAddr Rank)) : Prop :=
  ∀ k, ∀ p ∈ (c.1 k).os.sent, Backed (addr k) (best c.2 k) p.payload

abbrev ranked : (ι → MshData) × List (Fact ι InAddr Rank) → Action ι Input →
    (ι → MshData) × List (Fact ι InAddr Rank) := recording netStep takenFacts

/-- What nodes have learned grows, and only by what is taken. -/
theorem best_ranked (c : (ι → MshData) × List (Fact ι InAddr Rank)) (a : Action ι Input) (k : ι)
    (d : InAddr) :
    best c.2 k d ≤ best (ranked c a).2 k d ∧
      ((∀ x ∈ taken (c.1 a.node) a.input, k = a.node → x.dst ≠ d) →
        best (ranked c a).2 k d = best c.2 k d) := by
  have hhist : (ranked c a).2 = takenFacts c.1 a ++ c.2 := rfl
  rw [hhist, takenFacts]
  cases taken (c.1 a.node) a.input with
  | none => exact ⟨le_refl _, fun _ => rfl⟩
  | some x =>
    refine ⟨DistanceVector.best_le_cons _ _ _ _, fun hx => ?_⟩
    have hne := hx x rfl
    exact (DistanceVector.best_cons _ _ _ _).trans
      (if_neg fun hc => hne hc.1.symm hc.2)

/-- Under the condition, what is taken is the best that the node has learned. -/
theorem best_taken (hc : TakesNothingWorse c a) {x : Taken}
    (hx : x ∈ taken (c.1 a.node) a.input) (hne : x.dst ≠ (c.1 a.node).ip_addr) :
    best (ranked c a).2 a.node x.dst = x.rank := by
  have hhist : (ranked c a).2 = takenFacts c.1 a ++ c.2 := rfl
  have hworse := (hc x hx hne).2
  rw [hhist, takenFacts, Option.mem_def.1 hx]
  exact DistanceVector.best_cons_of_not_lt (f := ⟨a.node, x.dst, x.rank⟩) c.2 hworse

theorem NetBacked.step (hwf : NetWf addr bcast c.1) (h : NetBacked addr c)
    (hc : TakesNothingWorse c a) : NetBacked addr (ranked c a) := by
  intro k p hp
  have hle : ∀ d, best c.2 k d ≤ best (ranked c a).2 k d := fun d => (best_ranked c a k d).1
  change p ∈ (netStep c.1 a k).os.sent at hp
  by_cases hk : k = a.node
  · subst hk
    rw [netStep, Network.act_same] at hp
    have hip := hwf.ip_addr a.node
    rw [← hip]
    refine backed_step (hwf.wf _) hle (fun p hp => ?_) (fun x hx hne => ?_) hp
    · rw [hip]; exact h a.node p hp
    · exact ⟨(hc x hx hne).1, (best_taken hc hx hne).ge⟩
  · rw [netStep, Network.act_other c.1 hk] at hp
    exact (h k p hp).mono hle

/-- **A step of the network is a turn of its distance vectors**, for every destination. -/
theorem turn_routes (hinj : Function.Injective addr) (hwf : NetWf addr bcast c.1) (hback : NetBacked addr c)
    (hdel : Deliverable c.1 a) (hc : TakesNothingWorse c a) (d : InAddr) :
    DistanceVector.Turn (fun k => addr k = d) a.node (routes addr c d)
      (routes addr (ranked c a) d) := by
  have hstate : ∀ k, (ranked c a).1 k = netStep c.1 a k := fun _ => rfl
  have hother : ∀ k, k ≠ a.node → (ranked c a).1 k = c.1 k := fun k hk => by
    rw [hstate, netStep, Network.act_other c.1 hk]
  refine ⟨fun k hk m hnext => ?_, fun k hk => ?_, (best_ranked c a a.node d).1,
    fun m hnext => hnext.1, fun m hnext => ?_⟩
  · obtain ⟨hne, j, hj, hhop⟩ := hnext
    rw [hother k hk] at hj
    exact ⟨hne, j, hj, hhop⟩
  · exact (best_ranked c a k d).2 fun _ _ hc => absurd hc hk
  · obtain ⟨hne, j, hj, hhop⟩ := hnext
    rw [hstate, netStep, Network.act_same] at hj
    rcases hop_step (hwf.wf _) hj with ⟨hold, hnone⟩ | hdirect | ⟨pkt, hpkt, hsender, x, hx, rfl⟩
    · exact .inr (.inr ⟨⟨hne, j, hold, hhop⟩, (best_ranked c a a.node d).2 fun x hx _ => hnone x hx⟩)
    · exact .inl (hhop.symm.trans hdirect)
    · -- the entry leads to the sender of the message
      obtain ⟨m', haddr, p, hp, hpay, -⟩ := messageFrom_of_received hdel hpkt
      rw [hwf.ip_addr] at haddr
      obtain rfl := hinj (hhop.symm.trans (hsender.trans haddr))
      by_cases hsink : addr m = x.dst
      · exact .inl hsink
      · right; left
        have hown : x.dst ≠ (c.1 a.node).ip_addr := by rw [hwf.ip_addr]; exact Ne.symm hne
        have hmsg : Backed (addr m) (best c.2 m) pkt.payload := by rw [hpay]; exact hback m p hp
        change best (ranked c a).2 a.node x.dst < best c.2 m x.dst
        rw [best_taken hc hx hown]
        exact taken_lt_of_backed hpkt hmsg hx (Ne.symm hsink) (hc x hx hown).1

/-! ## Runs -/

/-- What a run under the condition keeps. -/
structure Ranked (addr : ι → InAddr) (bcast : InAddr)
    (c : (ι → MshData) × List (Fact ι InAddr Rank)) : Prop where
  wf : NetWf addr bcast c.1
  backed : NetBacked addr c
  ordered : ∀ d, Ordered (fun k => addr k = d) (routes addr c d)

omit [DecidableEq ι] in
theorem points_init (d : InAddr) (k m : ι) : ¬ points addr (netInit addr bcast iface) d k m := by
  rintro ⟨-, j, hj, -⟩
  exact absurd hj (by simp [netInit, mshDataInit, MshData.info, MshData.entry])

theorem Ranked.init : Ranked addr bcast (netInit addr bcast iface, []) where
  wf := NetWf.init addr bcast iface
  backed k p hp := by simp [netInit, mshDataInit] at hp
  ordered d := ⟨fun k m h => absurd h (points_init d k m), fun k m h => absurd h (points_init d k m)⟩

theorem Ranked.step (hinj : Function.Injective addr) (h : Ranked addr bcast c)
    (hdel : Deliverable c.1 a) (hc : TakesNothingWorse c a) : Ranked addr bcast (ranked c a) where
  wf := h.wf.step a
  backed := h.backed.step h.wf hc
  ordered d := (h.ordered d).turn (turn_routes hinj h.wf h.backed hdel hc d)

theorem Ranked.loopFree (h : Ranked addr bcast c) (d : InAddr) :
    LoopFree (routeEdge addr c.1 d) :=
  (h.ordered d).loopFree.mono fun _ _ => points_of_routeEdge h.wf.wf

/-- **Loop freedom.**  In every run in which no node takes up what is worse than something it has
    taken up before, no state has a cycle of active routes to any destination. -/
theorem loopFree_of_takesNothingWorse (hinj : Function.Injective addr) {as : List (Action ι Input)}
    (hrun : StepsMeet netStep Deliverable (netInit addr bcast iface) as)
    (hworse : StepsMeet ranked TakesNothingWorse (netInit addr bcast iface, []) as)
    {pre : List (Action ι Input)} (hpre : pre <+: as) (d : InAddr) :
    LoopFree (routeEdge addr (run netStep (netInit addr bcast iface) pre) d) := by
  obtain ⟨rest, rfl⟩ := hpre
  have hdel := ((Machine.stepsMeet_append _ pre rest).1 hrun).1
  have hcond := ((Machine.stepsMeet_append _ pre rest).1 hworse).1
  have hkeep := Machine.run_invariant (I := Ranked addr bcast)
    (fun c a h ha => h.step hinj ha.1 ha.2) Ranked.init ((hdel.recording takenFacts []).and hcond)
  have hfree := hkeep.loopFree d
  rwa [Machine.run_recording_fst] at hfree

end Net

/-- Node 0 looks for node 2 over node 1, and the reply comes back. -/
def chainDiscovery : List (Action (Fin 3) Input) :=
  script (smallNet 3)
    [.packet 0 0 (capturedPacket 1 3 1 0x0A000001 0x0A000003), .deliver 1 10 0 0 3,
      .deliver 2 20 1 0 2, .deliver 1 30 2 0 64, .deliver 0 40 1 1 63]

theorem loopFree_chainDiscovery :
    LoopFree (routeEdge nodeAddr (run netStep (smallNet 3) chainDiscovery) 0x0A000003) ∧
      routeEdge nodeAddr (run netStep (smallNet 3) chainDiscovery) 0x0A000003 0 1 ∧
      routeEdge nodeAddr (run netStep (smallNet 3) chainDiscovery) 0x0A000003 1 2 :=
  ⟨loopFree_of_takesNothingWorse (by decide)
    (by decide +kernel) (by decide +kernel) (List.prefix_refl _) _, by decide +kernel,
    by decide +kernel⟩

/-- Node 1 passes a RREQ of node 0 on to node 2, which sends data to node 0 over node 1; after
    `PATH_DISCOVERY_TIME` the copy of the RREQ that node 2 has sent reaches node 1. -/
def lateRequest : List (Action (Fin 3) Input) :=
  script (smallNet 3)
    [.packet 0 0 (capturedPacket 1 3 1 0x0A000001 0x0A000009), .deliver 1 10 0 0 3,
      .deliver 2 20 1 0 2, .packet 2 2000000 (capturedPacket 2 3 1 0x0A000003 0x0A000001),
      .packet 1 2000010 (capturedPacket 2 2 1 0x0A000003 0x0A000001),
      .packet 2 4000000 (capturedPacket 3 3 1 0x0A000003 0x0A000001),
      .packet 1 4000010 (capturedPacket 3 2 1 0x0A000003 0x0A000001), .alarms 1 5700000,
      .deliver 1 5800000 2 0 1]

/-- **The late copy makes a loop**: node 1 gives up its own way to node 0 for the one over node 2,
    which leads back to node 1. -/
theorem late_request_loops :
    ¬ ∀ (ι : Type) [DecidableEq ι] (addr : ι → InAddr) (bcast : InAddr) (iface : ι → U32)
      (as : List (Action ι Input)), Function.Injective addr →
      StepsMeet netStep Deliverable (netInit addr bcast iface) as →
      ∀ pre, pre <+: as → ∀ d,
        LoopFree (routeEdge addr (run netStep (netInit addr bcast iface) pre) d) := by
  intro hall
  have hfree := hall (Fin 3) nodeAddr 0x0A0000FF (fun _ => 0) lateRequest (by decide)
    (by decide +kernel) lateRequest (List.prefix_refl _) 0x0A000001
  have hforth : routeEdge nodeAddr (run netStep (smallNet 3) lateRequest) 0x0A000001 1 2 := by
    decide +kernel
  have hback : routeEdge nodeAddr (run netStep (smallNet 3) lateRequest) 0x0A000001 2 1 := by
    decide +kernel
  exact hfree 1 (.tail (.single hforth) hback)

end Meshias
