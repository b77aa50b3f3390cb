import Meshias.Codec
import Meshias.Expiry
import Meshias.Sending

/-!
# Messages that are passed on

A node that passes a message on sends the bytes it has received: `aodv_pkt_prepare_*` undoes the
conversions of the check, and in between the handlers write the hop count.

* `sentBy` — the datagrams of one turn.
* `ReplyPassedOn`, `RequestPassedOn` — what a datagram that goes on has in common with the received
  one.
* `infoReversed`, `rebroadcasts` — the table once the reverse route has been made, and whether a
  request goes on, read off the state before the turn.

Principal results: `prepare_rreqOfPayload`, `prepare_rrepOfPayload`; `replyPassedOn_iff`,
`requestPassedOn_iff`; `hop_count_wrapped`, `stale_request_rebroadcast`.
-/

set_option autoImplicit false

namespace Meshias

open Machine (run)

variable {s t : MshData} {i : Input} {pkt : AodvPkt}

/-! ## The bytes of a message -/

theorem append_extract_parts {k m : Nat} (x : BitVec (k + m)) :
    x.extractLsb' m k ++ x.extractLsb' 0 m = x := by
  ext i hi
  simp only [BitVec.getElem_append, BitVec.getElem_extractLsb']
  grind

/-- A word that is converted twice is the four bytes it was read from. -/
theorem htonl_ntohl {b : List U8} {off : Nat} (h : off + 4 ≤ b.length) :
    htonl (ntohl b off) = (b.drop off).take 4 := by
  have hbytes : htonl (ntohl b off) =
      [b.getD off 0, b.getD (off + 1) 0, b.getD (off + 2) 0, b.getD (off + 3) 0] :=
    Codec.bigBytes_append _ _ _ _
  rw [hbytes]
  refine List.ext_getElem? fun k => ?_
  rw [List.getElem?_take, List.getElem?_drop]
  match k with
  | 0 | 1 | 2 | 3 => simp [List.getD_eq_getElem?_getD, show off < b.length by omega,
      show off + 1 < b.length by omega, show off + 2 < b.length by omega,
      show off + 3 < b.length by omega]
  | k + 4 => simp

theorem header_bytes {b : List U8} (h : 4 ≤ b.length) :
    [b.getD 0 0, b.getD 1 0, b.getD 2 0, b.getD 3 0] = b.take 4 := by
  have hword : htonl (ntohl b 0) = (b.drop 0).take 4 := htonl_ntohl h
  exact (Codec.bigBytes_append _ _ _ _).symm.trans hword

theorem htonl_append_drop {b : List U8} {off : Nat} (h : off + 4 ≤ b.length) :
    htonl (ntohl b off) ++ b.drop (off + 4) = b.drop off := by
  rw [htonl_ntohl h, ← List.drop_drop, List.take_append_drop]

/-- **A request that is read and prepared again** is the payload that was received. -/
theorem prepare_rreqOfPayload {b : List U8} (h : 24 ≤ b.length) :
    aodvPktPrepareRreq (rreqOfPayload b) = b := by
  have hflags := append_extract_parts (k := 5) (m := 3) (b.getD 1 0)
  have hheader := header_bytes (b := b) (by omega)
  have hword : ∀ off, off + 4 ≤ 24 → htonl (ntohl b off) ++ b.drop (off + 4) = b.drop off :=
    fun off hoff => htonl_append_drop (hoff.trans h)
  simp only [aodvPktPrepareRreq, rreqOfPayload, hflags, hheader, List.append_assoc]
  rw [hword 20 (by omega), hword 16 (by omega), hword 12 (by omega), hword 8 (by omega),
    hword 4 (by omega), List.take_append_drop]

theorem prepare_rrepOfPayload {b : List U8} (h : 20 ≤ b.length) :
    aodvPktPrepareRrep (rrepOfPayload b) = b := by
  have hflags := append_extract_parts (k := 2) (m := 6) (b.getD 1 0)
  have hprefix := append_extract_parts (k := 3) (m := 5) (b.getD 2 0)
  have hheader := header_bytes (b := b) (by omega)
  have hword : ∀ off, off + 4 ≤ 20 → htonl (ntohl b off) ++ b.drop (off + 4) = b.drop off :=
    fun off hoff => htonl_append_drop (hoff.trans h)
  simp only [aodvPktPrepareRrep, rrepOfPayload, hflags, hprefix, hheader, List.append_assoc]
  rw [hword 16 (by omega), hword 12 (by omega), hword 8 (by omega), hword 4 (by omega),
    List.take_append_drop]

/-! ### The hop count -/

/-- Byte 3 of either message. -/
def AodvPkt.hopCount (pkt : AodvPkt) : U8 := pkt.payload.getD 3 0

theorem getD_set_hop {b : List U8} {n : Nat} (hn : n ≠ 3) (hop : U8) :
    (b.set 3 hop).getD n 0 = b.getD n 0 := by
  rw [List.getD_eq_getElem?_getD, List.getElem?_set_ne (Ne.symm hn), List.getD_eq_getElem?_getD]

theorem getD_set_hop_self {b : List U8} (h : 3 < b.length) (hop : U8) :
    (b.set 3 hop).getD 3 0 = hop := by
  rw [List.getD_eq_getElem?_getD, List.getElem?_set_self h, Option.getD_some]

theorem rreqOfPayload_set {b : List U8} (h : 3 < b.length) (hop : U8) :
    rreqOfPayload (b.set 3 hop) = { rreqOfPayload b with hop_count := hop } := by
  have hdrop : (b.set 3 hop).drop 24 = b.drop 24 := List.drop_set_of_lt (by omega)
  simp (disch := omega) only [rreqOfPayload, ntohl, getD_set_hop_self h, hdrop, getD_set_hop]

theorem rrepOfPayload_set {b : List U8} (h : 3 < b.length) (hop : U8) :
    rrepOfPayload (b.set 3 hop) = { rrepOfPayload b with hop_count := hop } := by
  have hdrop : (b.set 3 hop).drop 20 = b.drop 20 := List.drop_set_of_lt (by omega)
  simp (disch := omega) only [rrepOfPayload, ntohl, getD_set_hop_self h, hdrop, getD_set_hop]

/-- **What goes on differs in one byte.** -/
theorem prepare_rreqNext (h : 24 ≤ pkt.payload.length) :
    aodvPktPrepareRreq (rreqNext pkt) = pkt.payload.set 3 (pkt.hopCount + 1) := by
  have hset := rreqOfPayload_set (b := pkt.payload) (by omega) (pkt.hopCount + 1)
  have hlen : 24 ≤ (pkt.payload.set 3 (pkt.hopCount + 1)).length := by
    rw [List.length_set]
    exact h
  rw [← prepare_rreqOfPayload hlen, hset]
  rfl

theorem prepare_rrepNext (h : 20 ≤ pkt.payload.length) :
    aodvPktPrepareRrep (rrepNext pkt) = pkt.payload.set 3 (pkt.hopCount + 1) := by
  have hset := rrepOfPayload_set (b := pkt.payload) (by omega) (pkt.hopCount + 1)
  have hlen : 20 ≤ (pkt.payload.set 3 (pkt.hopCount + 1)).length := by
    rw [List.length_set]
    exact h
  rw [← prepare_rrepOfPayload hlen, hset]
  rfl

theorem valid_of_received (hrec : s.received i = some pkt) : pkt.valid = true := by
  unfold MshData.received at hrec
  split at hrec
  · split at hrec
    · rename_i hc
      obtain rfl := Option.some.inj hrec
      exact hc.1
    · cases hrec
  · cases hrec

/-- A message that passes the checks holds its structure. -/
theorem length_of_receivedRreq (hpkt : receivedRreq s i = some pkt) :
    24 ≤ pkt.payload.length := by
  obtain ⟨hrec, htype⟩ := receivedRreq_eq_some.1 hpkt
  have hvalid := valid_of_received hrec
  rw [AodvPkt.valid, aodvPktCheck, if_pos htype] at hvalid
  by_contra hshort
  rw [if_neg hshort] at hvalid
  cases hvalid

theorem length_of_receivedRrep (hpkt : receivedRrep s i = some pkt) :
    20 ≤ pkt.payload.length := by
  obtain ⟨hrec, htype⟩ := receivedRrep_eq_some.1 hpkt
  have hvalid := valid_of_received hrec
  rw [AodvPkt.valid, aodvPktCheck, if_neg (by rw [htype]; decide), if_pos htype] at hvalid
  by_contra hshort
  rw [if_neg hshort] at hvalid
  cases hvalid

/-! ## A reply -/

/-- The datagrams that a turn sends. -/
def sentBy (s : MshData) (i : Input) : List AodvPkt := (step s i).os.sent.drop s.os.sent.length

theorem sentBy_of_append {l : List AodvPkt} (h : (step s i).os.sent = s.os.sent ++ l) :
    sentBy s i = l := by
  rw [sentBy, h, List.drop_left]

/-- The payload is the received one, up to the given bytes. -/
def SameBytesBut (bytes : List Nat) (p pkt : AodvPkt) : Prop :=
  ∀ n, n ∉ bytes → p.payload[n]? = pkt.payload[n]?

theorem sameBytes_set_hop (bytes : List Nat) (hbytes : 3 ∈ bytes) (hop ttl : U8) (a : InAddr)
    (pkt : AodvPkt) : SameBytesBut bytes ⟨pkt.payload.set 3 hop, a, ttl⟩ pkt := by
  intro n hn
  refine List.getElem?_set_ne ?_
  rintro rfl
  exact hn hbytes

/-- **A reply that goes on** to its originator, another node with an entry where the handler looks
    it up: one datagram at most, to the next hop, with a smaller TTL and a larger hop count and
    otherwise as received. -/
def ReplyPassedOn (s : MshData) (i : Input) : Prop :=
  ∀ pkt ∈ receivedRrep s i, rrepAcceptable s pkt = true → s.ip_addr ≠ (rrepNext pkt).orig_ip_addr →
    ∀ j ∈ (step s i).info (rrepNext pkt).orig_ip_addr,
      (sentBy s i).length ≤ 1 ∧
        ∀ p ∈ sentBy s i, p.address = j.next_hop ∧ p.ttl < pkt.ttl ∧ pkt.hopCount < p.hopCount ∧
          SameBytesBut [3] p pkt

/-- **The condition**: neither counter is at its end, and the socket takes the TTL. -/
def ReplyCountable (s : MshData) (i : Input) : Prop :=
  ∀ pkt ∈ receivedRrep s i, rrepAcceptable s pkt = true → s.ip_addr ≠ (rrepNext pkt).orig_ip_addr →
    knownOnUpdate s i pkt (rrepNext pkt).orig_ip_addr = true → 1 < pkt.ttl ∧ pkt.hopCount ≠ 255

theorem sentBy_rrep (h : Wf s) (hpkt : receivedRrep s i = some pkt)
    (hacc : rrepAcceptable s pkt = true) (hown : s.ip_addr ≠ (rrepNext pkt).orig_ip_addr)
    {j : RouteInfo} (hj : (step s i).info (rrepNext pkt).orig_ip_addr = some j) :
    sentBy s i =
      [⟨pkt.payload.set 3 (pkt.hopCount + 1), j.next_hop, s.os.setIpTtl (pkt.ttl - 1)⟩] := by
  obtain ⟨stats, hstep⟩ := step_of_receivedRrep hpkt
  have hwf := (h.arrive i).withStats stats
  have hupd := wf_rrepUpdated pkt hwf
  have hsent : (rrepUpdated ((s.arrive i).withStats stats) pkt).os.sent = s.os.sent :=
    (onlyTable_rrepUpdated pkt hwf).sent
  have haccepted := (rrepAccepted_arrive h i stats pkt).trans hacc
  cases rrepProcessed pkt hwf with
  | refused hrej _ => exact absurd (hrej.symm.trans haccepted) Bool.false_ne_true
  | ended _ horig _ => exact absurd horig hown
  | forwarded _ _ ph d ht =>
    obtain ⟨hsame, -, hforwarded, -⟩ := aodvForwardRrep_spec pkt (rrepNext pkt) ph d hupd
    rw [← ht, ← hstep] at hsame hforwarded
    rw [hsame.info hupd] at hj
    cases hforwarded with
    | silent horig _ =>
      rw [horig] at hj
      cases hj
    | forwarded horig hnew =>
      obtain rfl := Option.some.inj (horig.symm.trans hj)
      rw [setIpTtl_congr hsent, hsent, prepare_rrepNext (length_of_receivedRrep hpkt)] at hnew
      exact sentBy_of_append hnew

/-- The TTL goes down unless there is none, or the socket refuses what is left of it. -/
theorem setIpTtl_lt_iff {os : Os} (hos : os.ipTtl ≠ 0) (ttl : U8) :
    os.setIpTtl (ttl - 1) < ttl ↔ 1 < ttl := by
  rw [Os.setIpTtl]
  split
  · rename_i hzero
    obtain rfl : ttl = 1 := by bv_omega
    exact iff_of_false (by bv_omega) (by decide)
  · bv_omega

theorem lt_add_one_iff (b : U8) : b < b + 1 ↔ b ≠ 255 := by
  bv_omega

theorem replyPassedOn_step_iff (h : Wf s) (hos : s.os.ipTtl ≠ 0) :
    ReplyPassedOn s i ↔ ReplyCountable s i := by
  refine forall_congr' fun pkt => forall_congr' fun hpkt => forall_congr' fun hacc =>
    forall_congr' fun hown => ?_
  have hknown := isSome_step_rrep h hpkt hacc (rrepNext pkt).orig_ip_addr
  cases hj : (step s i).info (rrepNext pkt).orig_ip_addr with
  | none =>
    rw [hj] at hknown
    rw [← hknown]
    simp
  | some j =>
    rw [hj] at hknown
    have hlen := length_of_receivedRrep hpkt
    have hsame := sameBytes_set_hop [3] (by decide) (pkt.hopCount + 1)
      (s.os.setIpTtl (pkt.ttl - 1)) j.next_hop pkt
    have hcount : AodvPkt.hopCount ⟨pkt.payload.set 3 (pkt.hopCount + 1), j.next_hop,
        s.os.setIpTtl (pkt.ttl - 1)⟩ = pkt.hopCount + 1 :=
      getD_set_hop_self (by omega) _
    rw [← hknown]
    simp only [Option.mem_some_iff, forall_eq', sentBy_rrep h hpkt hacc hown hj,
      List.length_singleton, Nat.le_refl, true_and, List.mem_singleton, forall_eq, hsame, and_true,
      hcount, setIpTtl_lt_iff hos, lt_add_one_iff, Option.isSome_some, forall_const]

/-- **A reply is passed on as it is received**, one hop further, in exactly the turns in which
    neither counter wraps and a TTL is left. -/
theorem replyPassedOn_iff (ip bcast : InAddr) (iface : U32) (is : List Input) (i : Input) :
    ReplyPassedOn (run step (mshDataInit ip bcast iface) is) i ↔
      ReplyCountable (run step (mshDataInit ip bcast iface) is) i :=
  replyPassedOn_step_iff (wf_run ip bcast iface is) (ipTtl_run_ne_zero ip bcast iface is)

/-- 10.0.0.1 has a route to 10.0.0.8 over 10.0.0.2. -/
def wayBack : List Input :=
  [⟨0, [], [], datagramFrom 0x0A000002 60 (aodvPktBuildRreq 1 1 7 0x0A000009 0 0x0A000008 1)⟩]

/-- 10.0.0.3 sends a reply for 10.0.0.8 with the largest hop count. -/
def farReply : Input :=
  ⟨1000000, [], [], datagramFrom 0x0A000003 60 (aodvPktBuildRrep 0 0 255 0x0A000009 1 0x0A000008 6000)⟩

/-- **It goes on with hop count 0.** -/
theorem hop_count_wrapped :
    ¬ ∀ (ip bcast : InAddr) (iface : U32) (is : List Input) (i : Input),
      ReplyPassedOn (run step (mshDataInit ip bcast iface) is) i := by
  intro hall
  have hcount := (replyPassedOn_step_iff (wf_run _ _ _ wayBack) (ipTtl_run_ne_zero _ _ _ wayBack)).1
    (hall 0x0A000001 0x0A0000FF 0 wayBack farReply)
  exact absurd hcount (by unfold ReplyCountable; decide +kernel)

/-! ## A request -/

/-- The entry of `b` once the previous hop has been dealt with. -/
def infoArrived (s : MshData) (i : Input) (pkt : AodvPkt) (b : InAddr) : Option RouteInfo :=
  if s.info pkt.address = none ∧ i.refusals.headD false = false ∧ b = pkt.address then
    some (.prevHop s.net_iface pkt.address)
  else s.info b

/-- The entry of `b` once the reverse route of a new RREQ has been made. -/
def infoReversed (s : MshData) (i : Input) (pkt : AodvPkt) (b : InAddr) : Option RouteInfo :=
  let rreq := rreqOfPayload pkt.payload
  if b = rreq.orig_ip_addr then
    match infoArrived s i pkt rreq.orig_ip_addr with
    | some j => some (j.rreqUpdate pkt.address rreq.hop_count rreq.orig_seq_num)
    | none =>
      if nextRefused s i pkt then none
      else some (.orig s.net_iface pkt.address rreq.hop_count rreq.orig_ip_addr rreq.orig_seq_num)
  else infoArrived s i pkt b

theorem info_arrived (h : Wf s) (i : Input) (stats : Statistics) (pkt : AodvPkt) (b : InAddr) :
    (rreqArrived ((s.arrive i).withStats stats) pkt).info b = infoArrived s i pkt b :=
  info_rreqArrived pkt ((h.arrive i).withStats stats) b

theorem info_reversed (h : Wf s) (i : Input) (stats : Statistics) (pkt : AodvPkt) (b : InAddr) :
    (rreqReversed ((s.arrive i).withStats stats) pkt).info b = infoReversed s i pkt b := by
  rw [info_rreqReversed pkt ((h.arrive i).withStats stats), info_arrived h, info_arrived h,
    nextRefused_eq h]
  rfl

/-- The intermediate node would answer, in the table with the reverse route. -/
def answersInstead (s : MshData) (i : Input) (pkt : AodvPkt) : Bool :=
  let rreq := rreqOfPayload pkt.payload
  (infoReversed s i pkt rreq.dest_ip_addr).isSome && s.seq_num.sle rreq.dest_seq_num &&
    decide (rreq.flags &&& RREQ_DEST_ONLY_FLAG = 0)

/-- A received request goes on. -/
def rebroadcasts (s : MshData) (i : Input) (pkt : AodvPkt) : Bool :=
  !rreqDuplicate s pkt && (rreqNext pkt).dest_ip_addr ≠ s.ip_addr &&
    !answersInstead s i pkt && 1 < pkt.ttl

theorem rebroadcasts_iff : rebroadcasts s i pkt = true ↔
    rreqDuplicate s pkt = false ∧ (rreqNext pkt).dest_ip_addr ≠ s.ip_addr ∧
      answersInstead s i pkt = false ∧ 1 < pkt.ttl := by
  simp only [rebroadcasts, Bool.and_eq_true, Bool.not_eq_true', decide_eq_true_eq, and_assoc]

/-- Nothing that the end of a RREQ reads, the table aside, has changed by then. -/
theorem addr_rreqReversed (h : Wf s) (pkt : AodvPkt) :
    (rreqReversed s pkt).ip_addr = s.ip_addr ∧
      (rreqReversed s pkt).broadcast_addr = s.broadcast_addr := by
  have harr := onlyTable_rreqArrived pkt h
  have hrev := onlyTable_rreqReversed pkt h
  exact ⟨hrev.ip_addr.trans harr.ip_addr, hrev.broadcast_addr.trans harr.broadcast_addr⟩

theorem answersForOther_reversed (h : Wf s) (i : Input) (stats : Statistics) (pkt : AodvPkt) :
    answersForOther (rreqReversed ((s.arrive i).withStats stats) pkt) (rreqNext pkt) =
      answersInstead s i pkt := by
  have hseq := (silent_rreqReversed pkt ((h.arrive i).withStats stats)).seq_num
  rw [answersForOther, info_reversed h, hseq]
  rfl

/-- A turn with a new request. -/
theorem step_new_rreq (h : Wf s) (hpkt : receivedRreq s i = some pkt)
    (hnew : rreqDuplicate s pkt = false) : ∃ stats o,
      step s i = rreqReply (rreqReversed ((s.arrive i).withStats stats) pkt) pkt (rreqNext pkt)
        pkt.address o := by
  obtain ⟨stats, hstep⟩ := step_of_receivedRreq hpkt
  obtain ⟨o, heq⟩ := aodvProcessRreq_eq pkt ((h.arrive i).withStats stats)
  rw [rreqDuplicate_arrive, hnew, if_neg Bool.false_ne_true] at heq
  exact ⟨stats, o, hstep.trans heq⟩

/-- The table after it. -/
theorem info_new_rreq (h : Wf s) (hpkt : receivedRreq s i = some pkt)
    (hnew : rreqDuplicate s pkt = false) (b : InAddr) :
    (step s i).info b = infoReversed s i pkt b := by
  obtain ⟨stats, o, hstep⟩ := step_new_rreq h hpkt hnew
  have hrev := wf_rreqReversed pkt ((h.arrive i).withStats stats)
  rw [hstep, (rreqReply_spec pkt (rreqNext pkt) pkt.address o).1.info hrev, info_reversed h]

/-- **What a turn with a RREQ sends.** -/
theorem sentBy_rreq (h : Wf s) (hpkt : receivedRreq s i = some pkt) :
    sentBy s i =
      if rreqDuplicate s pkt then []
      else if (rreqNext pkt).dest_ip_addr = s.ip_addr then
        [ownReply (step s i) (rreqNext pkt) pkt.address]
      else if pkt.ttl ≤ 1 ∨ answersInstead s i pkt = true then []
      else [⟨pkt.payload.set 3 (pkt.hopCount + 1), s.broadcast_addr, pkt.ttl - 1⟩] := by
  cases hdup : rreqDuplicate s pkt with
  | true =>
    obtain ⟨stats, hstep⟩ := step_of_receivedRreq hpkt
    have hwf := (h.arrive i).withStats stats
    obtain ⟨o, heq⟩ := aodvProcessRreq_eq pkt hwf
    have harrived : step s i = rreqArrived ((s.arrive i).withStats stats) pkt :=
      hstep.trans (heq.trans (if_pos hdup))
    have hsent : (step s i).os.sent = s.os.sent := by
      rw [harrived]
      exact (onlyTable_rreqArrived pkt hwf).sent
    rw [if_pos rfl]
    exact sentBy_of_append (by rw [hsent, List.append_nil])
  | false =>
    obtain ⟨stats, o, hstep⟩ := step_new_rreq h hpkt hdup
    have hwf := (h.arrive i).withStats stats
    have hrev := wf_rreqReversed pkt hwf
    have hsent : (rreqReversed ((s.arrive i).withStats stats) pkt).os.sent = s.os.sent :=
      (silent_rreqReversed pkt hwf).sent
    have haddr : (rreqReversed ((s.arrive i).withStats stats) pkt).ip_addr = s.ip_addr ∧
        (rreqReversed ((s.arrive i).withStats stats) pkt).broadcast_addr = s.broadcast_addr :=
      addr_rreqReversed hwf pkt
    have hquiet := rreqReply_sent_iff pkt (rreqNext pkt) pkt.address o hrev
    have hspec := (rreqReply_spec (s := rreqReversed ((s.arrive i).withStats stats) pkt) pkt
      (rreqNext pkt) pkt.address o).2.2
    rw [← hstep] at hquiet hspec
    rw [hsent, haddr.1, answersForOther_reversed h] at hquiet
    rw [if_neg Bool.false_ne_true]
    cases hspec with
    | silent hdest hsilent =>
      rw [haddr.1] at hdest
      have hnothing := hsilent.sent.trans hsent
      rw [if_neg hdest, if_pos (hquiet.1 hnothing).2]
      exact sentBy_of_append (by rw [hnothing, List.append_nil])
    | answered hdest _ hanswer =>
      rw [haddr.1] at hdest
      rw [hsent] at hanswer
      rw [if_pos hdest]
      exact sentBy_of_append hanswer
    | forwarded hdest httl _ hforward =>
      rw [haddr.1] at hdest
      rw [hsent, haddr.2, prepare_rreqNext (length_of_receivedRreq hpkt)] at hforward
      have hnot : ¬ (pkt.ttl ≤ 1 ∨ answersInstead s i pkt = true) := by
        intro hc
        have hnothing := hquiet.2 ⟨hdest, hc⟩
        rw [hforward] at hnothing
        simp at hnothing
      rw [if_neg hdest, if_neg hnot]
      exact sentBy_of_append hforward

/-- The datagram that goes on is a request, as the received one. -/
theorem type_rebroadcast (hpkt : receivedRreq s i = some pkt) (a : InAddr) (ttl : U8) :
    aodvPktGetType ⟨pkt.payload.set 3 (pkt.hopCount + 1), a, ttl⟩ = AODV_RREQ := by
  rw [← prepare_rreqNext (length_of_receivedRreq hpkt)]
  exact (type_prepare_rreqNext pkt).trans (receivedRreq_eq_some.1 hpkt).2

theorem sentBy_rebroadcast (h : Wf s) (hpkt : receivedRreq s i = some pkt)
    (hre : rebroadcasts s i pkt = true) :
    sentBy s i = [⟨pkt.payload.set 3 (pkt.hopCount + 1), s.broadcast_addr, pkt.ttl - 1⟩] := by
  obtain ⟨hnew, hdest, hans, httl⟩ := rebroadcasts_iff.1 hre
  have hgo : ¬ (pkt.ttl ≤ 1 ∨ answersInstead s i pkt = true) := by
    rw [hans, or_iff_left Bool.false_ne_true]
    exact BitVec.not_le.2 httl
  rw [sentBy_rreq h hpkt, hnew, if_neg Bool.false_ne_true, if_neg hdest, if_neg hgo]

/-- Nothing else that is sent is a request. -/
theorem type_sentBy_of_not_rebroadcast (h : Wf s) (hpkt : receivedRreq s i = some pkt)
    (hre : rebroadcasts s i pkt = false) {p : AodvPkt} (hp : p ∈ sentBy s i) :
    aodvPktGetType p ≠ AODV_RREQ := by
  rw [sentBy_rreq h hpkt] at hp
  split at hp
  · cases hp
  · rename_i hnew
    split at hp
    · obtain rfl := List.mem_singleton.1 hp
      intro htype
      exact rreq_ne_rrep (htype.symm.trans (type_build_rrep ..))
    · rename_i hdest
      split at hp
      · cases hp
      · rename_i hgo
        rw [not_or] at hgo
        refine absurd ?_ (Bool.eq_false_iff.1 hre)
        exact rebroadcasts_iff.2 ⟨Bool.of_not_eq_true hnew, hdest, Bool.of_not_eq_true hgo.2,
          BitVec.not_le.1 hgo.1⟩

/-! ### The destination's entry -/

theorem entry_rreqArrived_of_ne (h : Wf s) (pkt : AodvPkt) {b : InAddr} (hb : b ≠ pkt.address) :
    (rreqArrived s pkt).entry b = s.entry b := by
  rw [rreqArrived]
  cases hr : s.entry pkt.address with
  | some r =>
    have hentry := entry_modifyRoute h
      (keeps_setLifetime s.os.now s.alarms ACTIVE_ROUTE_TIMEOUT) hr b
    rw [if_neg hb] at hentry
    rw [aodvRreqPrevHop_found h hr]
    exact hentry
  | none =>
    rw [aodvRreqPrevHop_new h hr, entry_routingTableAdd (h.alloc (Nat.le_succ _))
      (fresh_prevHopRoute h pkt.address) hr, if_neg (fun hc => hb hc.2)]
    rfl

theorem entry_aodvUpdateOrig_of_ne (h : Wf s) (p : InAddr) (hop : U8) (orig : InAddr) (seq : U32)
    {b : InAddr} (hb : b ≠ orig) : (aodvUpdateOrig s p hop orig seq).1.entry b = s.entry b := by
  cases hr : s.entry orig with
  | some r =>
    have hkeeps := keeps_rreqUpdate p hop seq
    have hentry := entry_modifyRoute h hkeeps hr
    have hother := hentry b
    rw [if_neg hb] at hother
    rw [aodvUpdateOrig_found p hop orig seq h hr]
    split
    · have hset := entry_modifyRoute (h.modifyRoute r.self hkeeps)
        (keeps_setLifetime s.os.now s.alarms (minimalLifetime s.os.now hop))
        ((hentry orig).trans (if_pos rfl)) b
      rw [if_neg hb, hkeeps.self] at hset
      exact hset.trans hother
    · exact hother
  | none =>
    rw [aodvUpdateOrig_new p hop orig seq h hr, entry_routingTableAdd (wf_origAlloc h)
      (fresh_origNew p hop orig seq h) hr, if_neg (fun hc => hb hc.2)]
    rfl

/-- The blocks write the entries of the sender and the originator. -/
theorem entry_rreqReversed_of_ne (h : Wf s) (pkt : AodvPkt) {b : InAddr} (hb : b ≠ pkt.address)
    (horig : b ≠ (rreqOfPayload pkt.payload).orig_ip_addr) :
    (rreqReversed s pkt).entry b = s.entry b := by
  rw [rreqReversed, entry_aodvUpdateOrig_of_ne (wf_rreqBuffered pkt h) _ _ _ _ horig]
  exact entry_rreqArrived_of_ne h pkt hb

theorem fst_aodvAnswerToRreq_of_not {rreq : AodvRreq} {p : InAddr} {o : Nat}
    (hnot : (aodvAnswerToRreq s rreq p o).2 = false) : (aodvAnswerToRreq s rreq p o).1 = s := by
  unfold aodvAnswerToRreq at hnot ⊢
  split
  · rename_i hdest
    rw [if_pos hdest] at hnot
    cases hnot
  · rename_i hdest
    rw [if_neg hdest] at hnot
    split
    · rfl
    · rename_i hr
      rw [hr] at hnot
      dsimp only at hnot
      split
      · rename_i hc
        rw [if_pos hc] at hnot
        cases hnot
      · rfl

/-! ### The request that goes on -/

/-- The larger of two sequence numbers, compared as the code does. -/
def maxSeqNum (a b : U32) : U32 := if a.slt b then b else a

/-- The sequence number that a request asks for, with the entry of the node. -/
def raisedSeqNum (seq_num : U32) : Option RouteInfo → U32
  | some j => if j.seq_valid then maxSeqNum seq_num j.dest_seq_num else seq_num
  | none => seq_num

/-- The datagram `p` is the received request, one hop further; `stored` is the node's entry for its
    destination. -/
structure RebroadcastOf (bcast : InAddr) (stored : Option RouteInfo) (pkt p : AodvPkt) : Prop where
  address : p.address = bcast
  ttl : p.ttl.toNat + 1 = pkt.ttl.toNat
  hop_count : p.hopCount.toNat = pkt.hopCount.toNat + 1
  dest_seq_num : (rreqOfPayload p.payload).dest_seq_num =
    raisedSeqNum (rreqOfPayload pkt.payload).dest_seq_num stored
  rest : SameBytesBut [3, 12, 13, 14, 15] p pkt

/-- **A request that goes on**, and the entry for its destination: that of the table in which the
    reverse route has been made, and the entry from before the turn, if the blocks for the sender
    and the originator do not write it. -/
def RequestPassedOn (s : MshData) (i : Input) : Prop :=
  ∀ pkt ∈ receivedRreq s i, ∀ p ∈ sentBy s i, aodvPktGetType p = AODV_RREQ →
    RebroadcastOf s.broadcast_addr
      ((rreqReversed (s.arrive i) pkt).info (rreqNext pkt).dest_ip_addr) pkt p ∧
    (step s i).info (rreqNext pkt).dest_ip_addr =
      (rreqReversed (s.arrive i) pkt).info (rreqNext pkt).dest_ip_addr ∧
    ((rreqNext pkt).dest_ip_addr ≠ pkt.address →
      (rreqNext pkt).dest_ip_addr ≠ (rreqNext pkt).orig_ip_addr →
      (step s i).entry (rreqNext pkt).dest_ip_addr = s.entry (rreqNext pkt).dest_ip_addr)

/-- **The condition**: the hop count is not at its end, and the entry knows no newer number. -/
def RequestCurrent (s : MshData) (i : Input) : Prop :=
  ∀ pkt ∈ receivedRreq s i, rebroadcasts s i pkt = true →
    pkt.hopCount ≠ 255 ∧
      ∀ j ∈ infoReversed s i pkt (rreqNext pkt).dest_ip_addr, j.seq_valid = true →
        (rreqNext pkt).dest_seq_num.slt j.dest_seq_num = false

theorem raisedSeqNum_eq_iff (seq_num : U32) (stored : Option RouteInfo) :
    seq_num = raisedSeqNum seq_num stored ↔
      ∀ j ∈ stored, j.seq_valid = true → seq_num.slt j.dest_seq_num = false := by
  cases stored with
  | none => simp [raisedSeqNum]
  | some j =>
    simp only [Option.mem_some_iff, forall_eq', raisedSeqNum]
    cases j.seq_valid with
    | false => simp
    | true =>
      rw [if_pos rfl, maxSeqNum]
      constructor
      · intro heq _
        by_contra hlt
        rw [if_pos (Bool.of_not_eq_false hlt)] at heq
        rw [← heq] at hlt
        simp [BitVec.slt] at hlt
      · intro hlt
        rw [hlt rfl, if_neg Bool.false_ne_true]

/-- The table after a turn in which a request goes on. -/
theorem table_rebroadcast (h : Wf s) (hpkt : receivedRreq s i = some pkt)
    (hre : rebroadcasts s i pkt = true) : ∃ stats,
      (step s i).routing_table =
        (rreqReversed ((s.arrive i).withStats stats) pkt).routing_table := by
  obtain ⟨hnew, hdest, hans, httl⟩ := rebroadcasts_iff.1 hre
  obtain ⟨stats, o, hstep⟩ := step_new_rreq h hpkt hnew
  have hwf := (h.arrive i).withStats stats
  have haddr : (rreqReversed ((s.arrive i).withStats stats) pkt).ip_addr = s.ip_addr :=
    (addr_rreqReversed hwf pkt).1
  have hnot := snd_aodvAnswerToRreq_other (rreqNext pkt) pkt.address o (wf_rreqReversed pkt hwf)
    (by rw [haddr]; exact hdest)
  rw [answersForOther_reversed h, hans] at hnot
  refine ⟨stats, ?_⟩
  rw [hstep, rreqReply, if_pos ⟨by rw [hnot]; exact Bool.false_ne_true, httl⟩,
    fst_aodvAnswerToRreq_of_not hnot, aodvForwardRreq_eq]
  rfl

theorem rebroadcastOf_iff (hlen : 24 ≤ pkt.payload.length) (httl : 1 < pkt.ttl) (bcast : InAddr)
    (stored : Option RouteInfo) :
    RebroadcastOf bcast stored pkt
        ⟨pkt.payload.set 3 (pkt.hopCount + 1), bcast, pkt.ttl - 1⟩ ↔
      pkt.hopCount ≠ 255 ∧ ∀ j ∈ stored, j.seq_valid = true →
        (rreqNext pkt).dest_seq_num.slt j.dest_seq_num = false := by
  have hhop : AodvPkt.hopCount ⟨pkt.payload.set 3 (pkt.hopCount + 1), bcast, pkt.ttl - 1⟩ =
      pkt.hopCount + 1 := getD_set_hop_self (by omega) _
  have hseq : (rreqOfPayload (pkt.payload.set 3 (pkt.hopCount + 1))).dest_seq_num =
      (rreqNext pkt).dest_seq_num := by
    rw [rreqOfPayload_set (by omega)]
    rfl
  rw [← raisedSeqNum_eq_iff, ← lt_add_one_iff]
  constructor
  · rintro ⟨-, -, hcount, hraised, -⟩
    rw [hhop] at hcount
    rw [hseq] at hraised
    exact ⟨by bv_omega, hraised⟩
  · rintro ⟨hcount, hraised⟩
    refine ⟨rfl, by bv_omega, ?_, by rw [hseq]; exact hraised,
      sameBytes_set_hop _ (by decide) _ _ _ _⟩
    rw [hhop]
    bv_omega

theorem requestPassedOn_step_iff (h : Wf s) : RequestPassedOn s i ↔ RequestCurrent s i := by
  refine forall_congr' fun pkt => forall_congr' fun hpkt => ?_
  cases hre : rebroadcasts s i pkt with
  | true =>
    obtain ⟨stats, htable⟩ := table_rebroadcast h hpkt hre
    have hwf := (h.arrive i).withStats stats
    have hstored : (rreqReversed (s.arrive i) pkt).info (rreqNext pkt).dest_ip_addr =
        infoReversed s i pkt (rreqNext pkt).dest_ip_addr := info_reversed h i s.stats pkt _
    obtain ⟨hnew, -, -, httl⟩ := rebroadcasts_iff.1 hre
    rw [sentBy_rebroadcast h hpkt hre, List.forall_mem_singleton,
      forall_prop_of_true (type_rebroadcast hpkt _ _), forall_prop_of_true rfl, hstored,
      rebroadcastOf_iff (length_of_receivedRreq hpkt) httl]
    refine and_iff_left ⟨info_new_rreq h hpkt hnew _, fun haddr horig => ?_⟩
    rw [entry_congr htable, entry_rreqReversed_of_ne hwf pkt haddr horig]
    rfl
  | false =>
    -- what is sent is no request
    refine iff_of_true ?_ fun hc => absurd hc Bool.false_ne_true
    intro p hp htype
    exact absurd htype (type_sentBy_of_not_rebroadcast h hpkt hre hp)

/-- **A request is rebroadcast as it should be** in exactly the turns in which its hop count does not
    wrap and the node's entry for the destination knows no newer sequence number. -/
theorem requestPassedOn_iff (ip bcast : InAddr) (iface : U32) (is : List Input) (i : Input) :
    RequestPassedOn (run step (mshDataInit ip bcast iface) is) i ↔
      RequestCurrent (run step (mshDataInit ip bcast iface) is) i :=
  requestPassedOn_step_iff (wf_run ip bcast iface is)

/-- 10.0.0.1 knows 10.0.0.9 with sequence number 5. -/
def destinationKnown : List Input :=
  [⟨0, [], [], datagramFrom 0x0A000002 60 (aodvPktBuildRreq 1 1 7 0x0A000008 0 0x0A000009 5)⟩]

/-- 10.0.0.3 asks for 10.0.0.9 itself, and knows it with sequence number 1. -/
def staleRequest : Input :=
  ⟨1000000, [], [], datagramFrom 0x0A000003 60 (aodvPktBuildRreq 2 1 3 0x0A000009 1 0x0A000007 4)⟩

/-- **The request goes on with the old number.** -/
theorem stale_request_rebroadcast :
    ¬ ∀ (ip bcast : InAddr) (iface : U32) (is : List Input) (i : Input),
      RequestPassedOn (run step (mshDataInit ip bcast iface) is) i := by
  intro hall
  have hcurrent := (requestPassedOn_step_iff (wf_run _ _ _ destinationKnown)).1
    (hall 0x0A000001 0x0A0000FF 0 destinationKnown staleRequest)
  exact absurd hcurrent (by unfold RequestCurrent; decide +kernel)

end Meshias
