import Meshias.Handlers

/-!
# One datagram

What a received datagram does to the node as a whole.  Both handlers are cut into named stages, so
that a property of the node is checked stage by stage, and each stage is one of the blocks of
`Meshias.Handlers`.

* `SameTable s t` — `t` differs from `s` in precursors, lifetimes, the sequence number and what was
  sent.
* `RreqReplied`, `RrepForwarded` — all that the last stage of each handler can do.
* `RrepProcessed` — all that a RREP can do.
* `receivedRreq`, `receivedRrep` — the message an input delivers, if it passes the checks.

Principal results: `aodvProcessRreq_eq`, `aodvProcessRrep_eq` — the handlers as compositions of
stages; `rrepProcessed`; `turn` — everything a turn of the main loop can be; `step_of_receivedRreq`,
`step_of_receivedRrep`.
-/

set_option autoImplicit false

namespace Meshias

variable {s t u : MshData}

/-! ## Operations that leave the map alone -/

structure SameTable (s t : MshData) : Prop where
  wf : Wf s → Wf t
  ip_addr : t.ip_addr = s.ip_addr
  broadcast_addr : t.broadcast_addr = s.broadcast_addr
  net_iface : t.net_iface = s.net_iface
  rreq_id : t.rreq_id = s.rreq_id
  rreq_queue : t.rreq_queue = s.rreq_queue
  packets_queue : t.packets_queue = s.packets_queue
  now : t.os.now = s.os.now
  verdicts : t.os.verdicts = s.os.verdicts
  dels : t.os.dels = s.os.dels
  routes : t.os.routes = s.os.routes
  info : Wf s → t.info = s.info

theorem SameTable.refl (s : MshData) : SameTable s s :=
  ⟨id, rfl, rfl, rfl, rfl, rfl, rfl, rfl, rfl, rfl, rfl, fun _ => rfl⟩

theorem SameTable.trans (h : SameTable s t) (h' : SameTable t u) : SameTable s u where
  wf hs := h'.wf (h.wf hs)
  ip_addr := h'.ip_addr.trans h.ip_addr
  broadcast_addr := h'.broadcast_addr.trans h.broadcast_addr
  net_iface := h'.net_iface.trans h.net_iface
  rreq_id := h'.rreq_id.trans h.rreq_id
  rreq_queue := h'.rreq_queue.trans h.rreq_queue
  packets_queue := h'.packets_queue.trans h.packets_queue
  now := h'.now.trans h.now
  verdicts := h'.verdicts.trans h.verdicts
  dels := h'.dels.trans h.dels
  routes := h'.routes.trans h.routes
  info hs := (h'.info (h.wf hs)).trans (h.info hs)

theorem sameTable_aodvPktSend (s : MshData) (pkt : AodvPkt) : SameTable s (aodvPktSend s pkt) :=
  ⟨fun h => h.congr rfl rfl rfl rfl, rfl, rfl, rfl, rfl, rfl, rfl, rfl, rfl, rfl, rfl,
    fun _ => rfl⟩

theorem sameTable_incSeqNum (s : MshData) : SameTable s s.incSeqNum :=
  ⟨fun h => h.congr rfl rfl rfl rfl, rfl, rfl, rfl, rfl, rfl, rfl, rfl, rfl, rfl, rfl,
    fun _ => rfl⟩

theorem sameTable_addPrecursor (s : MshData) (p : Nat) (a : InAddr) :
    SameTable s (s.modifyRoute p (mshRouteAddPrecursor · a)) :=
  ⟨fun h => h.modifyRoute p (keeps_addPrecursor a), rfl, rfl, rfl, rfl, rfl, rfl, rfl, rfl, rfl,
    rfl, fun h => info_addPrecursor h p a⟩

theorem sameTable_routeSetLifetime (s : MshData) (p : Nat) (lifetime : U32) :
    SameTable s (s.routeSetLifetime p lifetime) :=
  ⟨fun h => h.routeSetLifetime p lifetime, rfl, rfl, rfl, rfl, rfl, rfl, rfl, rfl, rfl, rfl,
    fun h => info_routeSetLifetime h p lifetime⟩

/-- Nothing is sent and the sequence number stays. -/
structure Silent (s t : MshData) : Prop where
  sent : t.os.sent = s.os.sent
  seq_num : t.seq_num = s.seq_num
  seq_incs : t.seq_incs = s.seq_incs

theorem Silent.refl (s : MshData) : Silent s s := ⟨rfl, rfl, rfl⟩

theorem Silent.trans (h : Silent s t) (h' : Silent t u) : Silent s u :=
  ⟨h'.sent.trans h.sent, h'.seq_num.trans h.seq_num, h'.seq_incs.trans h.seq_incs⟩

theorem OnlyTable.silent (h : OnlyTable s t) : Silent s t := ⟨h.sent, h.seq_num, h.seq_incs⟩

theorem SameTable.releases (h : SameTable s t) (hs : Wf s) : Releases s t :=
  .of_same (fun a => by rw [h.info hs]) h.packets_queue h.verdicts

/-! ## The end of a RREQ -/

/-- The reply of the destination itself. -/
def ownReply (s : MshData) (rreq : AodvRreq) (prev_hop : InAddr) : AodvPkt :=
  ⟨aodvPktBuildRrep 0 0 0 s.ip_addr s.seq_num rreq.orig_ip_addr MY_ROUTE_TIMEOUT, prev_hop,
    DEFAULT_TTL⟩

theorem ownReply_ttl_ne_zero {rreq : AodvRreq} {prev_hop : InAddr} :
    (ownReply s rreq prev_hop).ttl ≠ 0 := by
  show DEFAULT_TTL ≠ 0
  decide

/-- A RREQ that may go on does so with a TTL that the socket takes. -/
theorem ttl_sub_one_ne_zero {ttl : U8} (h : ttl > 1) : ttl - 1 ≠ 0 := by bv_omega

/-- `aodv_answer_to_rreq` and the rebroadcast if it does not answer. -/
def rreqReply (s : MshData) (pkt : AodvPkt) (rreq : AodvRreq) (prev_hop : InAddr)
    (route_to_orig : Nat) : MshData :=
  if ¬ (aodvAnswerToRreq s rreq prev_hop route_to_orig).2 ∧ pkt.ttl > 1 then
    aodvForwardRreq (aodvAnswerToRreq s rreq prev_hop route_to_orig).1 pkt rreq
  else (aodvAnswerToRreq s rreq prev_hop route_to_orig).1

/-- What the end of a RREQ can send: nothing, the reply of the destination, or the request. -/
inductive RreqReplied (s : MshData) (pkt : AodvPkt) (rreq : AodvRreq) (prev_hop : InAddr)
    (t : MshData) : Prop where
  | silent (hdest : rreq.dest_ip_addr ≠ s.ip_addr) (hsilent : Silent s t)
  | answered (hdest : rreq.dest_ip_addr = s.ip_addr)
      (hseq : t.seq_num = s.seq_num ∧ t.seq_incs = s.seq_incs ∨
        t.seq_num = s.seq_num + 1 ∧ t.seq_incs = s.seq_incs + 1)
      (hsent : t.os.sent = s.os.sent ++ [ownReply t rreq prev_hop])
  | forwarded (hdest : rreq.dest_ip_addr ≠ s.ip_addr) (httl : pkt.ttl > 1)
      (hseq : t.seq_num = s.seq_num ∧ t.seq_incs = s.seq_incs)
      (hsent : t.os.sent =
        s.os.sent ++ [⟨aodvPktPrepareRreq rreq, s.broadcast_addr, pkt.ttl - 1⟩])

section Rreq

variable (pkt : AodvPkt) (rreq : AodvRreq) (p : InAddr) (o : Nat)

/-- The rebroadcast request is the received one: its sequence number is replaced by itself. -/
theorem aodvForwardRreq_eq :
    aodvForwardRreq s pkt rreq =
      aodvPktSend { s with num_rreq_sent := s.num_rreq_sent + 1 }
        ⟨aodvPktPrepareRreq rreq, s.broadcast_addr, pkt.ttl - 1⟩ := by
  unfold aodvForwardRreq
  cases routingTableFindByIp s.routing_table rreq.dest_ip_addr with
  | none => rfl
  | some r => dsimp only; split <;> (try split) <;> rfl

theorem sameTable_aodvForwardRreq : SameTable s (aodvForwardRreq s pkt rreq) := by
  rw [aodvForwardRreq_eq]
  have hcount : SameTable s { s with num_rreq_sent := s.num_rreq_sent + 1 } :=
    ⟨fun h => h.congr rfl rfl rfl rfl, rfl, rfl, rfl, rfl, rfl, rfl, rfl, rfl, rfl, rfl,
      fun _ => rfl⟩
  exact hcount.trans (sameTable_aodvPktSend _ _)

/-- An answer of an intermediate node is not sent; it only leaves precursors. -/
theorem aodvAnswerToRreq_other (hdest : rreq.dest_ip_addr ≠ s.ip_addr) :
    SameTable s (aodvAnswerToRreq s rreq p o).1 ∧
      (aodvAnswerToRreq s rreq p o).1.active = s.active ∧
      Silent s (aodvAnswerToRreq s rreq p o).1 := by
  unfold aodvAnswerToRreq
  rw [if_neg hdest]
  cases routingTableFindByIp s.routing_table rreq.dest_ip_addr with
  | none => exact ⟨.refl s, rfl, .refl s⟩
  | some r =>
    dsimp only
    split
    · exact ⟨(sameTable_addPrecursor s _ _).trans (sameTable_addPrecursor _ _ _),
        (active_addPrecursor _ _).trans (active_addPrecursor _ _), rfl, rfl, rfl⟩
    · exact ⟨.refl s, rfl, .refl s⟩

theorem aodvAnswerToRreq_own (hdest : rreq.dest_ip_addr = s.ip_addr) :
    aodvAnswerToRreq s rreq p o =
      let s' := if rreq.dest_seq_num = s.seq_num then s.incSeqNum else s
      (aodvPktSend s' (ownReply s' rreq p), true) := by
  unfold aodvAnswerToRreq
  rw [if_pos hdest]
  rfl

/-- The test under which an intermediate node answers. -/
def answersForOther (s : MshData) (rreq : AodvRreq) : Bool :=
  (s.info rreq.dest_ip_addr).isSome && s.seq_num.sle rreq.dest_seq_num &&
    decide (rreq.flags &&& RREQ_DEST_ONLY_FLAG = 0)

theorem snd_aodvAnswerToRreq_other (h : Wf s) (hdest : rreq.dest_ip_addr ≠ s.ip_addr) :
    (aodvAnswerToRreq s rreq p o).2 = answersForOther s rreq := by
  unfold aodvAnswerToRreq answersForOther
  rw [if_neg hdest, routingTableFindByIp_eq h]
  cases hr : s.entry rreq.dest_ip_addr with
  | none => simp [info_eq_none.2 hr]
  | some r =>
    rw [info_of_entry hr]
    dsimp only
    split
    · rename_i hc; simp [hc]
    · rename_i hc; simpa using hc

/-- **The end of a RREQ.** -/
theorem rreqReply_spec :
    SameTable s (rreqReply s pkt rreq p o) ∧ (rreqReply s pkt rreq p o).active = s.active ∧
      RreqReplied s pkt rreq p (rreqReply s pkt rreq p o) := by
  by_cases hdest : rreq.dest_ip_addr = s.ip_addr
  · have hown := aodvAnswerToRreq_own rreq p o hdest
    rw [rreqReply, hown]
    simp only [not_true_eq_false, false_and, if_false]
    split
    · exact ⟨(sameTable_incSeqNum s).trans (sameTable_aodvPktSend _ _), rfl,
        .answered hdest (.inr ⟨rfl, rfl⟩) (sent_aodvPktSend _ ownReply_ttl_ne_zero)⟩
    · exact ⟨sameTable_aodvPktSend _ _, rfl,
        .answered hdest (.inl ⟨rfl, rfl⟩) (sent_aodvPktSend _ ownReply_ttl_ne_zero)⟩
  · obtain ⟨hsame, hact, hsilent⟩ := aodvAnswerToRreq_other rreq p o hdest
    rw [rreqReply]
    split
    · rename_i hc
      refine ⟨hsame.trans (sameTable_aodvForwardRreq pkt rreq), ?_, .forwarded hdest hc.2 ?_ ?_⟩
      · rw [← hact, aodvForwardRreq_eq]; rfl
      · rw [aodvForwardRreq_eq]; exact ⟨hsilent.seq_num, hsilent.seq_incs⟩
      · rw [aodvForwardRreq_eq, ← hsilent.sent, ← hsame.broadcast_addr]
        exact sent_aodvPktSend _ (ttl_sub_one_ne_zero hc.2)
    · exact ⟨hsame, hact, .silent hdest hsilent⟩

/-- When the end of a RREQ sends nothing. -/
theorem rreqReply_sent_iff (h : Wf s) :
    (rreqReply s pkt rreq p o).os.sent = s.os.sent ↔
      rreq.dest_ip_addr ≠ s.ip_addr ∧ (pkt.ttl ≤ 1 ∨ answersForOther s rreq = true) := by
  by_cases hdest : rreq.dest_ip_addr = s.ip_addr
  · have hown := aodvAnswerToRreq_own rreq p o hdest
    rw [rreqReply, hown]
    simp only [not_true_eq_false, false_and, if_false, hdest, ne_eq, iff_false]
    split <;> simp
  · have hsent := (aodvAnswerToRreq_other rreq p o hdest).2.2.sent
    rw [rreqReply, snd_aodvAnswerToRreq_other rreq p o h hdest]
    split
    · rename_i hc
      have hne : (aodvForwardRreq (aodvAnswerToRreq s rreq p o).1 pkt rreq).os.sent ≠ s.os.sent := by
        rw [aodvForwardRreq_eq, aodvPktSend_os_sent, hsent]
        simp
      refine ⟨fun heq => absurd heq hne, ?_⟩
      rintro ⟨-, hle | hans⟩
      · exact absurd hc.2 (BitVec.not_lt.2 hle)
      · exact absurd hans hc.1
    · rename_i hc
      refine ⟨fun _ => ⟨hdest, ?_⟩, fun _ => hsent⟩
      rcases not_and_or.1 hc with hans | hlt
      · exact .inr (not_not.1 hans)
      · exact .inl (BitVec.not_lt.1 hlt)

/-! ## A RREQ as a whole -/

/-- The state in which a RREQ is looked up in the buffer, and whether it is found there. -/
def rreqArrived (s : MshData) (pkt : AodvPkt) : MshData := (aodvRreqPrevHop s pkt.address).1

def rreqDuplicate (s : MshData) (pkt : AodvPkt) : Bool :=
  rreqFifoContains s.rreq_queue (rreqOfPayload pkt.payload).rreq_id
    (rreqOfPayload pkt.payload).dest_ip_addr

/-- The request with its hop count incremented. -/
def rreqNext (pkt : AodvPkt) : AodvRreq :=
  { rreqOfPayload pkt.payload with hop_count := (rreqOfPayload pkt.payload).hop_count + 1 }

/-- A new RREQ is buffered. -/
def rreqBuffered (s : MshData) (pkt : AodvPkt) : MshData :=
  rreqFifoPush (rreqArrived s pkt) (rreqOfPayload pkt.payload).rreq_id
    (rreqOfPayload pkt.payload).dest_ip_addr

/-- The reverse route is made. -/
def rreqReversed (s : MshData) (pkt : AodvPkt) : MshData :=
  (aodvUpdateOrig (rreqBuffered s pkt) pkt.address (rreqOfPayload pkt.payload).hop_count
    (rreqOfPayload pkt.payload).orig_ip_addr (rreqOfPayload pkt.payload).orig_seq_num).1

/-- The pointer to the reverse route. -/
def rreqRouteToOrig (s : MshData) (pkt : AodvPkt) : Nat :=
  (aodvUpdateOrig (rreqBuffered s pkt) pkt.address (rreqOfPayload pkt.payload).hop_count
    (rreqOfPayload pkt.payload).orig_ip_addr (rreqOfPayload pkt.payload).orig_seq_num).2

/-- **A RREQ**: the previous hop, the buffer, the reverse route, and the reply. -/
theorem aodvProcessRreq_eq_reply (h : Wf s) :
    aodvProcessRreq s pkt =
      if rreqDuplicate s pkt then rreqArrived s pkt
      else rreqReply (rreqReversed s pkt) pkt (rreqNext pkt) pkt.address
        (rreqRouteToOrig s pkt) := by
  have hqueue : (rreqArrived s pkt).rreq_queue = s.rreq_queue :=
    (onlyTable_aodvRreqPrevHop h _).rreq_queue
  rw [rreqDuplicate, ← hqueue]
  rfl

theorem aodvProcessRreq_eq (h : Wf s) :
    ∃ o, aodvProcessRreq s pkt =
      if rreqDuplicate s pkt then rreqArrived s pkt
      else rreqReply (rreqReversed s pkt) pkt (rreqNext pkt) pkt.address o :=
  ⟨_, aodvProcessRreq_eq_reply pkt h⟩

theorem wf_rreqFifoInsert (h : Wf s) (rreq_id : U32) (dst : InAddr) (prev_tries : Int) (ms : U32) :
    Wf (rreqFifoInsert s rreq_id dst prev_tries ms) where
  dst_nodup := h.dst_nodup
  self_nodup := h.self_nodup
  self_lt r hr := Nat.lt_succ_of_lt (h.self_lt r hr)
  entry_ok := h.entry_ok
  lost_ok := h.lost_ok
  rreq_nodup := by
    refine List.nodup_cons.2 ⟨?_, h.rreq_nodup⟩
    intro hm
    obtain ⟨e, he, hes⟩ := List.mem_map.1 hm
    exact (h.rreq_lt e he).ne hes
  rreq_lt e he := by
    rcases List.mem_cons.1 he with rfl | he
    · exact Nat.lt_succ_self _
    · exact Nat.lt_succ_of_lt (h.rreq_lt e he)

theorem wf_rreqArrived (h : Wf s) : Wf (rreqArrived s pkt) := wf_aodvRreqPrevHop h _

theorem wf_rreqBuffered (h : Wf s) : Wf (rreqBuffered s pkt) :=
  wf_rreqFifoInsert (wf_rreqArrived pkt h) _ _ _ _

theorem wf_rreqReversed (h : Wf s) : Wf (rreqReversed s pkt) :=
  wf_aodvUpdateOrig _ _ _ _ (wf_rreqBuffered pkt h)

theorem onlyTable_rreqArrived (h : Wf s) : OnlyTable s (rreqArrived s pkt) :=
  onlyTable_aodvRreqPrevHop h _

theorem onlyTable_rreqReversed (h : Wf s) :
    OnlyTable (rreqBuffered s pkt) (rreqReversed s pkt) :=
  onlyTable_aodvUpdateOrig _ _ _ _ (wf_rreqBuffered pkt h)

theorem silent_rreqReversed (h : Wf s) : Silent s (rreqReversed s pkt) := by
  have hpush : Silent (rreqArrived s pkt) (rreqBuffered s pkt) := ⟨rfl, rfl, rfl⟩
  exact ((onlyTable_rreqArrived pkt h).silent.trans hpush).trans (onlyTable_rreqReversed pkt h).silent

/-! ### The map after a RREQ -/

/-- What the kernel answers to the insertion that follows the one of the previous hop. -/
theorem refuses_rreqArrived (h : Wf s) :
    (rreqArrived s pkt).refuses =
      (if s.info pkt.address = none then s.os.refusals.tail else s.os.refusals).headD false := by
  rw [MshData.refuses, rreqArrived, refusals_aodvRreqPrevHop h]

theorem info_rreqArrived (h : Wf s) (b : InAddr) :
    (rreqArrived s pkt).info b =
      if s.info pkt.address = none ∧ s.refuses = false ∧ b = pkt.address then
        some (.prevHop s.net_iface pkt.address)
      else s.info b := info_aodvRreqPrevHop h _ _

theorem active_rreqArrived (h : Wf s) (b : InAddr) :
    (rreqArrived s pkt).active b =
      (decide (b = pkt.address ∧ (s.info pkt.address ≠ none ∨ s.refuses = false)) ||
        s.active b) := active_aodvRreqPrevHop h _ _

theorem info_rreqReversed (h : Wf s) (b : InAddr) :
    (rreqReversed s pkt).info b =
      if b = (rreqOfPayload pkt.payload).orig_ip_addr then
        match (rreqArrived s pkt).info (rreqOfPayload pkt.payload).orig_ip_addr with
        | some i => some (i.rreqUpdate pkt.address (rreqOfPayload pkt.payload).hop_count
            (rreqOfPayload pkt.payload).orig_seq_num)
        | none =>
          if (rreqArrived s pkt).refuses then none
          else some (.orig s.net_iface pkt.address (rreqOfPayload pkt.payload).hop_count
            (rreqOfPayload pkt.payload).orig_ip_addr (rreqOfPayload pkt.payload).orig_seq_num)
      else (rreqArrived s pkt).info b := by
  have hiface : (rreqBuffered s pkt).net_iface = s.net_iface :=
    (onlyTable_aodvRreqPrevHop h pkt.address).net_iface
  rw [rreqReversed, info_aodvUpdateOrig _ _ _ _ (wf_rreqBuffered pkt h), hiface]
  rfl

/-- What both handlers write: an entry that is there is updated, and one that is not is made unless
    the kernel refuses it; `g` is a field that both set to `v`. -/
theorem field_of_written {β : Type} (g : RouteInfo → β) {v : β} {o : Option RouteInfo}
    {f : RouteInfo → RouteInfo} {refuses : Bool} {new x : RouteInfo} (hf : ∀ j, g (f j) = v)
    (hnew : g new = v)
    (hx : (match o with
      | some j => some (f j)
      | none => if refuses then none else some new) = some x) : g x = v := by
  cases o with
  | some j =>
    obtain rfl := Option.some.inj hx
    exact hf j
  | none =>
    dsimp only at hx
    split at hx
    · cases hx
    · obtain rfl := Option.some.inj hx
      exact hnew

theorem active_rreqReversed (h : Wf s) (b : InAddr) :
    (rreqReversed s pkt).active b =
      (decide (b = (rreqOfPayload pkt.payload).orig_ip_addr) &&
        origActivates (rreqArrived s pkt) (rreqOfPayload pkt.payload).hop_count
          (rreqOfPayload pkt.payload).orig_ip_addr || (rreqArrived s pkt).active b) := by
  rw [rreqReversed, active_aodvUpdateOrig _ _ _ _ (wf_rreqBuffered pkt h)]
  rfl

/-- The table after a RREQ. -/
theorem info_aodvProcessRreq (h : Wf s) :
    (aodvProcessRreq s pkt).info =
      if rreqDuplicate s pkt then (rreqArrived s pkt).info else (rreqReversed s pkt).info := by
  obtain ⟨o, heq⟩ := aodvProcessRreq_eq pkt h
  rw [heq]
  split
  · rfl
  · exact (rreqReply_spec pkt _ _ o).1.info (wf_rreqReversed pkt h)

theorem active_aodvProcessRreq (h : Wf s) :
    (aodvProcessRreq s pkt).active =
      if rreqDuplicate s pkt then (rreqArrived s pkt).active else (rreqReversed s pkt).active := by
  obtain ⟨o, heq⟩ := aodvProcessRreq_eq pkt h
  rw [heq]
  split
  · rfl
  · exact (rreqReply_spec pkt _ _ o).2.1

theorem releases_aodvProcessRreq (h : Wf s) : Releases s (aodvProcessRreq s pkt) := by
  have harr := (onlyTable_rreqArrived pkt h).toReleases
  have hpush : Releases (rreqArrived s pkt) (rreqBuffered s pkt) :=
    .of_same (fun _ => Iff.rfl) rfl rfl
  have hrev := (harr.trans hpush).trans (onlyTable_rreqReversed pkt h).toReleases
  obtain ⟨o, heq⟩ := aodvProcessRreq_eq pkt h
  rw [heq]
  split
  · exact harr
  · exact hrev.trans ((rreqReply_spec pkt _ _ o).1.releases (wf_rreqReversed pkt h))

/-- The buffer after a RREQ: a new request is put in front, with the alarm that will forget it. -/
theorem rreq_queue_aodvProcessRreq (h : Wf s) : ∃ self rank,
    (aodvProcessRreq s pkt).rreq_queue =
      if rreqDuplicate s pkt then s.rreq_queue
      else ⟨self, (rreqOfPayload pkt.payload).rreq_id, (rreqOfPayload pkt.payload).dest_ip_addr, -1,
        ⟨s.os.now + PATH_DISCOVERY_TIME.toNat * 1000, some rank⟩⟩ :: s.rreq_queue := by
  have harr := onlyTable_rreqArrived pkt h
  obtain ⟨o, heq⟩ := aodvProcessRreq_eq pkt h
  refine ⟨(rreqArrived s pkt).objects, (rreqArrived s pkt).alarms, ?_⟩
  rw [heq]
  split
  · exact harr.rreq_queue
  · rw [(rreqReply_spec pkt _ _ o).1.rreq_queue, (onlyTable_rreqReversed pkt h).rreq_queue,
      rreqBuffered, rreqFifoPush, rreqFifoInsert_rreq_queue, addAlarm_setAlarmTime, harr.now,
      harr.rreq_queue]

theorem wf_aodvProcessRreq (h : Wf s) : Wf (aodvProcessRreq s pkt) := by
  obtain ⟨o, heq⟩ := aodvProcessRreq_eq pkt h
  rw [heq]
  split
  · exact wf_rreqArrived pkt h
  · exact (rreqReply_spec pkt _ _ o).1.wf (wf_rreqReversed pkt h)

theorem rreq_id_aodvProcessRreq (h : Wf s) : (aodvProcessRreq s pkt).rreq_id = s.rreq_id := by
  have harr := (onlyTable_rreqArrived pkt h).rreq_id
  obtain ⟨o, heq⟩ := aodvProcessRreq_eq pkt h
  rw [heq]
  split
  · exact harr
  · exact ((rreqReply_spec pkt _ _ o).1.rreq_id.trans (onlyTable_rreqReversed pkt h).rreq_id).trans
      harr

end Rreq

/-! ## A RREP as a whole -/

/-- The reply with its hop count incremented. -/
def rrepNext (pkt : AodvPkt) : AodvRrep :=
  { rrepOfPayload pkt.payload with hop_count := (rrepOfPayload pkt.payload).hop_count + 1 }

/-- The state in which a RREP is compared with the table. -/
def rrepArrived (s : MshData) (pkt : AodvPkt) : MshData := (aodvRrepPrevHop s pkt.address).1

/-- The route to the destination is made or updated. -/
def rrepUpdated (s : MshData) (pkt : AodvPkt) : MshData :=
  destUpdated (rrepArrived s pkt) pkt.address (rrepNext pkt)

section Rrep

variable (pkt : AodvPkt)

/-- The pointers to the route to the previous hop and to the one to the destination. -/
def rrepRouteToPrevHop (s : MshData) (pkt : AodvPkt) : Nat := (aodvRrepPrevHop s pkt.address).2

def rrepRouteToDest (s : MshData) (pkt : AodvPkt) : Nat :=
  (aodvFindDest (rrepArrived s pkt) pkt.address (rrepNext pkt)).2.1.self

/-- **A RREP**: the previous hop, the test, the route to the destination, and then the end of the
    discovery or the next node on the way to the originator. -/
theorem aodvProcessRrep_eq_forward (h : Wf s) :
    aodvProcessRrep s pkt =
      if rrepAccepted (rrepArrived s pkt) (rrepNext pkt) then
        if s.ip_addr = (rrepNext pkt).orig_ip_addr then
          rreqFifoDel (rrepUpdated s pkt) s.rreq_id (rrepNext pkt).dest_ip_addr
        else aodvForwardRrep (rrepUpdated s pkt) pkt (rrepNext pkt) (rrepRouteToPrevHop s pkt)
          (rrepRouteToDest s pkt)
      else rrepArrived s pkt := by
  have hp : aodvRrepPrevHop s pkt.address = aodvRreqPrevHop s pkt.address :=
    aodvRrepPrevHop_eq s pkt.address
  have hwf : Wf (rrepArrived s pkt) := by rw [rrepArrived, hp]; exact wf_aodvRreqPrevHop h _
  have htable : OnlyTable s (rrepUpdated s pkt) := by
    have harr := onlyTable_aodvRreqPrevHop h pkt.address
    rw [← hp] at harr
    exact harr.trans (onlyTable_destUpdated _ _ hwf)
  have htest := rrepUpdates_aodvFindDest pkt.address (rrepNext pkt) hwf
  cases hacc : rrepAccepted (rrepArrived s pkt) (rrepNext pkt) with
  | true =>
    rw [if_pos rfl, ← htable.ip_addr, ← htable.rreq_id]
    unfold aodvProcessRrep
    exact if_pos (htest.trans hacc)
  | false =>
    have hrej := Bool.eq_false_iff.1 (htest.trans hacc)
    rw [if_neg Bool.false_ne_true]
    unfold aodvProcessRrep
    exact (if_neg hrej).trans (fst_aodvFindDest_of_rejected _ _ hwf hacc)

theorem aodvProcessRrep_eq (h : Wf s) :
    ∃ ph d, aodvProcessRrep s pkt =
      if rrepAccepted (rrepArrived s pkt) (rrepNext pkt) then
        if s.ip_addr = (rrepNext pkt).orig_ip_addr then
          rreqFifoDel (rrepUpdated s pkt) s.rreq_id (rrepNext pkt).dest_ip_addr
        else aodvForwardRrep (rrepUpdated s pkt) pkt (rrepNext pkt) ph d
      else rrepArrived s pkt :=
  ⟨_, _, aodvProcessRrep_eq_forward pkt h⟩

theorem rrepArrived_eq : rrepArrived s pkt = rreqArrived s pkt := by
  rw [rrepArrived, aodvRrepPrevHop_eq, rreqArrived]

theorem wf_rrepArrived (h : Wf s) : Wf (rrepArrived s pkt) := by
  rw [rrepArrived_eq]; exact wf_rreqArrived pkt h

theorem onlyTable_rrepArrived (h : Wf s) : OnlyTable s (rrepArrived s pkt) := by
  rw [rrepArrived_eq]; exact onlyTable_aodvRreqPrevHop h _

theorem wf_rrepUpdated (h : Wf s) : Wf (rrepUpdated s pkt) :=
  wf_destUpdated _ _ (wf_rrepArrived pkt h)

theorem onlyTable_rrepUpdated (h : Wf s) : OnlyTable s (rrepUpdated s pkt) :=
  (onlyTable_rrepArrived pkt h).trans (onlyTable_destUpdated _ _ (wf_rrepArrived pkt h))

/-- The buffer after `rreq_fifo_del`. -/
def rreqDeleted (queue : List RreqFifo) (rreq_id : U32) (dst : InAddr) : List RreqFifo :=
  match rreqFifoDelEntry queue rreq_id dst with
  | some entry => queue.filter (fun e => e.self ≠ entry.self)
  | none => queue

/-- Nothing else changes. -/
theorem rreqFifoDel_eq (s : MshData) (rreq_id : U32) (dst : InAddr) :
    rreqFifoDel s rreq_id dst = { s with rreq_queue := rreqDeleted s.rreq_queue rreq_id dst } := by
  rw [rreqFifoDel, rreqDeleted]
  cases rreqFifoDelEntry s.rreq_queue rreq_id dst with
  | none => rfl
  | some entry => rfl

/-- **What a RREP can do**: it is refused, it ends the discovery, or it goes on. -/
inductive RrepProcessed (s : MshData) (pkt : AodvPkt) (t : MshData) : Prop where
  | refused (hrej : rrepAccepted (rreqArrived s pkt) (rrepNext pkt) = false)
      (ht : t = rreqArrived s pkt)
  | ended (hacc : rrepAccepted (rreqArrived s pkt) (rrepNext pkt) = true)
      (hown : s.ip_addr = (rrepNext pkt).orig_ip_addr)
      (ht : t = { rrepUpdated s pkt with
        rreq_queue := rreqDeleted s.rreq_queue s.rreq_id (rrepNext pkt).dest_ip_addr })
  | forwarded (hacc : rrepAccepted (rreqArrived s pkt) (rrepNext pkt) = true)
      (hother : s.ip_addr ≠ (rrepNext pkt).orig_ip_addr) (ph d : Nat)
      (ht : t = aodvForwardRrep (rrepUpdated s pkt) pkt (rrepNext pkt) ph d)

theorem rrepProcessed (h : Wf s) : RrepProcessed s pkt (aodvProcessRrep s pkt) := by
  obtain ⟨ph, d, heq⟩ := aodvProcessRrep_eq pkt h
  rw [rrepArrived_eq] at heq
  split at heq
  · rename_i hacc
    split at heq
    · rename_i hown
      rw [rreqFifoDel_eq, (onlyTable_rrepUpdated pkt h).rreq_queue] at heq
      exact .ended hacc hown heq
    · rename_i hother
      exact .forwarded hacc hother ph d heq
  · rename_i hrej
    exact .refused (Bool.eq_false_iff.2 hrej) heq

variable (rrep : AodvRrep) (ph d : Nat)

/-- What passing a RREP on can send: nothing without a route to the originator, otherwise the
    reply itself to the next hop of that route; where its TTL would be 0, the socket keeps its own. -/
inductive RrepForwarded (s : MshData) (pkt : AodvPkt) (rrep : AodvRrep) (t : MshData) : Prop where
  | silent (horig : s.info rrep.orig_ip_addr = none) (hsent : t.os.sent = s.os.sent)
  | forwarded {i : RouteInfo} (horig : s.info rrep.orig_ip_addr = some i)
      (hsent : t.os.sent =
        s.os.sent ++ [⟨aodvPktPrepareRrep rrep, i.next_hop, s.os.setIpTtl (pkt.ttl - 1)⟩])

/-- The address of the next hop that a forwarded RREP brings back into use: its lifetime, 0 when
    it is not in use, is set again when it is below the timeout. -/
def rrepRevives (s : MshData) (orig : InAddr) (b : InAddr) : Bool :=
  (s.info orig).any (fun i => i.next_hop = b) && (s.info b).isSome &&
    decide (getAlarmTime (tvSec s.os.now) (tvUsec s.os.now) + ACTIVE_ROUTE_TIMEOUT ≠ 0)

/-- The refresh of the next hop in `aodv_process_rrep`. -/
def refreshNextHop (s : MshData) (next_hop : InAddr) : MshData :=
  match routingTableFindByIp s.routing_table next_hop with
  | some r =>
    if mshRouteGetLifetime s.os.now r <
        getAlarmTime (tvSec s.os.now) (tvUsec s.os.now) + ACTIVE_ROUTE_TIMEOUT then
      s.routeSetLifetime r.self (mshRouteGetLifetime s.os.now r)
    else s
  | none => s

theorem sameTable_refreshNextHop (s : MshData) (next_hop : InAddr) :
    SameTable s (refreshNextHop s next_hop) := by
  unfold refreshNextHop
  cases routingTableFindByIp s.routing_table next_hop with
  | none => exact .refl s
  | some r =>
    dsimp only
    split
    · exact sameTable_routeSetLifetime _ _ _
    · exact .refl s

theorem silent_refreshNextHop (s : MshData) (a : InAddr) : Silent s (refreshNextHop s a) := by
  unfold refreshNextHop
  cases routingTableFindByIp s.routing_table a with
  | none => exact ⟨rfl, rfl, rfl⟩
  | some r => dsimp only; split <;> exact ⟨rfl, rfl, rfl⟩

theorem active_refreshNextHop (h : Wf s) (a b : InAddr) :
    (refreshNextHop s a).active b =
      (decide (b = a) && (s.info a).isSome &&
        decide (getAlarmTime (tvSec s.os.now) (tvUsec s.os.now) + ACTIVE_ROUTE_TIMEOUT ≠ 0) ||
        s.active b) := by
  unfold refreshNextHop
  rw [routingTableFindByIp_eq h]
  cases hr : s.entry a with
  | none => simp [info_eq_none.2 hr]
  | some r =>
    have hact := active_of_entry hr
    have hlife := active_routeSetLifetime h hr (mshRouteGetLifetime s.os.now r) b
    rw [info_of_entry hr]
    dsimp only
    cases hv : r.hasFlag RTFLAG_VALID_ENTRY with
    | true =>
      by_cases hb : b = a
      · subst hb
        split <;> simp [hlife, hact, hv]
      · split <;> simp [hlife, hb]
    | false =>
      have hzero : mshRouteGetLifetime s.os.now r = 0 := by simp [mshRouteGetLifetime, hv]
      rw [hzero] at hlife ⊢
      split
      · rename_i hc
        rw [hlife]
        have hne := (BitVec.pos_iff_ne_zero _).1 hc
        simp_all
      · rename_i hc
        have heq := mt (BitVec.pos_iff_ne_zero _).2 hc
        simp_all

/-- The state after the reply has gone on, before the next hop is refreshed. -/
def rrepPassed (s : MshData) (pkt : AodvPkt) (rrep : AodvRrep) (d : Nat) (next_hop : InAddr) :
    MshData :=
  let s := aodvPktSend s ⟨aodvPktPrepareRrep rrep, next_hop, pkt.ttl - 1⟩
  if rrep.dest_ip_addr ≠ next_hop then s.modifyRoute d (mshRouteAddPrecursor · next_hop) else s

theorem rrepPassed_spec (next_hop : InAddr) :
    SameTable s (rrepPassed s pkt rrep d next_hop) ∧
      (rrepPassed s pkt rrep d next_hop).active = s.active ∧
      (rrepPassed s pkt rrep d next_hop).os.sent =
        s.os.sent ++ [⟨aodvPktPrepareRrep rrep, next_hop, s.os.setIpTtl (pkt.ttl - 1)⟩] ∧
      (rrepPassed s pkt rrep d next_hop).seq_num = s.seq_num ∧
      (rrepPassed s pkt rrep d next_hop).seq_incs = s.seq_incs := by
  have hsend := sameTable_aodvPktSend s ⟨aodvPktPrepareRrep rrep, next_hop, pkt.ttl - 1⟩
  unfold rrepPassed
  dsimp only
  split
  · exact ⟨hsend.trans (sameTable_addPrecursor _ _ _), active_addPrecursor _ _, rfl, rfl, rfl⟩
  · exact ⟨hsend, rfl, rfl, rfl, rfl⟩

theorem aodvForwardRrep_eq (h : Wf s) :
    aodvForwardRrep s pkt rrep ph d =
      match s.entry rrep.orig_ip_addr with
      | none => s
      | some r =>
        (refreshNextHop (rrepPassed s pkt rrep d r.next_hop) r.next_hop).modifyRoute ph
          (mshRouteAddPrecursor · r.next_hop) := by
  unfold aodvForwardRrep
  rw [routingTableFindByIp_eq h]
  cases s.entry rrep.orig_ip_addr with
  | none => rfl
  | some r => rfl

/-- **A RREP that goes on.** -/
theorem aodvForwardRrep_spec (h : Wf s) :
    SameTable s (aodvForwardRrep s pkt rrep ph d) ∧
      (∀ b, (aodvForwardRrep s pkt rrep ph d).active b =
        (rrepRevives s rrep.orig_ip_addr b || s.active b)) ∧
      RrepForwarded s pkt rrep (aodvForwardRrep s pkt rrep ph d) ∧
      (aodvForwardRrep s pkt rrep ph d).seq_num = s.seq_num ∧
      (aodvForwardRrep s pkt rrep ph d).seq_incs = s.seq_incs := by
  rw [aodvForwardRrep_eq pkt rrep ph d h]
  cases hr : s.entry rrep.orig_ip_addr with
  | none =>
    have hnone := info_eq_none.2 hr
    exact ⟨.refl s, fun b => by simp [rrepRevives, hnone], .silent hnone rfl, rfl, rfl⟩
  | some r =>
    have hi := info_of_entry hr
    obtain ⟨hpass, hact, hsent, hseq, hincs⟩ := rrepPassed_spec (s := s) pkt rrep d r.next_hop
    have hfresh := sameTable_refreshNextHop (rrepPassed s pkt rrep d r.next_hop) r.next_hop
    have hsilent := silent_refreshNextHop (rrepPassed s pkt rrep d r.next_hop) r.next_hop
    refine ⟨(hpass.trans hfresh).trans (sameTable_addPrecursor _ _ _), fun b => ?_,
      .forwarded hi (hsilent.sent.trans hsent), hsilent.seq_num.trans hseq,
      hsilent.seq_incs.trans hincs⟩
    dsimp only
    rw [active_addPrecursor, active_refreshNextHop (hpass.wf h), hact, hpass.info h, hpass.now,
      rrepRevives, hi]
    by_cases hb : b = r.next_hop
    · simp [hb, MshRoute.info]
    · simp [hb, MshRoute.info, Ne.symm hb]

theorem rreqDeleted_eq_filter (queue : List RreqFifo) (rreq_id : U32) (dst : InAddr) :
    ∃ p, rreqDeleted queue rreq_id dst = queue.filter p := by
  unfold rreqDeleted
  split
  · exact ⟨_, rfl⟩
  · exact ⟨fun _ => true, by simp⟩

theorem wf_aodvProcessRrep (h : Wf s) : Wf (aodvProcessRrep s pkt) := by
  have hupd := wf_rrepUpdated pkt h
  cases rrepProcessed pkt h with
  | refused _ ht =>
    rw [ht]
    exact wf_rreqArrived pkt h
  | ended _ _ ht =>
    obtain ⟨p, hp⟩ := rreqDeleted_eq_filter s.rreq_queue s.rreq_id (rrepNext pkt).dest_ip_addr
    rw [← (onlyTable_rrepUpdated pkt h).rreq_queue] at hp
    rw [ht, ← (onlyTable_rrepUpdated pkt h).rreq_queue, hp]
    exact { hupd with
      rreq_nodup := hupd.rreq_nodup.sublist ((List.filter_sublist).map _)
      rreq_lt := fun e he => hupd.rreq_lt e (List.mem_filter.1 he).1 }
  | forwarded _ _ ph d ht =>
    rw [ht]
    exact (aodvForwardRrep_spec pkt _ ph d hupd).1.wf hupd

/-! ### The map after a RREP -/

theorem info_rrepUpdated (h : Wf s) (b : InAddr) :
    (rrepUpdated s pkt).info b =
      if b = (rrepNext pkt).dest_ip_addr then
        match (rreqArrived s pkt).info (rrepNext pkt).dest_ip_addr with
        | some i => some (i.rrepUpdate pkt.address (rrepNext pkt))
        | none =>
          if (rreqArrived s pkt).refuses then none
          else some (.dest s.net_iface pkt.address (rrepNext pkt))
      else (rreqArrived s pkt).info b := by
  have hiface : (rreqArrived s pkt).net_iface = s.net_iface :=
    (onlyTable_aodvRreqPrevHop h pkt.address).net_iface
  have hdest := info_destUpdated pkt.address (rrepNext pkt) (wf_rrepArrived pkt h) b
  rw [rrepArrived_eq, hiface] at hdest
  rw [rrepUpdated, rrepArrived_eq]
  exact hdest

theorem active_rrepUpdated (h : Wf s) (b : InAddr) :
    (rrepUpdated s pkt).active b =
      (decide (b = (rrepNext pkt).dest_ip_addr) &&
        (((rreqArrived s pkt).info (rrepNext pkt).dest_ip_addr).isSome ||
          !(rreqArrived s pkt).refuses) || (rreqArrived s pkt).active b) := by
  rw [rrepUpdated, active_destUpdated _ _ (wf_rrepArrived pkt h), rrepArrived_eq]

/-- The table after a RREP. -/
theorem info_aodvProcessRrep (h : Wf s) :
    (aodvProcessRrep s pkt).info =
      if rrepAccepted (rreqArrived s pkt) (rrepNext pkt) then (rrepUpdated s pkt).info
      else (rreqArrived s pkt).info := by
  cases rrepProcessed pkt h with
  | refused hrej ht => rw [ht, hrej, if_neg Bool.false_ne_true]
  | ended hacc _ ht =>
    rw [ht, if_pos hacc]
    exact info_congr rfl
  | forwarded hacc _ ph d ht =>
    rw [ht, if_pos hacc]
    exact (aodvForwardRrep_spec pkt _ ph d (wf_rrepUpdated pkt h)).1.info (wf_rrepUpdated pkt h)

/-- The entries in use after a RREP; the next hop it is passed on to may come back into use. -/
theorem active_aodvProcessRrep (h : Wf s) (b : InAddr) :
    (aodvProcessRrep s pkt).active b =
      if rrepAccepted (rreqArrived s pkt) (rrepNext pkt) then
        (decide (s.ip_addr ≠ (rrepNext pkt).orig_ip_addr) &&
          rrepRevives (rrepUpdated s pkt) (rrepNext pkt).orig_ip_addr b ||
          (rrepUpdated s pkt).active b)
      else (rreqArrived s pkt).active b := by
  cases rrepProcessed pkt h with
  | refused hrej ht => rw [ht, hrej, if_neg Bool.false_ne_true]
  | ended hacc hown ht =>
    rw [ht, if_pos hacc, decide_eq_false (not_not.2 hown), Bool.false_and, Bool.false_or]
    exact congrFun (active_congr rfl) b
  | forwarded hacc hother ph d ht =>
    rw [ht, if_pos hacc, decide_eq_true hother, Bool.true_and]
    exact (aodvForwardRrep_spec pkt _ ph d (wf_rrepUpdated pkt h)).2.1 b

theorem releases_aodvProcessRrep (h : Wf s) : Releases s (aodvProcessRrep s pkt) := by
  have hupd := (onlyTable_rrepUpdated pkt h).toReleases
  cases rrepProcessed pkt h with
  | refused _ ht =>
    rw [ht]
    exact (onlyTable_rreqArrived pkt h).toReleases
  | ended _ _ ht =>
    rw [ht]
    exact hupd.trans (.of_same (fun _ => Iff.rfl) rfl rfl)
  | forwarded _ _ ph d ht =>
    rw [ht]
    exact hupd.trans ((aodvForwardRrep_spec pkt _ ph d (wf_rrepUpdated pkt h)).1.releases
      (wf_rrepUpdated pkt h))

/-- The buffer after a RREP: the end of a discovery deletes an entry. -/
theorem rreq_queue_aodvProcessRrep (h : Wf s) :
    (aodvProcessRrep s pkt).rreq_queue =
      if rrepAccepted (rreqArrived s pkt) (rrepNext pkt) ∧
          s.ip_addr = (rrepNext pkt).orig_ip_addr then
        rreqDeleted s.rreq_queue s.rreq_id (rrepNext pkt).dest_ip_addr
      else s.rreq_queue := by
  cases rrepProcessed pkt h with
  | refused hrej ht =>
    rw [ht, if_neg (fun hc => Bool.false_ne_true (hrej.symm.trans hc.1))]
    exact (onlyTable_rreqArrived pkt h).rreq_queue
  | ended hacc hown ht => rw [ht, if_pos ⟨hacc, hown⟩]
  | forwarded _ hother ph d ht =>
    rw [ht, if_neg (fun hc => hother hc.2),
      (aodvForwardRrep_spec pkt _ ph d (wf_rrepUpdated pkt h)).1.rreq_queue]
    exact (onlyTable_rrepUpdated pkt h).rreq_queue

theorem rreq_id_aodvProcessRrep (h : Wf s) : (aodvProcessRrep s pkt).rreq_id = s.rreq_id := by
  have hupd := (onlyTable_rrepUpdated pkt h).rreq_id
  cases rrepProcessed pkt h with
  | refused _ ht => rw [ht, (onlyTable_rreqArrived pkt h).rreq_id]
  | ended _ _ ht => rw [ht, ← hupd]
  | forwarded _ _ ph d ht =>
    rw [ht, (aodvForwardRrep_spec pkt _ ph d (wf_rrepUpdated pkt h)).1.rreq_id, hupd]

end Rrep

/-! ## The main loop -/

/-- The packet in a datagram, and whether it passes the checks; the counters do not matter. -/
def Msghdr.pkt (msg : Msghdr) : AodvPkt := (aodvPktGet {} msg).2

def AodvPkt.valid (pkt : AodvPkt) : Bool := (aodvPktCheck {} pkt).2

/-- The datagram an input delivers, if it passes the checks and is not the node's own. -/
def MshData.received (s : MshData) (i : Input) : Option AodvPkt :=
  match i.event with
  | .datagram msg =>
    if msg.pkt.valid ∧ msg.pkt.address ≠ s.ip_addr then some msg.pkt else none
  | _ => none

def receivedRreq (s : MshData) (i : Input) : Option AodvPkt :=
  (s.received i).filter (fun pkt => aodvPktGetType pkt = AODV_RREQ)

def receivedRrep (s : MshData) (i : Input) : Option AodvPkt :=
  (s.received i).filter (fun pkt => aodvPktGetType pkt = AODV_RREP)

theorem address_of_received {i : Input} {pkt : AodvPkt} (h : s.received i = some pkt) :
    pkt.address ≠ s.ip_addr := by
  unfold MshData.received at h
  split at h
  · split at h
    · rename_i hc
      obtain rfl := Option.some.inj h
      exact hc.2
    · exact absurd h (by simp)
  · exact absurd h (by simp)

theorem receivedRreq_eq_some {i : Input} {pkt : AodvPkt} :
    receivedRreq s i = some pkt ↔ s.received i = some pkt ∧ aodvPktGetType pkt = AODV_RREQ := by
  rw [receivedRreq, Option.filter_eq_some_iff, decide_eq_true_eq]

theorem receivedRrep_eq_some {i : Input} {pkt : AodvPkt} :
    receivedRrep s i = some pkt ↔ s.received i = some pkt ∧ aodvPktGetType pkt = AODV_RREP := by
  rw [receivedRrep, Option.filter_eq_some_iff, decide_eq_true_eq]

theorem address_of_receivedRreq {i : Input} {pkt : AodvPkt} (h : receivedRreq s i = some pkt) :
    pkt.address ≠ s.ip_addr := address_of_received (receivedRreq_eq_some.1 h).1

theorem address_of_receivedRrep {i : Input} {pkt : AodvPkt} (h : receivedRrep s i = some pkt) :
    pkt.address ≠ s.ip_addr := address_of_received (receivedRrep_eq_some.1 h).1

/-- A datagram is not both. -/
theorem receivedRrep_of_rreq {i : Input} {pkt : AodvPkt} (h : receivedRreq s i = some pkt) :
    receivedRrep s i = none := by
  obtain ⟨hrec, htype⟩ := receivedRreq_eq_some.1 h
  rw [receivedRrep, hrec, Option.filter_some, if_neg]
  simp [htype, AODV_RREQ, AODV_RREP]

theorem receivedRreq_of_rrep {i : Input} {pkt : AodvPkt} (h : receivedRrep s i = some pkt) :
    receivedRreq s i = none := by
  obtain ⟨hrec, htype⟩ := receivedRrep_eq_some.1 h
  rw [receivedRreq, hrec, Option.filter_some, if_neg]
  simp [htype, AODV_RREQ, AODV_RREP]

/-- Only a datagram is received. -/
theorem received_of_event {i : Input} (h : ∀ msg, i.event ≠ .datagram msg) :
    receivedRreq s i = none ∧ receivedRrep s i = none := by
  have hrec : s.received i = none := by
    unfold MshData.received
    split
    · exact absurd (by assumption) (h _)
    · rfl
  rw [receivedRreq, receivedRrep, hrec]
  exact ⟨rfl, rfl⟩

theorem not_alarms_of_rreq {i : Input} {pkt : AodvPkt} (h : receivedRreq s i = some pkt) :
    i.event ≠ .alarms := by
  intro hev
  rw [(received_of_event (by simp [hev])).1] at h
  cases h

theorem not_alarms_of_rrep {i : Input} {pkt : AodvPkt} (h : receivedRrep s i = some pkt) :
    i.event ≠ .alarms := by
  intro hev
  rw [(received_of_event (by simp [hev])).2] at h
  cases h

@[simps]
def MshData.withStats (s : MshData) (stats : Statistics) : MshData := { s with stats }

theorem rreqDuplicate_arrive (s : MshData) (i : Input) (stats : Statistics) (pkt : AodvPkt) :
    rreqDuplicate ((s.arrive i).withStats stats) pkt = rreqDuplicate s pkt := rfl

/-- **One turn of the main loop**, by what arrives. -/
inductive Turn (s : MshData) (i : Input) : Prop where
  | rreq (pkt : AodvPkt) (stats : Statistics) (hpkt : receivedRreq s i = some pkt)
      (hstep : step s i = aodvProcessRreq ((s.arrive i).withStats stats) pkt)
  | rrep (pkt : AodvPkt) (stats : Statistics) (hpkt : receivedRrep s i = some pkt)
      (hstep : step s i = aodvProcessRrep ((s.arrive i).withStats stats) pkt)
  | packet (nfa : NfqData) (hevent : i.event = .packet nfa)
      (hstep : step s i = managePacket (s.arrive i) nfa)
  | alarms (hevent : i.event = .alarms) (hstep : step s i = doAlarmRun (s.arrive i))
  | quiet (stats : Statistics) (hrreq : receivedRreq s i = none) (hrrep : receivedRrep s i = none)
      (hpacket : ∀ nfa, i.event ≠ .packet nfa) (halarms : i.event ≠ .alarms)
      (hstep : step s i = (s.arrive i).withStats stats)

theorem snd_aodvPktGet (stats : Statistics) (msg : Msghdr) :
    (aodvPktGet stats msg).2 = msg.pkt := by
  unfold Msghdr.pkt aodvPktGet
  cases msg.msg_name <;> dsimp only <;> split <;> rfl

theorem snd_aodvPktCheck (stats : Statistics) (pkt : AodvPkt) :
    (aodvPktCheck stats pkt).2 = pkt.valid := by
  unfold AodvPkt.valid aodvPktCheck
  dsimp only
  repeat' split
  all_goals rfl

/-- The dispatch on the message type. -/
theorem aodvProcessPacket_eq (s : MshData) (msg : Msghdr) : ∃ stats stats',
    aodvProcessPacket s msg =
      if ¬ msg.pkt.valid ∨ msg.pkt.address = s.ip_addr then s.withStats stats
      else if aodvPktGetType msg.pkt = AODV_RREQ then aodvProcessRreq (s.withStats stats) msg.pkt
      else if aodvPktGetType msg.pkt = AODV_RREP then aodvProcessRrep (s.withStats stats) msg.pkt
      else s.withStats stats' := by
  have hget := snd_aodvPktGet s.stats msg
  have hcheck := snd_aodvPktCheck (aodvPktGet s.stats msg).1 msg.pkt
  refine ⟨(aodvPktCheck (aodvPktGet s.stats msg).1 msg.pkt).1,
    (aodvProcessPacket s msg).stats, ?_⟩
  by_cases hbad : ¬ msg.pkt.valid ∨ msg.pkt.address = s.ip_addr
  · rw [if_pos hbad]
    simp only [aodvProcessPacket, hget, hcheck]
    split
    · rfl
    · rename_i hok
      rw [if_pos (hbad.resolve_left hok)]
      rfl
  · obtain ⟨hok, hown⟩ := not_or.1 hbad
    rw [if_neg hbad]
    simp only [aodvProcessPacket, hget, hcheck]
    rw [if_neg hok, if_neg hown]
    split
    · rfl
    · split
      · rfl
      · split
        · rfl
        · split <;> rfl

theorem turn (s : MshData) (i : Input) : Turn s i := by
  cases hev : i.event with
  | packet nfa => exact .packet nfa hev (by rw [step, hev]; rfl)
  | alarms => exact .alarms hev (by rw [step, hev]; rfl)
  | cleanStatistics =>
    have hrec : s.received i = none := by rw [MshData.received, hev]
    exact .quiet {} (by rw [receivedRreq, hrec]; rfl) (by rw [receivedRrep, hrec]; rfl)
      (by simp [hev]) (by simp [hev]) (by rw [step, hev]; rfl)
  | datagram msg =>
    obtain ⟨stats, stats', heq⟩ := aodvProcessPacket_eq (s.arrive i) msg
    have hstep : step s i = aodvProcessPacket (s.arrive i) msg := by rw [step, hev]; rfl
    rw [heq] at hstep
    by_cases hbad : ¬ msg.pkt.valid ∨ msg.pkt.address = s.ip_addr
    · have hrec : s.received i = none := by
        rw [MshData.received, hev]
        exact if_neg (fun hc => hbad.elim (· hc.1) hc.2)
      exact .quiet stats (by rw [receivedRreq, hrec]; rfl) (by rw [receivedRrep, hrec]; rfl)
        (by simp [hev]) (by simp [hev]) (hstep.trans (if_pos hbad))
    · have hrec : s.received i = some msg.pkt := by
        rw [MshData.received, hev]
        exact if_pos ⟨not_not.1 (not_or.1 hbad).1, (not_or.1 hbad).2⟩
      rw [if_neg (show ¬ (_ ∨ _ = (s.arrive i).ip_addr) from hbad)] at hstep
      by_cases h1 : aodvPktGetType msg.pkt = AODV_RREQ
      · exact .rreq _ stats (by rw [receivedRreq, hrec]; simp [h1]) (hstep.trans (if_pos h1))
      · have hrreq : receivedRreq s i = none := by rw [receivedRreq, hrec]; simp [h1]
        rw [if_neg h1] at hstep
        by_cases h2 : aodvPktGetType msg.pkt = AODV_RREP
        · exact .rrep _ stats (by rw [receivedRrep, hrec]; simp [h2]) (hstep.trans (if_pos h2))
        · exact .quiet stats' hrreq (by rw [receivedRrep, hrec]; simp [h2]) (by simp [hev])
            (by simp [hev]) (hstep.trans (if_neg h2))

/-- The turn of a RREQ that passes the checks. -/
theorem step_of_receivedRreq {i : Input} {pkt : AodvPkt} (h : receivedRreq s i = some pkt) :
    ∃ stats, step s i = aodvProcessRreq ((s.arrive i).withStats stats) pkt := by
  cases turn s i with
  | rreq pkt' stats hpkt hstep =>
    obtain rfl := Option.some.inj (hpkt.symm.trans h)
    exact ⟨stats, hstep⟩
  | rrep pkt' stats hpkt _ => rw [receivedRreq_of_rrep hpkt] at h; cases h
  | packet nfa hev _ => rw [(received_of_event (by simp [hev])).1] at h; cases h
  | alarms hev _ => rw [(received_of_event (by simp [hev])).1] at h; cases h
  | quiet stats hnone => rw [hnone] at h; cases h

/-- The turn of a RREP that passes the checks. -/
theorem step_of_receivedRrep {i : Input} {pkt : AodvPkt} (h : receivedRrep s i = some pkt) :
    ∃ stats, step s i = aodvProcessRrep ((s.arrive i).withStats stats) pkt := by
  cases turn s i with
  | rreq pkt' stats hpkt _ => rw [receivedRrep_of_rreq hpkt] at h; cases h
  | rrep pkt' stats hpkt hstep =>
    obtain rfl := Option.some.inj (hpkt.symm.trans h)
    exact ⟨stats, hstep⟩
  | packet nfa hev _ => rw [(received_of_event (by simp [hev])).2] at h; cases h
  | alarms hev _ => rw [(received_of_event (by simp [hev])).2] at h; cases h
  | quiet stats _ hnone => rw [hnone] at h; cases h

end Meshias
