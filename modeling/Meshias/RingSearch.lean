import Meshias.Chain

/-!
# The nodes of a chain during a discovery

Node 0 of a chain asks for node `k`.  The RREQ goes from node to node until its TTL is used up or
node `k` answers; the RREP comes back the same way.  If there is no answer, the alarm of the request
starts the next try, with a larger TTL; after the last one the packet is dropped, or it waits for ever
where the freed request no longer tells its destination.

* `Goals` — the routes that have been obtained.
* `Asking`, `NodeOk` — what holds at node 0 and at the others while the packet waits.

Principal results: `Asking.init`, `Asking.rings`, `Asking.answered` — node 0 captures the packet,
tries again or gives up, and releases the packet; `NodeOk.hears_new`, `NodeOk.hears_reply` — the RREQ
and the RREP come to another node.
-/

set_option autoImplicit false

namespace Meshias

/-- The nodes have different addresses, none of them the broadcast address. -/
structure Line (k : Nat) (addr : Nat → InAddr) (bcast : InAddr) : Prop where
  links : 1 ≤ k
  distinct : ∀ i ≤ k, ∀ j ≤ k, addr i = addr j → i = j
  broadcast : ∀ i ≤ k, addr i ≠ bcast

/-- An entry in use for a destination over a neighbour. -/
def RouteVia (s : MshData) (dst next_hop : InAddr) : Prop :=
  s.active dst = true ∧ ∃ x ∈ s.info dst, x.next_hop = next_hop

/-- What has been obtained so far: the route of node `i` to node 0, its route to node `k`, and the
    route of node 0. -/
structure Goals where
  reverse : Nat → Prop
  forward : Nat → Prop
  origin : Prop

/-- Nothing is lost, and what the network has now is obtained. -/
structure Goals.Grows (g : Goals) (k : Nat) (addr : Nat → InAddr) (c : ChainNet) (g' : Goals) :
    Prop where
  reverse : ∀ i, g.reverse i ∨ RouteVia (c.node i) (addr 0) (addr (i - 1)) → g'.reverse i
  forward : ∀ i, g.forward i ∨ RouteVia (c.node i) (addr k) (addr (i + 1)) → g'.forward i
  origin : g.origin ∨ RouteVia (c.node 0) (addr k) (addr 1) → g'.origin

section Nodes

variable (k : Nat) (addr : Nat → InAddr) (pid : U32)

/-- Node 0 waits for the answer to try `j`. -/
structure Asking (j : Nat) (s : MshData) : Prop where
  entry : ∃ e, s.rreq_queue = [e] ∧ e.dst = addr k ∧ e.prev_tries = j ∧ e.rreq_id = rreqNo j ∧
    e.alarm.pending = true
  rreq_id : s.rreq_id = rreqNo j
  tries : j ≤ RREQ_RETRIES.toNat
  packets_queue : s.packets_queue = [⟨pid, addr k⟩]
  verdicts : s.os.verdicts = []
  info : s.info (addr k) = none

/-- Node `i`, when the RREQ of try `j` has come as far as node `f` and the RREP back to node `r`. -/
structure NodeOk (g : Goals) (j f r i : Nat) (s : MshData) : Prop where
  noOwn : NoOwn s
  ids : ∀ e ∈ s.rreq_queue, e.dst = addr k → e.rreq_id.toNat ≤ j + 1
  unheard : f < i → ∀ e ∈ s.rreq_queue, e.dst = addr k → e.rreq_id.toNat ≤ j
  heard : i ≤ f → rreqFifoContains s.rreq_queue (rreqNo j) (addr k) = true ∧
    ∃ x ∈ s.info (addr 0), x.next_hop = addr (i - 1)
  reverse : i ≤ f ∨ s.info (addr 0) ≠ none → g.reverse i
  unknown : i < r → i < k → s.info (addr k) = none
  forward : r ≤ i → i < k → g.forward i

end Nodes

section Node

variable {k : Nat} {addr : Nat → InAddr} {bcast : InAddr} {pid : U32} {g g' : Goals} {c : ChainNet}
  {j f r i : Nat} {s : MshData} {p : AodvPkt} {m now : Nat}

theorem rreqNo_toNat (hj : j ≤ RREQ_RETRIES.toNat) : (rreqNo j).toNat = j + 1 := by
  have hj : j ≤ 2 := hj
  rw [rreqNo, BitVec.toNat_ofNat, Nat.mod_eq_of_lt (by omega)]

theorem contains_iff {q : List RreqFifo} {id : U32} {d : InAddr} :
    rreqFifoContains q id d = true ↔ ∃ e ∈ q, e.rreq_id = id ∧ e.dst = d := by
  simp [rreqFifoContains]

theorem Line.ne (h : Line k addr bcast) (hi : i ≤ k) (hj : j ≤ k) (hne : i ≠ j) :
    addr i ≠ addr j := fun heq => hne (h.distinct i hi j hj heq)

/-! ## Node 0 -/

theorem Asking.contains (h : Asking k addr pid j s) :
    rreqFifoContains s.rreq_queue (rreqNo j) (addr k) = true := by
  obtain ⟨e, hq, hdst, -, hid, -⟩ := h.entry
  exact contains_iff.2 ⟨e, by rw [hq]; exact List.mem_singleton_self e, hid, hdst⟩

theorem Asking.waiting (h : Asking k addr pid j s) :
    rreqFifoWaitingResponseFor s.rreq_queue (addr k) = true := by
  obtain ⟨e, hq, hdst, htries, -⟩ := h.entry
  exact waiting_iff.2 ⟨e, by rw [hq]; exact List.mem_singleton_self e, by omega, hdst⟩

/-- A packet for a destination without a route, and the first one for it. -/
theorem asks (hwf : Wf s) {nfa : NfqData} (hpass : packetPasses s nfa = false)
    (hhook : nfqueuePacketGetHook nfa = NF_IP_LOCAL_OUT)
    (husable : routeUsable s (nfqueuePacketGetDest nfa) = false)
    (hwaiting : rreqFifoWaitingResponseFor s.rreq_queue (nfqueuePacketGetDest nfa) = false) :
    managePacket s nfa = aodvFindRoute (packetsFifoPush (packetLookedUp s nfa 0)
      (nfqueuePacketGetId nfa) (nfqueuePacketGetDest nfa)) (nfqueuePacketGetDest nfa) none 0 := by
  have hin : NF_IP_LOCAL_OUT ≠ NF_IP_LOCAL_IN := by decide
  have hfwd : NF_IP_LOCAL_OUT ≠ NF_IP_FORWARD := by decide
  cases packetManaged hwf nfa with
  | passed hpass' => rw [hpass] at hpass'; cases hpass'
  | routed orig _ _ husable' =>
    rcases husable' with hhook' | husable'
    · exact absurd (hhook.symm.trans hhook') hfwd
    · rw [husable] at husable'; cases husable'
  | unanswered _ hhook' => exact absurd (hhook.symm.trans hhook') hin
  | queued _ _ _ hwaiting' => rw [hwaiting] at hwaiting'; cases hwaiting'
  | discovered _ _ _ _ ht => exact ht

/-- **Node 0 captures the packet.** -/
theorem Asking.init (iface : U32) (now : Nat) {nfa : NfqData} (hline : Line k addr bcast)
    (hhook : nfqueuePacketGetHook nfa = NF_IP_LOCAL_OUT) (hdata : nfqueuePacketIsAodv nfa = false)
    (hdest : nfqueuePacketGetDest nfa = addr k) :
    Asking k addr (nfqueuePacketGetId nfa) 0
        (step (mshDataInit (addr 0) bcast iface) ⟨now, [], [], .packet nfa⟩) ∧
      ∃ q, (step (mshDataInit (addr 0) bcast iface) ⟨now, [], [], .packet nfa⟩).os.sent = [q] ∧
        Request k addr bcast 0 0 q := by
  obtain ⟨s, hs⟩ : ∃ s, s = (mshDataInit (addr 0) bcast iface).arrive ⟨now, [], [], .packet nfa⟩ :=
    ⟨_, rfl⟩
  have hwf : Wf s := hs ▸ (Wf.init (addr 0) bcast iface).arrive _
  have hpass : packetPasses s nfa = false := by
    have hb : addr k ≠ s.broadcast_addr := hs ▸ hline.broadcast k le_rfl
    simp [packetPasses, hdata, hdest, hhook, hb]
  have husable : routeUsable s (nfqueuePacketGetDest nfa) = false := by
    have hne : addr k ≠ s.ip_addr :=
      hs ▸ hline.ne le_rfl (Nat.zero_le k) (Nat.ne_of_gt hline.links)
    have hactive : s.active (addr k) = false := hs ▸ rfl
    simp [routeUsable, hdest, hne, hactive]
  have heq := asks hwf hpass hhook husable (hs ▸ rfl)
  have hlook := sameTable_packetLookedUp hwf nfa 0
  have hsilent : Silent s (packetLookedUp s nfa 0) :=
    (routingTableUpdateRoute_spec hwf (nfqueuePacketGetDest nfa) 0).2.1
  have horig := originated_aodvFindRoute (packetsFifoPush (packetLookedUp s nfa 0)
    (nfqueuePacketGetId nfa) (nfqueuePacketGetDest nfa)) (nfqueuePacketGetDest nfa) 0
  change Asking k addr _ 0 (managePacket
      ((mshDataInit (addr 0) bcast iface).arrive ⟨now, [], [], .packet nfa⟩) nfa) ∧
    ∃ q, (managePacket ((mshDataInit (addr 0) bcast iface).arrive ⟨now, [], [], .packet nfa⟩)
      nfa).os.sent = [q] ∧ _
  have hinfo : (managePacket s nfa).info (addr k) = none := by
    rw [info_managePacket hwf, hs]
    rfl
  rw [← hs]
  rw [heq, hdest] at hinfo ⊢
  rw [hdest] at horig
  generalize hu : packetsFifoPush (packetLookedUp s nfa 0) (nfqueuePacketGetId nfa) (addr k) = u
    at horig hinfo ⊢
  have hid : u.rreq_id + 1 = rreqNo 0 := by
    rw [← hu, packetsFifoPush_rreq_id, hlook.rreq_id, hs]
    rfl
  have hqueue : u.rreq_queue = [] := by
    rw [← hu, packetsFifoPush_rreq_queue, hlook.rreq_queue, hs]
    rfl
  generalize aodvFindRoute u (addr k) none 0 = t at horig hinfo ⊢
  refine ⟨⟨⟨ownEntry u (addr k), ?_, rfl, rfl, hid, rfl⟩, ?_, ?_, ?_, ?_, hinfo⟩,
    ownRequest u (addr k) 0, ?_, ?_⟩
  · rw [horig.rreq_queue, if_pos rfl, hqueue]
  · exact horig.rreq_id.trans hid
  · exact Nat.zero_le _
  · rw [horig.packets_queue, ← hu, packetsFifoPush_packets_queue, hlook.packets_queue, hs]
    rfl
  · rw [horig.verdicts, ← hu, packetsFifoPush_os, hlook.verdicts, hs]
    rfl
  · rw [horig.sent, ← hu, packetsFifoPush_os, hsilent.sent, hs]
    rfl
  · refine request_own hid ?_ ?_ (Nat.zero_le _)
    · rw [← hu, packetsFifoPush_ip_addr, hlook.ip_addr, hs]
      rfl
    · rw [← hu, packetsFifoPush_broadcast_addr, hlook.broadcast_addr, hs]
      rfl

/-- A turn that leaves the buffer alone and brings no entry for node `k`. -/
theorem Asking.kept (h : Asking k addr pid j s) {t : MshData} (hrel : Releases s t)
    (hids : t.ids.Perm s.ids) (hqueue : t.rreq_queue = s.rreq_queue) (hid : t.rreq_id = s.rreq_id)
    (hinfo : t.info (addr k) = none) : Asking k addr pid j t := by
  have hpackets : t.packets_queue = [⟨pid, addr k⟩] := by
    rw [hrel.packets, h.packets_queue]
    simp [hinfo]
  refine ⟨by rw [hqueue]; exact h.entry, hid.trans h.rreq_id, h.tries, hpackets, ?_, hinfo⟩
  have hlen := hids.length_eq
  simp only [MshData.ids, hpackets, h.packets_queue, h.verdicts, List.length_append,
    List.length_map, List.length_nil, List.length_singleton] at hlen
  exact List.eq_nil_of_length_eq_zero (by omega)

/-- A RREQ that node 0 hears again. -/
theorem Asking.hears (hwf : Wf s) (h : Asking k addr pid j s) {a : InAddr} (hak : addr k ≠ a)
    (hs : HearsAgain s a (step s (heard now a p))) :
    Asking k addr pid j (step s (heard now a p)) :=
  h.kept hs.releases (ids_heard now hwf) hs.rreq_queue hs.rreq_id
    ((hs.info _ (.inl hak)).trans h.info)

/-- **The RREP releases the packet.** -/
theorem Asking.answered (hwf : Wf s) (h : Asking k addr pid j s) {a : InAddr}
    (hdest : p.rrep.dest_ip_addr = addr k) (hs : HearsReply s a p (step s (heard now a p)))
    (hqueue : (step s (heard now a p)).rreq_queue =
      rreqDeleted s.rreq_queue s.rreq_id p.rrep.dest_ip_addr) :
    (step s (heard now a p)).rreq_queue = [] ∧ (step s (heard now a p)).packets_queue = [] ∧
      (step s (heard now a p)).os.verdicts = [(pid, .NF_ACCEPT)] := by
  have hids := ids_heard now (a := a) (p := p) hwf
  generalize step s (heard now a p) = t at hs hqueue hids ⊢
  have hpackets : t.packets_queue = [] := by
    obtain ⟨x, hx, -⟩ := hs.forward
    rw [hdest] at hx
    rw [hs.releases.packets, h.packets_queue]
    simp [h.info, Option.mem_def.1 hx]
  refine ⟨?_, hpackets, ?_⟩
  · obtain ⟨e, hq, hdst, -, hid, -⟩ := h.entry
    have hfound : rreqFifoDelEntry s.rreq_queue s.rreq_id (addr k) = some e := by
      rw [rreqFifoDelEntry, hq, h.rreq_id, List.find?_cons_of_pos]
      simp [hid, hdst]
    rw [hqueue, hdest, rreqDeleted, hfound, hq]
    simp
  · obtain ⟨v, hv, hall⟩ := hs.releases.verdicts
    rw [MshData.ids, MshData.ids, hpackets, hv, h.verdicts, h.packets_queue] at hids
    simp only [List.nil_append, List.map_nil, List.append_nil, List.map_cons] at hids
    obtain ⟨y, rfl, hy⟩ := List.map_eq_singleton_iff.1 (List.perm_singleton.1 hids)
    rw [hv, h.verdicts, List.nil_append, ← hy, ← hall y (List.mem_singleton_self y)]

/-- What the alarms do to node 0: nothing, a further try, or the end. -/
inductive AskingRung (k : Nat) (addr : Nat → InAddr) (bcast : InAddr) (pid : U32) (j : Nat)
    (s : MshData) (now : Nat) (t : MshData) : Prop where
  | idle (h : Asking k addr pid j t) (hsent : t.os.sent = s.os.sent)
      (hqueue : t.rreq_queue = s.rreq_queue) (hdue : ∀ e ∈ s.rreq_queue, now < e.alarm.tv)
  | retried (h : Asking k addr pid (j + 1) t) (q : AodvPkt) (hq : Request k addr bcast (j + 1) 0 q)
      (hsent : t.os.sent = s.os.sent ++ [q])
  | gaveUp (hlast : j = RREQ_RETRIES.toNat) (hqueue : t.rreq_queue = [])
      (hend : t.packets_queue = [] ∧ t.os.verdicts = [(pid, .NF_DROP)] ∨
        t.packets_queue = [⟨pid, addr k⟩] ∧ t.os.verdicts = [])
      (hsent : t.os.sent = s.os.sent)

theorem rreqNo_succ (j : Nat) : rreqNo j + 1 = rreqNo (j + 1) := by
  rw [rreqNo, rreqNo, BitVec.ofNat_add (j + 1) 1]
  rfl

variable (now) in
theorem Asking.rings (freed : List (Nat × InAddr)) (hwf : Wf s) (h : Asking k addr pid j s) (hip : s.ip_addr = addr 0)
    (hb : s.broadcast_addr = bcast) :
    AskingRung k addr bcast pid j s now (step s ⟨now, [], freed, .alarms⟩) := by
  obtain ⟨e, hq, hdst, htries, hid, hpending⟩ := h.entry
  have hring := ownRing (s := s.arrive ⟨now, [], freed, .alarms⟩) (hwf.arrive _) hq
    (by rw [htries]; exact Int.natCast_nonneg j)
  have hinfo : ∀ {t : MshData}, t.info (addr k) = (s.arrive ⟨now, [], freed, .alarms⟩).info (addr k) ∨
      t.info (addr k) = none → t.info (addr k) = none := fun hor =>
    hor.elim (fun heq => heq.trans h.info) id
  change AskingRung k addr bcast pid j s now (doAlarmRun (s.arrive ⟨now, [], freed, .alarms⟩))
  generalize doAlarmRun (s.arrive ⟨now, [], freed, .alarms⟩) = t at hring ⊢
  cases hring with
  | idle hmoved hqueue hdue =>
    refine .idle ⟨⟨e, hqueue, hdst, htries, hid, hpending⟩, hmoved.rreq_id.trans h.rreq_id, h.tries,
      hmoved.packets_queue.trans h.packets_queue, hmoved.verdicts.trans h.verdicts,
      hinfo (hmoved.info _)⟩ hmoved.sent (hqueue.trans hq.symm) fun x hx => ?_
    rw [hq, List.mem_singleton] at hx
    exact hx ▸ hdue hpending
  | retried u rank hle hbefore hnode hid' hqueue hpackets hverdicts hsent hinfo' =>
    have hu : u.rreq_id + 1 = rreqNo (j + 1) := by
      rw [hbefore.rreq_id, ← rreqNo_succ, ← h.rreq_id]
      rfl
    have htries' : e.prev_tries + 1 = ((j + 1 : Nat) : Int) := by rw [htries, Nat.cast_succ]
    have hj : j + 1 ≤ RREQ_RETRIES.toNat := by
      rw [htries'] at hle
      exact Int.ofNat_le.1 hle
    refine .retried ⟨⟨_, hqueue, hdst, htries', hu, rfl⟩, ?_, hj, hpackets.trans h.packets_queue,
      hverdicts.trans h.verdicts, hinfo (hinfo' _)⟩ _ (request_own hu ?_ ?_ hj) ?_
    · rw [hid', ← rreqNo_succ, ← h.rreq_id]
      rfl
    · exact hbefore.node.ip_addr.trans hip
    · exact hbefore.node.broadcast_addr.trans hb
    · rw [hsent, hdst, htries']
      rfl
  | gaveUp hlast hqueue hpackets hverdicts hsent =>
    have htries' := h.tries
    refine .gaveUp ?_ hqueue ?_ hsent
    · rw [htries] at hlast
      omega
    · have hp : (s.arrive ⟨now, [], freed, .alarms⟩).packets_queue = [⟨pid, addr k⟩] := h.packets_queue
      have hv : (s.arrive ⟨now, [], freed, .alarms⟩).os.verdicts = [] := h.verdicts
      rw [hpackets, hverdicts, hp, hv]
      by_cases hread : addr k = (s.arrive ⟨now, [], freed, .alarms⟩).os.freedDst e.self
      · exact .inl (by simp [hread])
      · exact .inr (by simp [hread])

/-! ## The other nodes -/

theorem NodeOk.mono (h : NodeOk k addr g j f r i s) (hg : g.Grows k addr c g') :
    NodeOk k addr g' j f r i s :=
  { h with
    reverse := fun hi => hg.reverse i (.inl (h.reverse hi))
    forward := fun hr hi => hg.forward i (.inl (h.forward hr hi)) }

/-- The RREQ has come to another node. -/
theorem NodeOk.elsewhere (h : NodeOk k addr g j f r i s) (hi : i ≠ f + 1) :
    NodeOk k addr g j (f + 1) r i s :=
  { h with
    unheard := fun hlt => h.unheard (by omega)
    heard := fun hle => h.heard (by omega)
    reverse := fun hc => h.reverse (hc.imp_left fun hle => by omega) }

/-- The RREP has come to another node. -/
theorem NodeOk.elsewhere_reply (h : NodeOk k addr g j f (r + 1) i s) (hi : i ≠ r) :
    NodeOk k addr g j f r i s :=
  { h with
    unknown := fun hlt => h.unknown (by omega)
    forward := fun hle => h.forward (by omega) }

/-- A node that has not heard try `j` has not got it in its buffer. -/
theorem NodeOk.not_contains (h : NodeOk k addr g j f r i s) (hj : j ≤ RREQ_RETRIES.toNat)
    (hi : f < i) : rreqFifoContains s.rreq_queue (rreqNo j) (addr k) = false := by
  rw [Bool.eq_false_iff]
  intro hc
  obtain ⟨e, he, hid, hdst⟩ := contains_iff.1 hc
  have hle := h.unheard hi e he hdst
  rw [hid, rreqNo_toNat hj] at hle
  omega

/-- A RREQ that a node hears again. -/
theorem NodeOk.hears (h : NodeOk k addr g j f r i s) (hi : i ≤ f) {a : InAddr} (hak : addr k ≠ a)
    {t : MshData} (hs : HearsAgain s a t) : NodeOk k addr g j f r i t where
  noOwn e he := h.noOwn e (hs.rreq_queue ▸ he)
  ids e he := h.ids e (hs.rreq_queue ▸ he)
  unheard hlt := absurd hi (by omega)
  heard _ := by
    obtain ⟨hknown, x, hx, hnext⟩ := h.heard hi
    rw [hs.rreq_queue, hs.info (addr 0) (.inr (by rw [hx]; simp))]
    exact ⟨hknown, x, hx, hnext⟩
  reverse _ := h.reverse (.inl hi)
  unknown hr hlt := (hs.info _ (.inl hak)).trans (h.unknown hr hlt)
  forward := h.forward

/-- **The RREQ comes to the next node**, which obtains a route to node 0. -/
theorem NodeOk.hears_new (h : NodeOk k addr g j f k (f + 1) s) (hj : j ≤ RREQ_RETRIES.toNat)
    (hp : Request k addr bcast j f p) (hkf : addr k ≠ addr f) (hk0 : addr k ≠ addr 0) {t : MshData}
    (hs : HearsNew s (addr f) p t) (ht : c.node (f + 1) = t) (hg : g.Grows k addr c g') :
    NodeOk k addr g' j (f + 1) k (f + 1) t := by
  obtain ⟨self, alarm, hqueue⟩ := hs.rreq_queue
  rw [hp.id, hp.dest] at hqueue
  have hreverse := hs.reverse
  have hactive := hs.active
  have hinfo := hs.info (addr k) hkf (by rw [hp.orig]; exact hk0)
  rw [hp.orig] at hreverse hactive
  constructor
  case noOwn =>
    intro e he
    rw [hqueue] at he
    rcases List.mem_cons.1 he with rfl | he
    · exact Int.negSucc_lt_zero 0
    · exact h.noOwn e he
  case ids =>
    intro e he hdst
    rw [hqueue] at he
    rcases List.mem_cons.1 he with rfl | he
    · exact (rreqNo_toNat hj).le
    · exact h.ids e he hdst
  case unheard => exact fun hlt => absurd hlt (lt_irrefl _)
  case heard =>
    intro _
    refine ⟨?_, hreverse⟩
    rw [hqueue]
    exact contains_iff.2 ⟨_, List.mem_cons_self, rfl, rfl⟩
  case reverse =>
    intro _
    refine hg.reverse _ ?_
    by_cases hfirst : s.info (addr 0) = none
    · rw [ht]
      exact .inr ⟨hactive hfirst, hreverse⟩
    · exact .inl (h.reverse (.inr hfirst))
  case unknown => exact fun hlt hk => hinfo.trans (h.unknown hlt hk)
  case forward => exact fun hr hk => absurd hk (by omega)

/-- **The RREP comes to the next node**, which obtains a route to node `k`. -/
theorem NodeOk.hears_reply (h : NodeOk k addr g j f (i + 1) i s) (hi : i ≤ f)
    (hp : Reply k addr (i + 1) p) (h0 : addr 0 ≠ addr (i + 1)) (hk0 : addr 0 ≠ addr k)
    {t : MshData} (hs : HearsReply s (addr (i + 1)) p t) (hqueue : t.rreq_queue = s.rreq_queue)
    (ht : c.node i = t) (hg : g.Grows k addr c g') : NodeOk k addr g' j f i i t := by
  have hforward := hs.forward
  have hactive := hs.active
  have hinfo := hs.info (addr 0) h0 (by rw [hp.dest]; exact hk0)
  rw [hp.dest] at hforward hactive
  constructor
  case noOwn => exact fun e he => h.noOwn e (hqueue ▸ he)
  case ids => exact fun e he => h.ids e (hqueue ▸ he)
  case unheard => exact fun hlt => absurd hi (by omega)
  case heard =>
    intro _
    rw [hqueue, hinfo]
    exact h.heard hi
  case reverse => exact fun _ => hg.reverse i (.inl (h.reverse (.inl hi)))
  case unknown => exact fun hlt => absurd hlt (lt_irrefl _)
  case forward =>
    intro _ _
    refine hg.forward i (.inr ?_)
    rw [ht]
    exact ⟨hactive, hforward⟩

/-- The alarms of a node that has not heard the RREQ. -/
theorem NodeOk.rings (h : NodeOk k addr g j 0 r i s) (hi : 1 ≤ i) {t : MshData} (hs : Unmoved s t)
    (hsub : ∀ e ∈ t.rreq_queue, e ∈ s.rreq_queue) : NodeOk k addr g j 0 r i t where
  noOwn e he := h.noOwn e (hsub e he)
  ids e he := h.ids e (hsub e he)
  unheard hlt e he := h.unheard hlt e (hsub e he)
  heard hle := absurd hi (by omega)
  reverse hc := by
    refine h.reverse (hc.imp_right fun hsome => ?_)
    rcases hs.info (addr 0) with heq | hnone
    · rw [← heq]
      exact hsome
    · exact absurd hnone hsome
  unknown hr hlt := by
    rcases hs.info (addr k) with heq | hnone
    · exact heq.trans (h.unknown hr hlt)
    · exact hnone
  forward := h.forward

end Node

end Meshias
