import Meshias.Lib.Machine
import Meshias.Forecast
import Meshias.GivingUp

/-!
# Packets waiting for a discovery

A packet without a route is queued, and a request of the node itself is in the RREQ buffer as long
as the discovery goes on.  What releases the packet is an insertion into the routing table or the
last timeout of the request; what ends the discovery is a RREP for the node, or the last timeout.

* `OwnOk` — an own request in the buffer has its alarm set, and there is one for each destination.
* `Awaited`, `NoStranded` — a destination with an own request, and a state in which every queued
  packet has one.
* `rrepStrands` — a RREP that ends a discovery without inserting the route.
* `giveUpStrands` — a request that is given up while packets wait for its destination, which is not
  what the callback reads from the entry it has freed.

Principal results: `noStranded_iff` — no packet is stranded in a run exactly if no RREP and no last
timeout of the run is of that kind; `packet_stranded` — a run with a RREP that is, which updates an
entry out of use.
-/

set_option autoImplicit false

namespace Meshias

open Machine (run StepsMeet)

variable {s t : MshData}

/-! ## The node's own requests -/

/-- Own requests have their alarm set, and there is at most one for a destination. -/
structure OwnOk (q : List RreqFifo) : Prop where
  pending : ∀ e ∈ q, 0 ≤ e.prev_tries → e.alarm.pending = true
  unique : ∀ e ∈ q, ∀ e' ∈ q, 0 ≤ e.prev_tries → 0 ≤ e'.prev_tries → e.dst = e'.dst → e = e'

section Queue

variable {q : List RreqFifo} {d : InAddr}

theorem waiting_iff :
    rreqFifoWaitingResponseFor q d = true ↔ ∃ e ∈ q, 0 ≤ e.prev_tries ∧ e.dst = d := by
  simp [rreqFifoWaitingResponseFor]

theorem waiting_eq_false :
    rreqFifoWaitingResponseFor q d = false ↔ ∀ e ∈ q, 0 ≤ e.prev_tries → e.dst ≠ d := by
  simp [rreqFifoWaitingResponseFor]

theorem OwnOk.nil : OwnOk [] := ⟨by simp, by simp⟩

theorem OwnOk.filter (h : OwnOk q) (p : RreqFifo → Bool) : OwnOk (q.filter p) where
  pending e he := h.pending e (List.mem_filter.1 he).1
  unique e he e' he' := h.unique e (List.mem_filter.1 he).1 e' (List.mem_filter.1 he').1

/-- A request of another node is put in front. -/
theorem OwnOk.cons_external (h : OwnOk q) {e : RreqFifo} (hext : e.prev_tries < 0) :
    OwnOk (e :: q) := by
  constructor
  case pending =>
    intro x hx hown
    rcases List.mem_cons.1 hx with rfl | hx
    · omega
    · exact h.pending x hx hown
  case unique =>
    intro x hx y hy hox hoy hd
    rcases List.mem_cons.1 hx with rfl | hx
    · omega
    · rcases List.mem_cons.1 hy with rfl | hy
      · omega
      · exact h.unique x hx y hy hox hoy hd

/-- A first try, for a destination without one. -/
theorem OwnOk.cons_own (h : OwnOk q) {e : RreqFifo} (hpend : e.alarm.pending = true)
    (hnew : rreqFifoWaitingResponseFor q e.dst = false) : OwnOk (e :: q) := by
  have hother := waiting_eq_false.1 hnew
  constructor
  case pending =>
    intro x hx hown
    rcases List.mem_cons.1 hx with rfl | hx
    · exact hpend
    · exact h.pending x hx hown
  case unique =>
    intro x hx y hy hox hoy hd
    rcases List.mem_cons.1 hx with hxe | hxq <;> rcases List.mem_cons.1 hy with hye | hyq
    · rw [hxe, hye]
    · exact absurd (by rw [← hd, hxe]) (hother y hyq hoy)
    · exact absurd (by rw [hd, hye]) (hother x hxq hox)
    · exact h.unique x hxq y hyq hox hoy hd

/-- A retry changes neither the destinations nor which requests are the node's own. -/
theorem retried_own_dst (hnodup : (q.map (·.self)).Nodup) {e : RreqFifo} (he : e ∈ q)
    (hown : 0 ≤ e.prev_tries) (rank : Nat) {x : RreqFifo} (hx : x ∈ q) :
    (0 ≤ (if x.self = e.self then retriedEntry s e rank else x).prev_tries ↔ 0 ≤ x.prev_tries) ∧
      (if x.self = e.self then retriedEntry s e rank else x).dst = x.dst := by
  split
  · rename_i hself
    obtain rfl := KeyedList.eq_of_key hnodup hx he hself
    refine ⟨⟨fun _ => hown, fun _ => ?_⟩, rfl⟩
    change 0 ≤ x.prev_tries + 1
    omega
  · exact ⟨Iff.rfl, rfl⟩

theorem OwnOk.retried (h : OwnOk q) (hnodup : (q.map (·.self)).Nodup) {e : RreqFifo}
    (he : e ∈ q) (hown : 0 ≤ e.prev_tries) (rank : Nat) :
    OwnOk (q.map (fun x => if x.self = e.self then retriedEntry s e rank else x)) := by
  constructor
  case pending =>
    intro y hy hoy
    obtain ⟨x, hx, rfl⟩ := List.mem_map.1 hy
    split
    · rfl
    · rename_i hself
      rw [if_neg hself] at hoy
      exact h.pending x hx hoy
  case unique =>
    intro y hy y' hy' hoy hoy' hd
    obtain ⟨x, hx, rfl⟩ := List.mem_map.1 hy
    obtain ⟨x', hx', rfl⟩ := List.mem_map.1 hy'
    obtain ⟨hox, hdx⟩ := retried_own_dst (s := s) hnodup he hown rank hx
    obtain ⟨hox', hdx'⟩ := retried_own_dst (s := s) hnodup he hown rank hx'
    rw [h.unique x hx x' hx' (hox.1 hoy) (hox'.1 hoy') (by rw [← hdx, ← hdx', hd])]

theorem waiting_retried (hnodup : (q.map (·.self)).Nodup) {e : RreqFifo} (he : e ∈ q)
    (hown : 0 ≤ e.prev_tries) (rank : Nat) (d : InAddr) :
    rreqFifoWaitingResponseFor
      (q.map (fun x => if x.self = e.self then retriedEntry s e rank else x)) d =
        rreqFifoWaitingResponseFor q d := by
  rw [Bool.eq_iff_iff, waiting_iff, waiting_iff]
  constructor
  · rintro ⟨y, hy, hoy, hd⟩
    obtain ⟨x, hx, rfl⟩ := List.mem_map.1 hy
    obtain ⟨hox, hdx⟩ := retried_own_dst (s := s) hnodup he hown rank hx
    exact ⟨x, hx, hox.1 hoy, by rw [← hdx, hd]⟩
  · rintro ⟨x, hx, hox, hd⟩
    obtain ⟨hoy, hdx⟩ := retried_own_dst (s := s) hnodup he hown rank hx
    exact ⟨_, List.mem_map_of_mem hx, hoy.2 hox, by rw [hdx, hd]⟩

/-- The entry `rreq_fifo_del` deletes is one of the node's own. -/
def delEndsOwn (q : List RreqFifo) (rreq_id : U32) (dst : InAddr) : Bool :=
  (rreqFifoDelEntry q rreq_id dst).any (fun e => 0 ≤ e.prev_tries)

/-- `rreq_fifo_del` ends the wait exactly if what it finds first is the node's own request. -/
theorem waiting_rreqDeleted (h : Wf s) (hok : OwnOk s.rreq_queue) (rreq_id : U32)
    (dst d : InAddr) :
    rreqFifoWaitingResponseFor (rreqDeleted s.rreq_queue rreq_id dst) d =
      (rreqFifoWaitingResponseFor s.rreq_queue d &&
        !(decide (d = dst) && delEndsOwn s.rreq_queue rreq_id dst)) := by
  unfold rreqDeleted delEndsOwn
  cases he : rreqFifoDelEntry s.rreq_queue rreq_id dst with
  | none => simp
  | some e =>
    have hmem : e ∈ s.rreq_queue := List.mem_of_find?_eq_some he
    have hdst : e.dst = dst := by
      have := List.find?_some he
      simp only [decide_eq_true_eq] at this
      exact this.2
    have hself : ∀ x ∈ s.rreq_queue, x.self = e.self → x = e := fun x hx hxe =>
      KeyedList.eq_of_key h.rreq_nodup hx hmem hxe
    rw [Bool.eq_iff_iff, waiting_iff]
    simp only [List.mem_filter, decide_eq_true_eq, Option.any_some, Bool.and_eq_true, waiting_iff,
      Bool.not_eq_true', Bool.and_eq_false_iff, decide_eq_false_iff_not]
    constructor
    · rintro ⟨x, ⟨hx, hne⟩, hox, hxd⟩
      refine ⟨⟨x, hx, hox, hxd⟩, ?_⟩
      by_contra hc
      obtain ⟨hd, hown⟩ := not_or.1 hc
      refine hne (congrArg _ (hok.unique x hx e hmem hox (not_not.1 hown) ?_))
      rw [hxd, hdst, not_not.1 hd]
    · rintro ⟨⟨x, hx, hox, hxd⟩, hc⟩
      refine ⟨x, ⟨hx, fun hxe => ?_⟩, hox, hxd⟩
      obtain rfl := hself x hx hxe
      rcases hc with hd | hext
      · exact hd (by rw [← hxd, hdst])
      · exact hext hox

end Queue

/-! ## What each event does to requests and packets -/

/-- A captured packet is queued until there is a route. -/
def packetWaits (s : MshData) (nfa : NfqData) : Bool :=
  !packetPasses s nfa && nfqueuePacketGetHook nfa = NF_IP_LOCAL_OUT &&
    !routeUsable s (nfqueuePacketGetDest nfa)

/-- The entry of the packet queue. -/
def queuedPacket (nfa : NfqData) : PacketsFifo :=
  ⟨nfqueuePacketGetId nfa, nfqueuePacketGetDest nfa⟩

/-- A captured packet is queued with a request for its destination, an old one or a new one. -/
theorem managePacket_queues (h : Wf s) (nfa : NfqData) :
    (managePacket s nfa).packets_queue =
        (if packetWaits s nfa then [queuedPacket nfa] else []) ++ s.packets_queue ∧
      (OwnOk s.rreq_queue → OwnOk (managePacket s nfa).rreq_queue) ∧
      ∀ d, rreqFifoWaitingResponseFor (managePacket s nfa).rreq_queue d =
        (rreqFifoWaitingResponseFor s.rreq_queue d ||
          packetWaits s nfa && decide (d = nfqueuePacketGetDest nfa)) := by
  have hlook := fun orig => sameTable_packetLookedUp h nfa orig
  have hin : NF_IP_LOCAL_IN ≠ NF_IP_LOCAL_OUT := by decide
  have hfwd : NF_IP_FORWARD ≠ NF_IP_LOCAL_OUT := by decide
  -- nothing is queued
  have hsame : ∀ u : MshData, u.packets_queue = s.packets_queue → u.rreq_queue = s.rreq_queue →
      packetWaits s nfa = false →
      u.packets_queue = (if packetWaits s nfa then [queuedPacket nfa] else []) ++ s.packets_queue ∧
      (OwnOk s.rreq_queue → OwnOk u.rreq_queue) ∧
      ∀ d, rreqFifoWaitingResponseFor u.rreq_queue d =
        (rreqFifoWaitingResponseFor s.rreq_queue d ||
          packetWaits s nfa && decide (d = nfqueuePacketGetDest nfa)) := by
    intro u hp hq hw
    rw [hp, hq, hw]
    exact ⟨rfl, id, fun d => by simp⟩
  cases packetManaged h nfa with
  | passed hpass ht => rw [ht]; exact hsame _ rfl rfl (by simp [packetWaits, hpass])
  | routed orig _ _ husable ht =>
    rw [ht]
    refine hsame _ (hlook orig).packets_queue (hlook orig).rreq_queue ?_
    rcases husable with hhook | husable
    · simp [packetWaits, hhook, hfwd]
    · simp [packetWaits, husable]
  | unanswered _ hhook _ ht =>
    rw [ht]
    exact hsame _ (hlook _).packets_queue (hlook _).rreq_queue (by simp [packetWaits, hhook, hin])
  | queued hpass hhook husable hwaiting ht =>
    have hw : packetWaits s nfa = true := by simp [packetWaits, hpass, hhook, husable]
    rw [ht, hw, packetsFifoPush_packets_queue, packetsFifoPush_rreq_queue, (hlook 0).packets_queue,
      (hlook 0).rreq_queue]
    refine ⟨rfl, id, fun d => ?_⟩
    by_cases hd : d = nfqueuePacketGetDest nfa
    · simp [hd, hwaiting]
    · simp [hd]
  | discovered hpass hhook husable hwaiting ht =>
    have hw : packetWaits s nfa = true := by simp [packetWaits, hpass, hhook, husable]
    have horig := originated_aodvFindRoute (packetsFifoPush (packetLookedUp s nfa 0)
      (nfqueuePacketGetId nfa) (nfqueuePacketGetDest nfa)) (nfqueuePacketGetDest nfa) 0
    rw [ht, hw, horig.packets_queue, horig.rreq_queue, if_pos rfl, packetsFifoPush_packets_queue,
      packetsFifoPush_rreq_queue, (hlook 0).packets_queue, (hlook 0).rreq_queue]
    refine ⟨rfl, fun hok => hok.cons_own rfl hwaiting, fun d => ?_⟩
    simp [rreqFifoWaitingResponseFor, ownEntry, Bool.or_comm, eq_comm]

/-- A RREQ of another node makes no difference to the node's own requests. -/
theorem aodvProcessRreq_queue (h : Wf s) (pkt : AodvPkt) :
    (OwnOk s.rreq_queue → OwnOk (aodvProcessRreq s pkt).rreq_queue) ∧
      ∀ d, rreqFifoWaitingResponseFor (aodvProcessRreq s pkt).rreq_queue d =
        rreqFifoWaitingResponseFor s.rreq_queue d := by
  obtain ⟨self, rank, hqueue⟩ := rreq_queue_aodvProcessRreq pkt h
  rw [hqueue]
  split
  · exact ⟨id, fun _ => rfl⟩
  · exact ⟨fun hok => hok.cons_external (Int.negSucc_lt_zero 0),
      fun d => by simp [rreqFifoWaitingResponseFor]⟩

/-- A RREP ends the node's own discovery. -/
def discoveryEnds (s : MshData) (pkt : AodvPkt) : Bool :=
  rrepAcceptable s pkt && (rrepNext pkt).orig_ip_addr = s.ip_addr &&
    delEndsOwn s.rreq_queue s.rreq_id (rrepNext pkt).dest_ip_addr

theorem aodvProcessRrep_queue (h : Wf s) (hok : OwnOk s.rreq_queue) (pkt : AodvPkt) :
    OwnOk (aodvProcessRrep s pkt).rreq_queue ∧
      ∀ d, rreqFifoWaitingResponseFor (aodvProcessRrep s pkt).rreq_queue d =
        (rreqFifoWaitingResponseFor s.rreq_queue d &&
          !(decide (d = (rrepNext pkt).dest_ip_addr) && discoveryEnds s pkt)) := by
  rw [rreq_queue_aodvProcessRrep pkt h, rrepAccepted_eq h]
  split
  · rename_i hc
    refine ⟨?_, fun d => ?_⟩
    · obtain ⟨p, hp⟩ := rreqDeleted_eq_filter s.rreq_queue s.rreq_id (rrepNext pkt).dest_ip_addr
      rw [hp]
      exact hok.filter p
    · rw [waiting_rreqDeleted h hok, discoveryEnds, hc.1, hc.2]
      simp
  · rename_i hc
    refine ⟨hok, fun d => ?_⟩
    have hno : discoveryEnds s pkt = false := by
      rw [discoveryEnds, Bool.and_eq_false_iff]
      left
      rw [Bool.eq_false_iff]
      intro hb
      rw [Bool.and_eq_true, decide_eq_true_eq] at hb
      exact hc ⟨hb.1, hb.2.symm⟩
    simp [hno]

/-- A request that leaves the buffer ends the wait exactly if it was the node's own. -/
theorem waiting_entryDelete (h : Wf s) (hok : OwnOk s.rreq_queue) {e : RreqFifo}
    (he : e ∈ s.rreq_queue) (d : InAddr) :
    rreqFifoWaitingResponseFor (rreqFifoEntryDelete s e.self).rreq_queue d =
      (rreqFifoWaitingResponseFor s.rreq_queue d && decide (0 ≤ e.prev_tries → d ≠ e.dst)) := by
  rw [Bool.eq_iff_iff, rreqFifoEntryDelete_rreq_queue]
  simp only [waiting_iff, List.mem_filter, Bool.and_eq_true, decide_eq_true_eq]
  constructor
  · rintro ⟨x, ⟨hx, hne⟩, hox, hxd⟩
    refine ⟨⟨x, hx, hox, hxd⟩, fun hown hd => hne ?_⟩
    rw [hok.unique x hx e he hox hown (by rw [hxd, hd])]
  · rintro ⟨⟨x, hx, hox, hxd⟩, hd⟩
    refine ⟨x, ⟨hx, fun hxe => ?_⟩, hox, hxd⟩
    obtain rfl := KeyedList.eq_of_key h.rreq_nodup hx he hxe
    exact hd hox hxd.symm

/-- **One alarm** ends the wait for the destination of the request that it gives up. -/
theorem runAlarm_requests (h : Wf s) (hok : OwnOk s.rreq_queue) (owner : AlarmOwner) :
    OwnOk (runAlarm s owner).rreq_queue ∧ ∀ d,
      rreqFifoWaitingResponseFor (runAlarm s owner).rreq_queue d =
        (rreqFifoWaitingResponseFor s.rreq_queue d &&
          decide (∀ e ∈ s.givesUp owner, d ≠ e.dst)) := by
  have hsame : ∀ u : MshData, s.givesUp owner = none → OwnOk u.rreq_queue →
      (∀ d, rreqFifoWaitingResponseFor u.rreq_queue d =
        rreqFifoWaitingResponseFor s.rreq_queue d) →
      OwnOk u.rreq_queue ∧ ∀ d, rreqFifoWaitingResponseFor u.rreq_queue d =
        (rreqFifoWaitingResponseFor s.rreq_queue d &&
          decide (∀ e ∈ s.givesUp owner, d ≠ e.dst)) := by
    intro u hnone hu hwait
    rw [hnone]
    exact ⟨hu, fun d => by simp [hwait]⟩
  cases owner with
  | route p =>
    have hqueue := (runAlarm_route_queues s p).1
    exact hsame _ rfl (by rw [hqueue]; exact hok) (by rw [hqueue]; exact fun _ => rfl)
  | rreq p =>
    cases rreqAlarm h p with
    | absent habsent ht =>
      rw [ht]
      exact hsame s (givesUp_eq_none h habsent) hok (fun _ => rfl)
    | forgotten e he hself hext ht =>
      rw [ht]
      refine hsame _ (givesUp_eq_none_of_mem h he hself fun hlast => ?_) (hok.filter _) fun d => ?_
      · exact absurd hlast.1 (not_le.2 hext)
      · rw [waiting_entryDelete h hok he]
        simp [not_le.2 hext]
    | gaveUp e he hself hown hlast ht =>
      rw [ht, (givesUp_eq_some h).2 ⟨he, ⟨hown, hlast⟩, congrArg _ hself.symm⟩]
      refine ⟨hok.filter _, fun d => ?_⟩
      change rreqFifoWaitingResponseFor (rreqFifoEntryDelete s e.self).rreq_queue d = _
      rw [waiting_entryDelete h hok he]
      simp [hown]
    | retried e he hself htries hret =>
      obtain ⟨rank, hqueue⟩ := hret.rreq_queue
      refine hsame _ (givesUp_eq_none_of_mem h he hself htries.not_atLastTry) ?_ ?_
      · rw [hqueue]
        exact hok.retried h.rreq_nodup he htries.1 rank
      · rw [hqueue]
        exact waiting_retried h.rreq_nodup he htries.1 rank

theorem runAlarms_requests {l : List PendingAlarm} (hl : (l.map (·.owner)).Nodup) (h : Wf s)
    (hok : OwnOk s.rreq_queue) :
    OwnOk (l.foldl (fun s a => runAlarm s a.owner) s).rreq_queue ∧ ∀ d,
      rreqFifoWaitingResponseFor (l.foldl (fun s a => runAlarm s a.owner) s).rreq_queue d =
        (rreqFifoWaitingResponseFor s.rreq_queue d &&
          decide (∀ a ∈ l, ∀ e ∈ s.givesUp a.owner, d ≠ e.dst)) := by
  induction l generalizing s with
  | nil => exact ⟨hok, fun d => by simp⟩
  | cons a l ih =>
    obtain ⟨hnew, hrest⟩ := List.nodup_cons.1 hl
    obtain ⟨hok', hwait⟩ := runAlarm_requests h hok a.owner
    obtain ⟨hend, hends⟩ := ih hrest ((runAlarm_cases h a.owner).wf h) hok'
    refine ⟨hend, fun d => ?_⟩
    rw [List.foldl_cons, hends, hwait, Bool.and_assoc, ← Bool.decide_and]
    refine congrArg _ (decide_eq_decide.2 ?_)
    rw [List.forall_mem_cons]
    refine and_congr_right fun _ => forall₂_congr fun b hb => ?_
    rw [givesUp_rest h hnew hb]

/-- **A run of the alarms** ends the wait for the destinations of its last timeouts. -/
theorem doAlarmRun_requests (h : Wf s) (hok : OwnOk s.rreq_queue) :
    OwnOk (doAlarmRun s).rreq_queue ∧ ∀ d,
      rreqFifoWaitingResponseFor (doAlarmRun s).rreq_queue d =
        (rreqFifoWaitingResponseFor s.rreq_queue d &&
          decide (∀ e ∈ s.lastTimeouts s.os.now, d ≠ e.dst)) := by
  obtain ⟨hok', hwait⟩ := runAlarms_requests (owners_alarmRunQueue_nodup h) h hok
  refine ⟨hok', fun d => (hwait d).trans (congrArg _ (decide_eq_decide.2 ?_))⟩
  exact forall_givesUp_iff h

theorem ownOk_step (h : Wf s) (hok : OwnOk s.rreq_queue) (i : Input) :
    OwnOk (step s i).rreq_queue := by
  cases turn s i with
  | rreq pkt stats _ hstep =>
    rw [hstep]; exact (aodvProcessRreq_queue ((h.arrive i).withStats stats) pkt).1 hok
  | rrep pkt stats _ hstep =>
    rw [hstep]; exact (aodvProcessRrep_queue ((h.arrive i).withStats stats) hok pkt).1
  | packet nfa _ hstep => rw [hstep]; exact (managePacket_queues (h.arrive i) nfa).2.1 hok
  | alarms _ hstep =>
    rw [hstep]
    exact (doAlarmRun_requests (h.arrive i) hok).1
  | quiet stats _ _ _ _ hstep => rw [hstep]; exact hok

/-! ## Stranded packets -/

/-- An own request for `d` is in the buffer, and its alarm is set. -/
def Awaited (s : MshData) (d : InAddr) : Prop :=
  ∃ e ∈ s.rreq_queue, 0 ≤ e.prev_tries ∧ e.dst = d ∧ e.alarm.pending = true

/-- **No packet is stranded.** -/
def NoStranded (s : MshData) : Prop := ∀ e ∈ s.packets_queue, Awaited s e.dest

instance (s : MshData) (d : InAddr) : Decidable (Awaited s d) := by unfold Awaited; infer_instance

instance (s : MshData) : Decidable (NoStranded s) := by unfold NoStranded; infer_instance

theorem noStranded_iff_waiting (hok : OwnOk s.rreq_queue) :
    NoStranded s ↔
      ∀ e ∈ s.packets_queue, rreqFifoWaitingResponseFor s.rreq_queue e.dest = true := by
  refine forall₂_congr fun e _ => ?_
  rw [waiting_iff]
  constructor
  · rintro ⟨x, hx, hown, hd, -⟩
    exact ⟨x, hx, hown, hd⟩
  · rintro ⟨x, hx, hown, hd⟩
    exact ⟨x, hx, hown, hd, hok.pending x hx hown⟩

/-- The RREP inserts the route to its destination: there is none, and the kernel takes it. -/
def destInserted (s : MshData) (i : Input) (pkt : AodvPkt) : Bool :=
  (s.info (rrepNext pkt).dest_ip_addr).isNone &&
    (knownOnArrival s i pkt (rrepNext pkt).dest_ip_addr || !nextRefused s i pkt)

/-- A RREP ends the discovery of a destination that packets wait for, and does not insert the
    route that would release them. -/
def rrepStrands (s : MshData) (i : Input) (pkt : AodvPkt) : Bool :=
  discoveryEnds s pkt && s.packets_queue.any (·.dest = (rrepNext pkt).dest_ip_addr) &&
    !destInserted s i pkt

/-- The turn gives up the request of a destination that packets wait for, and reads that destination
    from no entry it has freed. -/
def giveUpStrands (s : MshData) (i : Input) (e : RreqFifo) : Bool :=
  s.packets_queue.any (·.dest = e.dst) && !(dropsFor s i).contains e.dst

/-- The condition on one turn. -/
def StrandsNone (s : MshData) (i : Input) : Prop :=
  (∀ pkt ∈ receivedRrep s i, rrepStrands s i pkt = false) ∧
    ∀ e ∈ givenUp s i, giveUpStrands s i e = false

instance (s : MshData) (i : Input) : Decidable (StrandsNone s i) := by
  unfold StrandsNone; infer_instance

/-- After an accepted RREP the destination has an entry, unless its insertion was refused. -/
theorem isSome_info_dest (h : Wf s) (i : Input) (stats : Statistics) {pkt : AodvPkt}
    (hacc : rrepAcceptable s pkt = true) :
    ((aodvProcessRrep ((s.arrive i).withStats stats) pkt).info (rrepNext pkt).dest_ip_addr).isSome =
      (knownOnArrival s i pkt (rrepNext pkt).dest_ip_addr || !nextRefused s i pkt) := by
  have hwf := (h.arrive i).withStats stats
  have haccepted : rrepAccepted (rreqArrived ((s.arrive i).withStats stats) pkt) (rrepNext pkt) =
      true := (rrepAccepted_eq hwf pkt).trans hacc
  have hknown := isSome_rreqArrived h i stats pkt (rrepNext pkt).dest_ip_addr
  rw [info_aodvProcessRrep pkt hwf, if_pos haccepted, info_rrepUpdated pkt hwf, if_pos rfl,
    ← hknown, nextRefused_eq h]
  cases (rreqArrived ((s.arrive i).withStats stats) pkt).info (rrepNext pkt).dest_ip_addr with
  | some j => rfl
  | none => cases nextRefused s i pkt <;> rfl

/-- **A RREP** strands no packet exactly if it is not of that kind. -/
theorem noStranded_rrep_iff (h : Wf s) (hok : OwnOk s.rreq_queue) (hno : NoStranded s) (i : Input)
    (stats : Statistics) (pkt : AodvPkt) :
    NoStranded (aodvProcessRrep ((s.arrive i).withStats stats) pkt) ↔
      rrepStrands s i pkt = false := by
  have hwf := (h.arrive i).withStats stats
  have hrel := releases_aodvProcessRrep pkt hwf
  obtain ⟨hok', hwait⟩ := aodvProcessRrep_queue hwf hok pkt
  change ∀ d, _ = (rreqFifoWaitingResponseFor s.rreq_queue d &&
    !(decide (d = _) && discoveryEnds s pkt)) at hwait
  rw [noStranded_iff_waiting hok] at hno
  rw [noStranded_iff_waiting hok']
  -- a packet for the destination stays queued exactly if the route is not inserted
  have hstays : discoveryEnds s pkt = true → ∀ e : PacketsFifo,
      e.dest = (rrepNext pkt).dest_ip_addr →
      (e ∈ (aodvProcessRrep ((s.arrive i).withStats stats) pkt).packets_queue ↔
        e ∈ s.packets_queue ∧ destInserted s i pkt = false) := by
    intro hend e hed
    have hacc : rrepAcceptable s pkt = true := by
      rw [discoveryEnds, Bool.and_eq_true, Bool.and_eq_true] at hend
      exact hend.1.1
    rw [hrel.mem_packets, destInserted, ← isSome_info_dest h i stats hacc, hed]
    change e ∈ s.packets_queue ∧ (s.info _ ≠ none ∨ _) ↔ _
    cases s.info (rrepNext pkt).dest_ip_addr <;>
      cases (aodvProcessRrep ((s.arrive i).withStats stats) pkt).info (rrepNext pkt).dest_ip_addr <;>
      simp
  rw [rrepStrands]
  cases hend : discoveryEnds s pkt with
  | false =>
    simp only [hend, Bool.and_false, Bool.not_false, Bool.and_true] at hwait
    simp only [Bool.false_and, iff_true]
    intro e he
    rw [hwait]
    exact hno e ((hrel.mem_packets e).1 he).1
  | true =>
    simp only [hend, Bool.and_true] at hwait
    rw [Bool.true_and, Bool.and_eq_false_iff, Bool.not_eq_false', ← Bool.not_eq_true,
      List.any_eq_true]
    constructor
    · intro hall
      by_contra hc
      obtain ⟨hany, hins⟩ := not_or.1 hc
      obtain ⟨e, he, hed⟩ := not_not.1 hany
      have hed := of_decide_eq_true hed
      have hw := hall e ((hstays hend e hed).2 ⟨he, Bool.eq_false_iff.2 hins⟩)
      rw [hwait, hed] at hw
      simp at hw
    · intro hcond e he
      rw [hwait, hno e ((hrel.mem_packets e).1 he).1, Bool.true_and, Bool.not_eq_true',
        decide_eq_false_iff_not]
      intro hed
      obtain ⟨hes, hins⟩ := (hstays hend e hed).1 he
      rcases hcond with hany | hinserted
      · exact hany ⟨e, hes, decide_eq_true hed⟩
      · rw [hins] at hinserted
        exact Bool.false_ne_true hinserted

theorem noStranded_managePacket (h : Wf s) (hok : OwnOk s.rreq_queue) (hno : NoStranded s)
    (nfa : NfqData) : NoStranded (managePacket s nfa) := by
  obtain ⟨hpackets, hok', hwait⟩ := managePacket_queues h nfa
  rw [noStranded_iff_waiting hok] at hno
  rw [noStranded_iff_waiting (hok' hok), hpackets]
  intro e he
  rw [hwait]
  rcases List.mem_append.1 he with hnew | hold
  · split at hnew
    · rename_i hw
      obtain rfl := List.mem_singleton.1 hnew
      simp [hw, queuedPacket]
    · exact absurd hnew (by simp)
  · rw [hno e hold, Bool.true_or]

theorem giveUpStrands_eq_false {i : Input} {e : RreqFifo} :
    giveUpStrands s i e = false ↔ ∀ x ∈ s.packets_queue, x.dest = e.dst → e.dst ∈ dropsFor s i := by
  simp only [giveUpStrands, Bool.and_eq_false_imp, List.any_eq_true, decide_eq_true_eq,
    Bool.not_eq_false', List.contains_iff_mem, forall_exists_index, and_imp]

/-- **A run of the alarms** strands no packet exactly if it gives up no request of that kind. -/
theorem noStranded_doAlarmRun_iff (h : Wf s) (hok : OwnOk s.rreq_queue) (hno : NoStranded s)
    {i : Input} (hev : i.event = .alarms) :
    NoStranded (doAlarmRun (s.arrive i)) ↔ ∀ e ∈ givenUp s i, giveUpStrands s i e = false := by
  obtain ⟨hok', hwait⟩ := doAlarmRun_requests (h.arrive i) hok
  have hgiven : givenUp s i = (s.arrive i).lastTimeouts (s.arrive i).os.now := givenUp_alarms hev
  rw [noStranded_iff_waiting hok] at hno
  rw [noStranded_iff_waiting hok', packets_doAlarmRun h hev]
  simp only [hwait, ← hgiven, giveUpStrands_eq_false]
  constructor
  · intro hall e he x hx hxd
    by_contra hread
    have hkept := hall x (List.mem_filter.2 ⟨hx, decide_eq_true (by rwa [hxd])⟩)
    rw [Bool.and_eq_true, decide_eq_true_eq] at hkept
    exact hkept.2 e he hxd
  · intro hall x hx
    obtain ⟨hx, hkept⟩ := List.mem_filter.1 hx
    rw [Bool.and_eq_true, decide_eq_true_eq]
    refine ⟨hno x hx, fun e he hxd => of_decide_eq_true hkept ?_⟩
    rw [hxd]
    exact hall e he x hx hxd

theorem noStranded_step_iff (h : Wf s) (hok : OwnOk s.rreq_queue) (hno : NoStranded s)
    (i : Input) : NoStranded (step s i) ↔ StrandsNone s i := by
  have hother : receivedRrep s i = none → i.event ≠ .alarms → NoStranded (step s i) →
      (NoStranded (step s i) ↔ StrandsNone s i) := by
    intro hrrep hev hstep
    simp [StrandsNone, hrrep, givenUp_of_ne hev, hstep]
  cases turn s i with
  | rreq pkt stats hpkt hstep =>
    have hwf := (h.arrive i).withStats stats
    obtain ⟨hok', hwait⟩ := aodvProcessRreq_queue hwf pkt
    refine hother (receivedRrep_of_rreq hpkt) (not_alarms_of_rreq hpkt) ?_
    rw [hstep, noStranded_iff_waiting (hok' hok)]
    rw [noStranded_iff_waiting hok] at hno
    intro e he
    rw [hwait]
    exact hno e (((releases_aodvProcessRreq pkt hwf).mem_packets e).1 he).1
  | rrep pkt stats hpkt hstep =>
    rw [hstep, noStranded_rrep_iff h hok hno]
    simp [StrandsNone, hpkt, givenUp_of_ne (not_alarms_of_rrep hpkt)]
  | packet nfa hev hstep =>
    refine hother (received_of_event (by simp [hev])).2 (by simp [hev]) ?_
    rw [hstep]
    exact noStranded_managePacket (h.arrive i) hok hno nfa
  | alarms hev hstep =>
    rw [hstep, noStranded_doAlarmRun_iff h hok hno hev]
    simp [StrandsNone, (received_of_event (s := s) (i := i) (by simp [hev])).2]
  | quiet stats _ hrrep _ hev hstep => exact hother hrrep hev (by rw [hstep]; exact hno)

/-- **No packet is stranded** in a run if and only if no RREP of the run ends a discovery without
    inserting the route, and no request is given up whose packets the last timeouts miss. -/
theorem noStranded_iff (ip bcast : InAddr) (iface : U32) (is : List Input) :
    (∀ pre, pre <+: is → NoStranded (run step (mshDataInit ip bcast iface) pre)) ↔
      StepsMeet step StrandsNone (mshDataInit ip bcast iface) is := by
  refine Machine.forall_prefix_iff (I := fun s => Wf s ∧ OwnOk s.rreq_queue)
    (fun s i h => ⟨h.1.step i, ownOk_step h.1 h.2 i⟩)
    (fun s i h hno => noStranded_step_iff h.1 h.2 hno i) ⟨Wf.init ip bcast iface, .nil⟩ ?_
  intro e he
  cases he

/-- Node 10.0.0.1 has a route to its neighbour 10.0.0.9, which expires; a packet for 10.0.0.9
    starts a discovery, and the answer comes before the entry is destroyed. -/
def revivedRoute : List Input :=
  [⟨0, [], [], datagramFrom 0x0A000009 1 (aodvPktBuildRreq 1 0 7 0x0A000008 0 0x0A000009 1)⟩,
    ⟨6000000, [], [], .alarms⟩,
    ⟨6100000, [], [], .packet (capturedPacket 1 3 1 0x0A000001 0x0A000009)⟩,
    ⟨6200000, [], [], datagramFrom 0x0A000009 64
      (aodvPktBuildRrep 0 0 0 0x0A000009 2 0x0A000001 MY_ROUTE_TIMEOUT)⟩]

/-- **The packet stays queued after the discovery has ended**: the route was updated, not
    inserted. -/
theorem packet_stranded :
    ¬ ∀ (ip bcast : InAddr) (iface : U32) (is : List Input),
      NoStranded (run step (mshDataInit ip bcast iface) is) := by
  intro hall
  exact absurd (hall 0x0A000001 0x0A0000FF 0 revivedRoute) (by decide +kernel)

end Meshias
