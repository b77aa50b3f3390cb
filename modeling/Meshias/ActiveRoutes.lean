import Meshias.Discovery

/-!
# Active routes and discoveries

The comment in the retry callback takes it that a destination with an active route has no request
in the buffer and no packet in the queue.  A route comes into use at many places, the request goes
at one: a RREP for the node.

* `Fulfilled` — no own request and no packet for the destination of an active entry.
* `ActiveQuiet` — no request is originated and no packet dropped for such a destination.
* `ActivatesFulfilled` — the condition on one turn: what comes into use has no own request, unless
  the turn ends it, and no packet, unless the turn inserts the entry.

Principal results: `fulfilled_iff` — both hold all along a run exactly if every turn meets the
condition; `discovery_survives_route` — the destination's own RREQ makes its route active, and the
discovery goes on.
-/

set_option autoImplicit false

namespace Meshias

open Machine (run StepsMeet)

variable {s t : MshData}

/-! ## The property -/

/-- **An active route has fulfilled its discovery.** -/
def Fulfilled (s : MshData) : Prop :=
  ∀ r ∈ s.routing_table, r.hasFlag RTFLAG_VALID_ENTRY = true →
    rreqFifoWaitingResponseFor s.rreq_queue r.dst_ip = false ∧
      ∀ e ∈ s.packets_queue, e.dest ≠ r.dst_ip

instance (s : MshData) : Decidable (Fulfilled s) := by unfold Fulfilled; infer_instance

/-- Between the two states a request for `d` is originated. -/
def Originates (s t : MshData) (d : InAddr) : Prop :=
  t.rreq_id = s.rreq_id + 1 ∧ ∃ prev_tries, t.os.sent = s.os.sent ++ [ownRequest s d prev_tries]

/-- Between the two states a packet for `d` is dropped. -/
def Drops (s t : MshData) (d : InAddr) : Prop :=
  ∃ e ∈ s.packets_queue, e.dest = d ∧ e ∉ t.packets_queue ∧
    (e.id, Verdict.NF_DROP) ∈ t.os.verdicts.drop s.os.verdicts.length

def ActiveQuiet (s t : MshData) : Prop :=
  ∀ d, s.active d = true → ¬ Originates s t d ∧ ¬ Drops s t d

/-- No request is originated and no packet dropped for the destination of an active route, by any
    of the alarms when alarms are run. -/
def QuietTurn (s : MshData) (i : Input) : Prop :=
  match i.event with
  | .alarms =>
    StepsMeet (fun u (a : PendingAlarm) => runAlarm u a.owner)
      (fun u a => ActiveQuiet u (runAlarm u a.owner)) (s.arrive i) (alarmRunQueue (s.arrive i))
  | _ => ActiveQuiet (s.arrive i) (step s i)

/-- The turn ends the node's own discovery of `b`. -/
def endsFor (s : MshData) (i : Input) (b : InAddr) : Bool :=
  (receivedRrep s i).any (fun pkt => b = (rrepNext pkt).dest_ip_addr && discoveryEnds s pkt)

/-- The condition on one turn. -/
def ActivatesFulfilled (s : MshData) (i : Input) : Prop :=
  ∀ b ∈ activated s i,
    (rreqFifoWaitingResponseFor s.rreq_queue b = true → endsFor s i b = true) ∧
    (s.info b = none ∨ ∀ e ∈ s.packets_queue, e.dest ≠ b)

instance (s : MshData) (i : Input) : Decidable (ActivatesFulfilled s i) :=
  List.decidableBAll _ _

theorem fulfilled_iff_active (h : Wf s) :
    Fulfilled s ↔ ∀ d, s.active d = true →
      rreqFifoWaitingResponseFor s.rreq_queue d = false ∧ ∀ e ∈ s.packets_queue, e.dest ≠ d := by
  constructor
  · intro hf d hd
    obtain ⟨r, hr, hv⟩ := entry_of_active hd
    obtain ⟨hmem, rfl⟩ := mem_of_entry hr
    exact hf r hmem hv
  · intro hf r hr hv
    exact hf r.dst_ip (by rw [active_of_entry (entry_of_mem h hr)]; exact hv)

/-! ## Requests and drops -/

theorem dest_of_ownRequest {d d' : InAddr} {n n' : Int} (h : ownRequest s d n = ownRequest s d' n') :
    d = d' := by
  have := congrArg (fun pkt => (rreqOfPayload pkt.payload).dest_ip_addr) h
  simpa [ownRequest] using this

theorem not_originates_of_rreq_id (h : t.rreq_id = s.rreq_id) (d : InAddr) :
    ¬ Originates s t d := by
  rintro ⟨hid, -⟩
  rw [h] at hid
  simp at hid

/-- Only the dropped packets have to be looked at when the state is fulfilled. -/
theorem activeQuiet_of_fulfilled (h : Wf s) (hf : Fulfilled s)
    (horig : ∀ d, s.active d = true → ¬ Originates s t d) : ActiveQuiet s t := by
  intro d hd
  refine ⟨horig d hd, ?_⟩
  rintro ⟨e, he, hed, -⟩
  exact ((fulfilled_iff_active h).1 hf d hd).2 e he hed

/-- A captured packet starts a discovery only for a destination without an active route. -/
theorem activeQuiet_managePacket (h : Wf s) (hf : Fulfilled s) (nfa : NfqData) :
    ActiveQuiet s (managePacket s nfa) := by
  refine activeQuiet_of_fulfilled h hf fun d hd => ?_
  have hlook := fun orig => (sameTable_packetLookedUp h nfa orig).rreq_id
  cases packetManaged h nfa with
  | passed _ ht => rw [ht]; exact not_originates_of_rreq_id rfl d
  | routed orig _ _ _ ht => rw [ht]; exact not_originates_of_rreq_id (hlook orig) d
  | unanswered _ _ _ ht => rw [ht]; exact not_originates_of_rreq_id (hlook _) d
  | queued _ _ _ _ ht => rw [ht]; exact not_originates_of_rreq_id (hlook 0) d
  | discovered _ _ husable _ ht =>
    obtain ⟨hsame, hsilent, -⟩ := routingTableUpdateRoute_spec h (nfqueuePacketGetDest nfa) 0
    have horig := (originated_aodvFindRoute (packetsFifoPush (packetLookedUp s nfa 0)
      (nfqueuePacketGetId nfa) (nfqueuePacketGetDest nfa)) (nfqueuePacketGetDest nfa) 0).sent
    have hreq : ownRequest (packetsFifoPush (packetLookedUp s nfa 0)
        (nfqueuePacketGetId nfa) (nfqueuePacketGetDest nfa)) (nfqueuePacketGetDest nfa) 0 =
          ownRequest s (nfqueuePacketGetDest nfa) 0 := by
      change AodvPkt.mk (aodvPktBuildRreq 5 0 ((packetLookedUp s nfa 0).rreq_id + 1) _ 0
        (packetLookedUp s nfa 0).ip_addr ((packetLookedUp s nfa 0).seq_num + 1))
        (packetLookedUp s nfa 0).broadcast_addr _ = _
      rw [packetLookedUp, hsame.rreq_id, hsame.ip_addr, hsilent.seq_num, hsame.broadcast_addr]
      rfl
    rintro ⟨-, tries, hsent⟩
    rw [ht, horig, hreq] at hsent
    have hprev : (packetsFifoPush (packetLookedUp s nfa 0) (nfqueuePacketGetId nfa)
        (nfqueuePacketGetDest nfa)).os.sent = s.os.sent := hsilent.sent
    rw [hprev] at hsent
    have hd' := dest_of_ownRequest (List.singleton_inj.1 (List.append_cancel_left hsent))
    rw [routeUsable, hd', hd, Bool.or_true] at husable
    exact absurd husable (by simp)

/-- **One alarm** keeps the property: a retry or a drop is for a destination out of use. -/
theorem fulfilled_runAlarm (h : Wf s) (hok : OwnOk s.rreq_queue) (hf : Fulfilled s)
    (owner : AlarmOwner) :
    Fulfilled (runAlarm s owner) ∧ ActiveQuiet s (runAlarm s owner) := by
  have hact := (fulfilled_iff_active h).1 hf
  have hrun := runAlarm_cases h owner
  have hwait := (runAlarm_requests h hok owner).2
  have hpackets := packets_runAlarm h owner
  generalize runAlarm s owner = t at *
  have hinactive : ∀ e ∈ s.rreq_queue, 0 ≤ e.prev_tries → s.active e.dst = false := by
    intro e he hown
    by_contra hc
    have hw := (hact e.dst (by simpa using hc)).1
    exact waiting_eq_false.1 hw e he hown rfl
  -- no alarm brings an entry into use
  have hsub : (∀ d, t.active d = true → s.active d = true) → Fulfilled t := by
    intro hle
    rw [fulfilled_iff_active (hrun.wf h)]
    intro d hd
    obtain ⟨hw, hp⟩ := hact d (hle d hd)
    rw [hwait, hw, hpackets]
    exact ⟨rfl, fun e he => hp e (List.mem_filter.1 he).1⟩
  have hquiet : t.rreq_id = s.rreq_id → ActiveQuiet s t := fun hid =>
    activeQuiet_of_fulfilled h hf fun d _ => not_originates_of_rreq_id hid d
  cases hrun with
  | idle hsame _ hactive => exact ⟨hsub (by rw [hactive]; exact fun _ => id), hquiet hsame.rreq_id⟩
  | expired a hexp =>
    refine ⟨hsub fun d hd => ?_, hquiet hexp.same.rreq_id⟩
    rw [hexp.active, Bool.and_eq_true] at hd
    exact hd.2
  | destroyed r q _ _ hdel =>
    refine ⟨hsub fun d hd => ?_, hquiet hdel.rreq_id⟩
    rw [hdel.active, Bool.and_eq_true] at hd
    exact hd.2
  | forgotten e _ _ ht => rw [ht] at hsub hquiet ⊢; exact ⟨hsub fun _ => id, hquiet rfl⟩
  | gaveUp e _ _ ht => rw [ht] at hsub hquiet ⊢; exact ⟨hsub fun _ => id, hquiet rfl⟩
  | retried e he hown hret =>
    have hout := hinactive e he hown
    refine ⟨hsub fun d hd => ?_, activeQuiet_of_fulfilled h hf fun d hd => ?_⟩
    · rw [hret.active, routeUsable, hout] at hd
      by_cases hip : e.dst = s.ip_addr
      · simpa [hip] using hd
      · simpa [hip] using hd
    · rintro ⟨-, tries, hsent⟩
      rw [hret.sent] at hsent
      have hd' := dest_of_ownRequest (List.singleton_inj.1 (List.append_cancel_left hsent))
      rw [← hd', hout] at hd
      exact Bool.false_ne_true hd

theorem fulfilled_doAlarmRun (h : Wf s) (hok : OwnOk s.rreq_queue) (hf : Fulfilled s)
    (l : List PendingAlarm) :
    Fulfilled (run (fun u a => runAlarm u a.owner) s l) ∧
      StepsMeet (fun u (a : PendingAlarm) => runAlarm u a.owner)
        (fun u a => ActiveQuiet u (runAlarm u a.owner)) s l := by
  induction l generalizing s with
  | nil => exact ⟨hf, trivial⟩
  | cons a l ih =>
    obtain ⟨hf', hquiet⟩ := fulfilled_runAlarm h hok hf a.owner
    obtain ⟨hend, hrest⟩ := ih ((runAlarm_cases h a.owner).wf h) (runAlarm_requests h hok a.owner).1 hf'
    exact ⟨hend, hquiet, hrest⟩

/-! ## One turn -/

/-- The turn queues a packet for `b`. -/
def queuesFor (s : MshData) (i : Input) (b : InAddr) : Bool :=
  match i.event with
  | .packet nfa => packetWaits s nfa && decide (b = nfqueuePacketGetDest nfa)
  | _ => false

/-- A turn that processes a datagram queues nothing. -/
theorem queuesFor_of_received {i : Input} (hrec : s.received i ≠ none) (b : InAddr) :
    queuesFor s i b = false := by
  unfold queuesFor
  split
  · rename_i nfa hev
    exact absurd (by rw [MshData.received, hev]) hrec
  · rfl

theorem Releases.of_arrive {i : Input} {stats : Statistics}
    (h : Releases ((s.arrive i).withStats stats) t) : Releases s t :=
  ⟨h.keeps_entry, h.packets, h.verdicts⟩

/-- A packet for `b` still waits unless `b` has just got an entry. -/
theorem Releases.waits_iff (h : Releases s t) (b : InAddr) :
    (∃ e ∈ t.packets_queue, e.dest = b) ↔
      (∃ e ∈ s.packets_queue, e.dest = b) ∧ (s.info b ≠ none ∨ t.info b = none) := by
  constructor
  · rintro ⟨e, he, rfl⟩
    obtain ⟨hes, hinfo⟩ := (h.mem_packets e).1 he
    exact ⟨⟨e, hes, rfl⟩, hinfo⟩
  · rintro ⟨⟨e, he, rfl⟩, hinfo⟩
    exact ⟨e, (h.mem_packets e).2 ⟨he, hinfo⟩, rfl⟩

/-- The requests and packets for `b` after a turn other than an alarm run. -/
theorem queues_step (h : Wf s) (hok : OwnOk s.rreq_queue) {i : Input} (hi : i.event ≠ .alarms)
    (b : InAddr) :
    rreqFifoWaitingResponseFor (step s i).rreq_queue b =
        (rreqFifoWaitingResponseFor s.rreq_queue b && !endsFor s i b || queuesFor s i b) ∧
      ((∃ e ∈ (step s i).packets_queue, e.dest = b) ↔
        (∃ e ∈ s.packets_queue, e.dest = b) ∧ (s.info b ≠ none ∨ (step s i).info b = none) ∨
          queuesFor s i b = true) := by
  cases turn s i with
  | rreq pkt stats hpkt hstep =>
    have hwf := (h.arrive i).withStats stats
    have hrel := (releases_aodvProcessRreq pkt hwf).of_arrive
    have hno : queuesFor s i b = false :=
      queuesFor_of_received (fun hc => by simp [receivedRreq, hc] at hpkt) b
    rw [hstep, hno, (aodvProcessRreq_queue hwf pkt).2, endsFor, receivedRrep_of_rreq hpkt,
      hrel.waits_iff]
    exact ⟨by simp, by simp⟩
  | rrep pkt stats hpkt hstep =>
    have hwf := (h.arrive i).withStats stats
    have hrel := (releases_aodvProcessRrep pkt hwf).of_arrive
    have hno : queuesFor s i b = false :=
      queuesFor_of_received (fun hc => by simp [receivedRrep, hc] at hpkt) b
    rw [hstep, hno, (aodvProcessRrep_queue hwf hok pkt).2, endsFor, hpkt, hrel.waits_iff,
      Option.any_some]
    exact ⟨by rw [Bool.or_false]; rfl, by simp⟩
  | packet nfa hev hstep =>
    obtain ⟨hpackets, -, hwait⟩ := managePacket_queues (h.arrive i) nfa
    have hends : endsFor s i b = false := by
      rw [endsFor, (received_of_event (by simp [hev])).2]; rfl
    have hqueues : queuesFor s i b = (packetWaits s nfa && decide (b = nfqueuePacketGetDest nfa)) := by
      rw [queuesFor, hev]
    rw [hstep, hwait, hpackets, hends, hqueues, info_managePacket (h.arrive i)]
    refine ⟨by rw [Bool.not_false, Bool.and_true]; rfl, ?_⟩
    change (∃ e ∈ (if packetWaits s nfa then _ else _) ++ s.packets_queue, _) ↔
      _ ∧ (s.info b ≠ none ∨ s.info b = none) ∨ _
    rw [and_iff_left (ne_or_eq _ _)]
    cases packetWaits s nfa with
    | false => simp
    | true => simp [queuedPacket, eq_comm, or_comm]
  | alarms hev _ => exact absurd hev hi
  | quiet stats _ hrrep hno _ hstep =>
    have hends : endsFor s i b = false := by rw [endsFor, hrrep]; rfl
    have hqueues : queuesFor s i b = false := by
      unfold queuesFor
      split
      · exact absurd (by assumption) (hno _)
      · rfl
    rw [hstep, hends, hqueues]
    refine ⟨by simp, ?_⟩
    change (∃ e ∈ s.packets_queue, _) ↔ _ ∧ (s.info b ≠ none ∨ s.info b = none) ∨ _
    rw [and_iff_left (ne_or_eq _ _), or_iff_left Bool.false_ne_true]

/-- A packet is queued only for a destination out of use, and then nothing comes into use. -/
theorem activated_of_queuesFor {i : Input} {b : InAddr} (hq : queuesFor s i b = true) :
    activated s i = [] ∧ s.active b = false := by
  unfold queuesFor at hq
  split at hq
  · rename_i nfa hev
    obtain ⟨hrreq, hrrep⟩ := received_of_event (s := s) (i := i) (by simp [hev])
    simp only [packetWaits, Bool.and_eq_true, Bool.not_eq_true', decide_eq_true_eq] at hq
    obtain ⟨⟨⟨-, -⟩, husable⟩, rfl⟩ := hq
    refine ⟨by rw [activated, hrreq, hrrep, hev]; simp [packetActivated, husable], ?_⟩
    rw [routeUsable, Bool.or_eq_false_iff] at husable
    exact husable.2
  · exact absurd hq Bool.false_ne_true

theorem info_ne_none_of_active {b : InAddr} (h : s.active b = true) : s.info b ≠ none :=
  Option.isSome_iff_ne_none.1 (isSome_of_active h)

theorem fulfilled_step_iff (h : Wf s) (hok : OwnOk s.rreq_queue) (hf : Fulfilled s) {i : Input}
    (hi : i.event ≠ .alarms) : Fulfilled (step s i) ↔ ActivatesFulfilled s i := by
  have hact := (fulfilled_iff_active h).1 hf
  rw [fulfilled_iff_active (h.step i)]
  constructor
  · intro hall b hb
    have hactive : (step s i).active b = true := by rw [active_step h hi]; simp [hb]
    obtain ⟨hwait, hpackets⟩ := hall b hactive
    obtain ⟨hw, hp⟩ := queues_step h hok hi b
    rw [hw, Bool.or_eq_false_iff] at hwait
    refine ⟨fun hwb => ?_, ?_⟩
    · have := hwait.1
      rw [hwb, Bool.true_and] at this
      simpa using this
    · refine or_iff_not_imp_left.2 fun hinfo e he hed => ?_
      obtain ⟨e', he', hed'⟩ := hp.2 (.inl ⟨⟨e, he, hed⟩, .inl hinfo⟩)
      exact hpackets e' he' hed'
  · intro hcond b hb
    obtain ⟨hw, hp⟩ := queues_step h hok hi b
    rw [active_step h hi, Bool.or_eq_true, decide_eq_true_eq] at hb
    have hinfo : (step s i).info b ≠ none := info_ne_none_of_active (by
      rw [active_step h hi, Bool.or_eq_true, decide_eq_true_eq]; exact hb)
    have hno : queuesFor s i b = false := by
      by_contra hq
      obtain ⟨hempty, hinact⟩ := activated_of_queuesFor (by simpa using hq)
      rw [hempty, hinact] at hb
      simp at hb
    have hgoal : (rreqFifoWaitingResponseFor s.rreq_queue b = true → endsFor s i b = true) ∧
        (s.info b = none ∨ ∀ e ∈ s.packets_queue, e.dest ≠ b) := by
      rcases hb with hb | hb
      · exact hcond b hb
      · obtain ⟨hwb, hpb⟩ := hact b hb
        exact ⟨fun hc => absurd hc (by simp [hwb]), .inr hpb⟩
    obtain ⟨hends, hpk⟩ := hgoal
    refine ⟨?_, fun e he hed => ?_⟩
    · rw [hw, hno, Bool.or_false]
      cases hwb : rreqFifoWaitingResponseFor s.rreq_queue b with
      | false => rfl
      | true => rw [hends hwb]; rfl
    · rcases hp.1 ⟨e, he, hed⟩ with ⟨⟨e', he', hed'⟩, hor⟩ | hq
      · rcases hpk with hnone | hpk
        · exact hor.elim (fun hc => hc hnone) hinfo
        · exact hpk e' he' hed'
      · exact absurd hq (by simp [hno])

theorem quietTurn_of_fulfilled (h : Wf s) (hok : OwnOk s.rreq_queue) (hf : Fulfilled s)
    (i : Input) : QuietTurn s i := by
  have hfa : Fulfilled (s.arrive i) := hf
  cases hev : i.event with
  | alarms =>
    rw [QuietTurn, hev]
    exact (fulfilled_doAlarmRun (h.arrive i) hok hfa _).2
  | packet nfa =>
    have hstep : step s i = managePacket (s.arrive i) nfa := by rw [step, hev]; rfl
    rw [QuietTurn, hev]
    dsimp only
    rw [hstep]
    exact activeQuiet_managePacket (h.arrive i) hfa nfa
  | _ =>
    rw [QuietTurn, hev]
    refine activeQuiet_of_fulfilled (h.arrive i) hfa fun d _ => not_originates_of_rreq_id ?_ d
    cases turn s i with
    | rreq pkt stats _ hstep =>
      rw [hstep]; exact rreq_id_aodvProcessRreq pkt ((h.arrive i).withStats stats)
    | rrep pkt stats _ hstep =>
      rw [hstep]; exact rreq_id_aodvProcessRrep pkt ((h.arrive i).withStats stats)
    | packet nfa hev' _ => rw [hev] at hev'; cases hev'
    | alarms hev' _ => rw [hev] at hev'; cases hev'
    | quiet stats _ _ _ _ hstep => rw [hstep]; rfl

/-! ## Runs -/

/-- **Every active route has fulfilled its discovery**, and no request is originated and no packet
    dropped for its destination, in a run if and only if every turn meets the condition. -/
theorem fulfilled_iff (ip bcast : InAddr) (iface : U32) (is : List Input) :
    ((∀ pre, pre <+: is → Fulfilled (run step (mshDataInit ip bcast iface) pre)) ∧
        StepsMeet step QuietTurn (mshDataInit ip bcast iface) is) ↔
      StepsMeet step ActivatesFulfilled (mshDataInit ip bcast iface) is := by
  refine Machine.forall_steps_iff (I := fun s => Wf s ∧ OwnOk s.rreq_queue)
    (fun s i h => ⟨h.1.step i, ownOk_step h.1 h.2 i⟩) ?_ ⟨Wf.init ip bcast iface, .nil⟩ ?_
  · rintro s i ⟨h, hok⟩ hf
    rw [and_iff_left (quietTurn_of_fulfilled h hok hf i)]
    by_cases hev : i.event = .alarms
    · have hempty : activated s i = [] := by
        obtain ⟨hrreq, hrrep⟩ := received_of_event (s := s) (i := i) (by simp [hev])
        rw [activated, hrreq, hrrep, hev]
      have hstep : step s i = doAlarmRun (s.arrive i) := by rw [step, hev]; rfl
      rw [hstep, ActivatesFulfilled, hempty]
      refine iff_of_true ?_ (by simp)
      exact (fulfilled_doAlarmRun (h.arrive i) hok (show Fulfilled (s.arrive i) from hf) _).1
    · exact fulfilled_step_iff h hok hf hev
  · intro r hr
    cases hr

/-- Node 10.0.0.1 starts a discovery of 10.0.0.9; then it receives a RREQ of 10.0.0.9. -/
def routeFromRreq : List Input :=
  [⟨0, [], [], .packet (capturedPacket 1 3 1 0x0A000001 0x0A000009)⟩,
    ⟨100000, [], [], datagramFrom 0x0A000009 1 (aodvPktBuildRreq 1 0 7 0x0A000008 0 0x0A000009 1)⟩]

/-- **The route is active and the request is still in the buffer.** -/
theorem discovery_survives_route :
    ¬ ∀ (ip bcast : InAddr) (iface : U32) (is : List Input),
      Fulfilled (run step (mshDataInit ip bcast iface) is) := by
  intro hall
  exact absurd (hall 0x0A000001 0x0A0000FF 0 routeFromRreq) (by decide +kernel)

end Meshias
