import Meshias.Retries

/-!
# Discoveries of known destinations

The table may still know a destination that has gone out of use.  What it knows should reach
`aodv_find_route` through the parameter `invalid_route` of `routing_table_update_route`, which is
never written.

* `askedBy` — the destination that a tick originates a RREQ for, read off the moment before it.
* `RediscoveryInformed` — the RREQ carries what the entry knows, or says that there is none.
* `NothingKnown` — the condition on one tick.

Principal results: `originated_cases`, `rediscoveryInformed_iff`, `expired_route_forgotten`.
-/

set_option autoImplicit false

namespace Meshias

open Machine (run)

variable {s t : MshData} {m : Moment} {k : Tick}

/-! ## What a tick asks for -/

instance (e : RreqFifo) : Decidable e.Retries := by
  unfold RreqFifo.Retries; infer_instance

/-- A captured packet starts a discovery. -/
def asksOnPacket (s : MshData) (nfa : NfqData) : Option InAddr :=
  if packetPasses s nfa = false ∧ nfqueuePacketGetHook nfa = NF_IP_LOCAL_OUT ∧
      routeUsable s (nfqueuePacketGetDest nfa) = false ∧
      rreqFifoWaitingResponseFor s.rreq_queue (nfqueuePacketGetDest nfa) = false then
    some (nfqueuePacketGetDest nfa)
  else none

/-- A callback continues one. -/
def asksOnCallback (s : MshData) : AlarmOwner → Option InAddr
  | .route _ => none
  | .rreq p =>
    ((s.rreq_queue.find? (fun e => e.self = p)).filter (fun e => e.Retries)).map (·.dst)

/-- **The destination that a tick asks for.** -/
def askedBy (m : Moment) : Tick → Option InAddr
  | .turn ⟨_, _, _, .packet nfa⟩ => if m.batch = [] then asksOnPacket m.data nfa else none
  | .turn _ => none
  | .callback => m.batch.head?.bind (fun a => asksOnCallback m.data a.owner)

/-- The RREQ that a tick originates. -/
inductive Asked (m : Moment) (k : Tick) : Prop where
  | silent (hasks : askedBy m k = none) (hnone : originated m k = [])
  | asked (d : InAddr) (s : MshData) (prev_tries : Int) (hasks : askedBy m k = some d)
      (hsent : originated m k = [ownRequest s d prev_tries])

theorem asked_packet (h : Wf m.data) (hbatch : m.batch = []) {i : Input} {nfa : NfqData}
    (hev : i.event = .packet nfa) : Asked m (.turn i) := by
  have hstep : step m.data i = managePacket (m.data.arrive i) nfa := by
    rw [step, hev]
    rfl
  have hdata : (tick m (.turn i)).data = managePacket (m.data.arrive i) nfa := by
    rw [tick_step hbatch (by simp [hev]), hstep]
  have hasks : askedBy m (.turn i) = asksOnPacket m.data nfa := by
    obtain ⟨now, refusals, freed, event⟩ := i
    obtain rfl := hev
    exact if_pos hbatch
  have hlook := fun orig => (routingTableUpdateRoute_spec (h.arrive i) (nfqueuePacketGetDest nfa)
    orig).2.1.sent
  have hquiet : (managePacket (m.data.arrive i) nfa).os.sent = m.data.os.sent →
      asksOnPacket m.data nfa = none → Asked m (.turn i) := fun hsent hno =>
    .silent (hasks.trans hno) (originated_of_sent m _ (by rw [hdata, hsent]))
  cases packetManaged (h.arrive i) nfa with
  | passed hpass ht =>
    have hpass : packetPasses m.data nfa = true := hpass
    exact hquiet (by rw [ht]; rfl) (if_neg fun hc => by rw [hpass] at hc; cases hc.1)
  | routed orig _ _ husable ht =>
    refine hquiet (by rw [ht]; exact hlook orig) (if_neg ?_)
    rintro ⟨-, hhook, hno, -⟩
    rcases husable with hfwd | hyes
    · rw [hfwd] at hhook
      cases hhook
    · cases hyes.symm.trans hno
  | unanswered _ hhook _ ht =>
    refine hquiet (by rw [ht]; exact hlook _) (if_neg ?_)
    rintro ⟨-, hout, -⟩
    rw [hhook] at hout
    cases hout
  | queued _ _ _ hwaiting ht =>
    have hwaiting : rreqFifoWaitingResponseFor m.data.rreq_queue (nfqueuePacketGetDest nfa) = true :=
      hwaiting
    refine hquiet (by rw [ht]; exact hlook 0) (if_neg ?_)
    rintro ⟨-, -, -, hno⟩
    rw [hwaiting] at hno
    cases hno
  | discovered hpass hhook husable hwaiting ht =>
    let s₁ := packetsFifoPush (packetLookedUp (m.data.arrive i) nfa 0) (nfqueuePacketGetId nfa)
      (nfqueuePacketGetDest nfa)
    have hsent := (originated_aodvFindRoute s₁ (nfqueuePacketGetDest nfa) 0).sent
    have hbefore : s₁.os.sent = m.data.os.sent := hlook 0
    rw [← ht, ← hdata, hbefore] at hsent
    refine .asked (nfqueuePacketGetDest nfa) s₁ 0
      (hasks.trans (if_pos ⟨hpass, hhook, husable, hwaiting⟩)) ?_
    rw [originated_packet m hev, hsent, drop_sent]

theorem asked_callback (h : Wf m.data) {a : PendingAlarm} {rest : List PendingAlarm}
    (hbatch : m.batch = a :: rest) : Asked m .callback := by
  have hdata : (tick m .callback).data = runAlarm m.data a.owner := by
    rw [tick_callback hbatch]
  have hasks : askedBy m .callback = asksOnCallback m.data a.owner := by simp [askedBy, hbatch]
  cases howner : a.owner with
  | route p =>
    rw [howner] at hdata hasks
    exact .silent hasks
      (originated_of_sent m _ (by rw [hdata]; exact (runAlarm_route_queues _ p).2))
  | rreq p =>
    rw [howner] at hdata hasks
    have hfind : ∀ {e : RreqFifo}, e ∈ m.data.rreq_queue → e.self = p →
        askedBy m .callback = ((some e).filter (fun e => e.Retries)).map (·.dst) := by
      intro e he hself
      have hentry := (KeyedList.find_key_some h.rreq_nodup).2 ⟨he, hself⟩
      rw [hasks, asksOnCallback, hentry]
    cases rreqAlarm h p with
    | absent habsent ht =>
      have hno : m.data.rreq_queue.find? (fun e => e.self = p) = none :=
        List.find?_eq_none.2 fun e he => by simpa using habsent e he
      refine .silent ?_ (originated_of_sent m _ (by rw [hdata, ht]))
      rw [hasks, asksOnCallback, hno]
      rfl
    | forgotten e he hself hext ht =>
      have hno : ¬ e.Retries := fun hc => absurd hc.1 (not_le.2 hext)
      refine .silent ?_ (originated_of_sent m _ (by rw [hdata, ht]; rfl))
      rw [hfind he hself]
      simp [hno]
    | gaveUp e he hself hown hlast ht =>
      have hno : ¬ e.Retries := fun hc => absurd hc.2 (not_le.2 hlast)
      refine .silent ?_ (originated_of_sent m _ (by rw [hdata, ht]; rfl))
      rw [hfind he hself]
      simp [hno]
    | retried e he hself htries hret =>
      refine .asked e.dst m.data (e.prev_tries + 1) ?_ ?_
      · rw [hfind he hself]
        simp [htries]
      · rw [originated, hdata, hret.sent, drop_sent]

/-- **What a tick originates** is one RREQ for the destination that it asks for. -/
theorem originated_cases (h : Wf m.data) (k : Tick) : Asked m k := by
  cases k with
  | turn i =>
    cases hev : i.event with
    | packet nfa =>
      by_cases hbatch : m.batch = []
      · exact asked_packet h hbatch hev
      · refine .silent ?_ (originated_of_sent m _ (by rw [tick_busy hbatch]))
        obtain ⟨now, refusals, freed, event⟩ := i
        obtain rfl := hev
        exact if_neg hbatch
    | _ =>
      refine .silent ?_ (originated_turn m (by simp [hev]))
      obtain ⟨now, refusals, freed, event⟩ := i
      obtain rfl := hev
      rfl
  | callback =>
    cases hbatch : m.batch with
    | nil =>
      exact .silent (by simp [askedBy, hbatch]) (originated_of_sent m _ (by rw [tick_idle hbatch]))
    | cons a rest => exact asked_callback h hbatch

/-! ## What the request says -/

/-- **A discovery uses what is known**: the RREQ for a destination with an entry out of use carries
    the number of that entry, and the RREQ for one without an entry says so. -/
def RediscoveryInformed (m : Moment) (k : Tick) : Prop :=
  ∀ p ∈ originated m k,
    (∀ j ∈ m.data.info p.asksFor, m.data.active p.asksFor = false →
      (rreqOfPayload p.payload).dest_seq_num = j.dest_seq_num ∧
        (rreqOfPayload p.payload).flags &&& RREQ_UNKNOWN_SEQ_NUM_FLAG = 0 ∧
          (rreqOfPayload p.payload).hop_count = 0) ∧
    (m.data.info p.asksFor = none →
      (rreqOfPayload p.payload).flags &&& RREQ_UNKNOWN_SEQ_NUM_FLAG ≠ 0)

/-- **The condition**: the destination that the tick asks for has no entry out of use. -/
def NothingKnown (m : Moment) (k : Tick) : Prop :=
  ∀ d ∈ askedBy m k, m.data.info d = none ∨ m.data.active d = true

theorem rreq_ownRequest (s : MshData) (d : InAddr) (prev_tries : Int) :
    rreqOfPayload (ownRequest s d prev_tries).payload =
      ⟨1, 5, 0, 0, 0, s.rreq_id + 1, d, 0, s.ip_addr, s.seq_num + 1, []⟩ :=
  rreqOfPayload_build ..

theorem rediscoveryInformed_tick_iff (h : Wf m.data) (k : Tick) :
    RediscoveryInformed m k ↔ NothingKnown m k := by
  cases originated_cases h k with
  | silent hasks hnone =>
    rw [RediscoveryInformed, NothingKnown, hasks, hnone]
    simp
  | asked d s prev_tries hasks hsent =>
    -- the flag is always set
    have hflag : (5 : BitVec 5) &&& RREQ_UNKNOWN_SEQ_NUM_FLAG ≠ 0 := by decide
    rw [RediscoveryInformed, NothingKnown, hasks, hsent, List.forall_mem_singleton,
      (asksFor_ownRequest s d prev_tries).1, rreq_ownRequest]
    simp only [Option.mem_some_iff, forall_eq']
    rw [and_iff_left (fun _ => hflag)]
    constructor
    · intro hinformed
      cases hj : m.data.info d with
      | none => exact .inl rfl
      | some j =>
        refine .inr (Bool.of_not_eq_false fun hout => ?_)
        exact hflag (hinformed j hj hout).2.1
    · rintro (hnone | hact) j hj hout
      · rw [hnone] at hj
        cases hj
      · cases hact.symm.trans hout

/-- **When a discovery uses what is known**, in every tick of every run. -/
theorem rediscoveryInformed_iff (ip bcast : InAddr) (iface : U32) (ks : List Tick) (k : Tick) :
    RediscoveryInformed (run tick (startMoment ip bcast iface) ks) k ↔
      NothingKnown (run tick (startMoment ip bcast iface) ks) k :=
  rediscoveryInformed_tick_iff (momentOk ip bcast iface ks).wf k

/-- 10.0.0.1 learns sequence number 5 of 10.0.0.9; at 3 s the entry goes out of use. -/
def routeExpired : List Tick :=
  [.turn ⟨0, [], [], datagramFrom 0x0A000002 60 (aodvPktBuildRreq 1 1 7 0x0A000008 0 0x0A000009 5)⟩,
    .turn ⟨3000000, [], [], .alarms⟩, .callback, .callback]

/-- At 4 s a packet for 10.0.0.9 is captured. -/
def packetAfterExpiry : Tick :=
  .turn ⟨4000000, [], [], .packet (capturedPacket 1 3 1 0x0A000001 0x0A000009)⟩

/-- **The RREQ says that nothing is known of 10.0.0.9.** -/
theorem expired_route_forgotten :
    ¬ ∀ (ip bcast : InAddr) (iface : U32) (ks : List Tick) (k : Tick),
      RediscoveryInformed (run tick (startMoment ip bcast iface) ks) k := by
  intro hall
  have hnothing := (rediscoveryInformed_tick_iff
    (momentOk 0x0A000001 0x0A0000FF 0 routeExpired).wf packetAfterExpiry).1
    (hall 0x0A000001 0x0A0000FF 0 routeExpired packetAfterExpiry)
  have hasks : askedBy (run tick (startMoment 0x0A000001 0x0A0000FF 0) routeExpired)
      packetAfterExpiry = some 0x0A000009 := by decide +kernel
  have hknown : ((run tick (startMoment 0x0A000001 0x0A0000FF 0) routeExpired).data.info
      0x0A000009).isSome = true := by decide +kernel
  have hout : (run tick (startMoment 0x0A000001 0x0A0000FF 0) routeExpired).data.active
      0x0A000009 = false := by decide +kernel
  rcases hnothing _ hasks with hnone | hact
  · rw [hnone] at hknown
    cases hknown
  · cases hact.symm.trans hout

end Meshias
