import Meshias.Discovery
import Meshias.Renewals

/-!
# The retry protocol

An entry of the RREQ buffer with `prev_tries ≥ 0` is a discovery of the node itself.  Its counter,
its id and its timer are advanced by the alarm callback and by `aodv_find_route`.

* `originated` — the RREQs a tick originates: what a captured packet or a callback makes the node
  send.
* `Buffered` — everything a tick can do to the buffer.
* `RetriesOk` — the invariants of the buffer, with the history of the originated RREQs.
* `Rounds` — the course of a discovery that no RREP ends.

Principal results: `buffered`, `RetriesOk.step`, `retry_protocol`.
-/

set_option autoImplicit false

namespace Meshias

open Machine (run recording)

variable {s t : MshData} {m n : Moment} {k : Tick}

/-! ## What a tick originates -/

/-- The RREQs that a tick originates.  A datagram makes the node answer or pass on a message. -/
def originated (m : Moment) (k : Tick) : List AodvPkt :=
  match k with
  | .turn ⟨_, _, _, .packet _⟩ => (tick m k).data.os.sent.drop m.data.os.sent.length
  | .turn _ => []
  | .callback => (tick m k).data.os.sent.drop m.data.os.sent.length

/-- The destination a RREQ asks for, and its id. -/
def AodvPkt.asksFor (pkt : AodvPkt) : InAddr := (rreqOfPayload pkt.payload).dest_ip_addr

def AodvPkt.rreqId (pkt : AodvPkt) : U32 := (rreqOfPayload pkt.payload).rreq_id

theorem asksFor_ownRequest (s : MshData) (dest : InAddr) (prev_tries : Int) :
    (ownRequest s dest prev_tries).asksFor = dest ∧
      (ownRequest s dest prev_tries).rreqId = s.rreq_id + 1 := by
  rw [AodvPkt.asksFor, AodvPkt.rreqId, ownRequest, rreqOfPayload_build]
  exact ⟨rfl, rfl⟩

/-- The timer of the `k`-th RREQ, set at `now`: `2^k * NET_TRAVERSAL_TIME`. -/
def backoffEnd (now : Nat) (k : Int) : Nat :=
  now + 2 ^ k.toNat * NET_TRAVERSAL_TIME.toNat * 1000

/-- `binary_exponential_backoff_time` does not wrap for the numbers of tries there are. -/
theorem alarm_backoff {k : Nat} (hk : k ≤ RREQ_RETRIES.toNat) (now : Nat) :
    now + (binaryExponentialBackoffTime k).toNat * 1000 = backoffEnd now k := by
  have hk : k ≤ 2 := hk
  rw [backoffEnd]
  interval_cases k
  · rfl
  · rfl
  · rfl

/-- The next callback is the one of the request at `p`. -/
def Moment.RingsRreq (m : Moment) (p : Nat) : Prop :=
  ∃ a rest, m.batch = a :: rest ∧ a.owner = .rreq p

instance (m : Moment) (p : Nat) : Decidable (m.RingsRreq p) :=
  decidable_of_iff (m.batch.head?.any (fun a => a.owner = .rreq p) = true) <| by
    rw [Moment.RingsRreq]
    cases m.batch with
    | nil => simp
    | cons a rest => simp

/-- **Everything a tick can do to the buffer.** -/
inductive Buffered (m : Moment) (k : Tick) (n : Moment) : Prop where
  | same (hrings : k = .callback → ∀ e ∈ m.data.rreq_queue, ¬ m.RingsRreq e.self)
      (hqueue : n.data.rreq_queue = m.data.rreq_queue) (hnone : originated m k = [])
  | heard (i : Input) (hk : k = .turn i) (e : RreqFifo) (hext : e.prev_tries < 0)
      (hpend : e.alarm.pending = true)
      (hqueue : n.data.rreq_queue = e :: m.data.rreq_queue) (hnone : originated m k = [])
  | asked (i : Input) (hk : k = .turn i) (s : MshData) (d : InAddr) (hnow : s.os.now = n.data.os.now)
      (hnew : rreqFifoWaitingResponseFor m.data.rreq_queue d = false)
      (hqueue : n.data.rreq_queue = ownEntry s d :: m.data.rreq_queue)
      (hsent : originated m k = [ownRequest s d 0])
  | answered (i : Input) (hk : k = .turn i) (hrrep : (receivedRrep m.data i).isSome = true)
      (p : RreqFifo → Bool) (hqueue : n.data.rreq_queue = m.data.rreq_queue.filter p)
      (hnone : originated m k = [])
  | forgotten (e : RreqFifo) (he : e ∈ m.data.rreq_queue) (hk : k = .callback)
      (hrings : m.RingsRreq e.self) (hext : e.prev_tries < 0)
      (hqueue : n.data.rreq_queue = m.data.rreq_queue.filter (fun x => x.self ≠ e.self))
      (hnone : originated m k = [])
  | gaveUp (e : RreqFifo) (he : e ∈ m.data.rreq_queue) (hk : k = .callback)
      (hrings : m.RingsRreq e.self) (hown : 0 ≤ e.prev_tries)
      (hlast : RREQ_RETRIES.toNat < e.prev_tries + 1)
      (hdata : n.data = rreqFifoGiveUp m.data e) (hnone : originated m k = [])
  | retried (e : RreqFifo) (he : e ∈ m.data.rreq_queue) (hk : k = .callback)
      (hrings : m.RingsRreq e.self) (htries : e.Retries) (rank : Nat)
      (hnow : n.data.os.now = m.data.os.now)
      (hqueue : n.data.rreq_queue = m.data.rreq_queue.map
        (fun x => if x.self = e.self then retriedEntry m.data e rank else x))
      (hsent : originated m k = [ownRequest m.data e.dst (e.prev_tries + 1)])

/-- A turn runs no callback. -/
theorem not_callback {i : Input} {P : Prop} (h : Tick.turn i = .callback) : P := by cases h

theorem drop_sent (l : List AodvPkt) (p : AodvPkt) : (l ++ [p]).drop l.length = [p] := by simp

theorem originated_turn (m : Moment) {i : Input} (h : ∀ nfa, i.event ≠ .packet nfa) :
    originated m (.turn i) = [] := by
  obtain ⟨now, refusals, freed, event⟩ := i
  cases event with
  | packet nfa => exact absurd rfl (h nfa)
  | _ => rfl

theorem originated_packet (m : Moment) {i : Input} {nfa : NfqData} (h : i.event = .packet nfa) :
    originated m (.turn i) = (tick m (.turn i)).data.os.sent.drop m.data.os.sent.length := by
  obtain ⟨now, refusals, freed, event⟩ := i
  obtain rfl := h
  rfl

/-- Nothing is originated when nothing is sent. -/
theorem originated_of_sent (m : Moment) (k : Tick)
    (h : (tick m k).data.os.sent = m.data.os.sent) : originated m k = [] := by
  cases k with
  | turn i =>
    cases hev : i.event with
    | packet nfa => rw [originated_packet m hev, h, List.drop_length]
    | _ => exact originated_turn m (by simp [hev])
  | callback => rw [originated, h, List.drop_length]

/-- What a captured packet does to the buffer. -/
theorem buffered_packet (h : Wf m.data) {i : Input} {nfa : NfqData} (hev : i.event = .packet nfa)
    (hdata : (tick m (.turn i)).data = managePacket (m.data.arrive i) nfa) :
    Buffered m (.turn i) (tick m (.turn i)) := by
  have hlook := fun orig => sameTable_packetLookedUp (h.arrive i) nfa orig
  have hsilent : ∀ orig, (packetLookedUp (m.data.arrive i) nfa orig).os.sent = m.data.os.sent :=
    fun orig => (routingTableUpdateRoute_spec (h.arrive i) _ orig).2.1.sent
  have hsame : (managePacket (m.data.arrive i) nfa).rreq_queue = m.data.rreq_queue →
      (managePacket (m.data.arrive i) nfa).os.sent = m.data.os.sent →
      Buffered m (.turn i) (tick m (.turn i)) := fun hqueue hsent =>
    .same not_callback (by rw [hdata, hqueue]) (originated_of_sent m _ (by rw [hdata, hsent]))
  cases packetManaged (h.arrive i) nfa with
  | passed _ ht => exact hsame (by rw [ht]; rfl) (by rw [ht]; rfl)
  | routed orig _ _ _ ht =>
    exact hsame (by rw [ht]; exact (hlook orig).rreq_queue) (by rw [ht]; exact hsilent orig)
  | unanswered _ _ _ ht =>
    exact hsame (by rw [ht]; exact (hlook _).rreq_queue) (by rw [ht]; exact hsilent _)
  | queued _ _ _ _ ht =>
    exact hsame (by rw [ht]; exact (hlook 0).rreq_queue) (by rw [ht]; exact hsilent 0)
  | discovered _ _ _ hnew ht =>
    let s₁ := packetsFifoPush (packetLookedUp (m.data.arrive i) nfa 0) (nfqueuePacketGetId nfa)
      (nfqueuePacketGetDest nfa)
    have horig := originated_aodvFindRoute s₁ (nfqueuePacketGetDest nfa) 0
    have hsent := horig.sent
    rw [← ht, ← hdata, packetsFifoPush_os, hsilent 0] at hsent
    refine .asked i rfl s₁ _ ?_ hnew ?_ ?_
    · rw [hdata, ht]
      exact horig.now.symm
    · rw [hdata, ht, horig.rreq_queue, if_pos rfl, packetsFifoPush_rreq_queue, (hlook 0).rreq_queue]
      rfl
    · rw [originated_packet m hev, hsent, drop_sent]

/-- A callback. -/
theorem buffered_callback (h : Wf m.data) {a : PendingAlarm} {rest : List PendingAlarm}
    (hbatch : m.batch = a :: rest) : Buffered m .callback (tick m .callback) := by
  have hdata : (tick m .callback).data = runAlarm m.data a.owner := by rw [tick_callback hbatch]
  have hhead : ∀ p, m.RingsRreq p → a.owner = .rreq p := by
    rintro p ⟨b, rest', hcons, hb⟩
    rw [hbatch] at hcons
    rw [(List.cons.inj hcons).1, hb]
  cases howner : a.owner with
  | route p =>
    rw [howner] at hdata hhead
    obtain ⟨hqueue, hsent⟩ := runAlarm_route_queues m.data p
    exact .same (fun _ e _ hrings => AlarmOwner.noConfusion (hhead e.self hrings))
      (by rw [hdata, hqueue]) (originated_of_sent m _ (by rw [hdata, hsent]))
  | rreq p =>
    rw [howner] at hdata
    have hrings : m.RingsRreq p := ⟨a, rest, hbatch, howner⟩
    cases rreqAlarm h p with
    | absent habsent ht =>
      rw [ht] at hdata
      refine .same (fun _ e he hrings => habsent e he ?_) (by rw [hdata])
        (originated_of_sent m _ (by rw [hdata]))
      have hsame := hhead e.self hrings
      rw [howner] at hsame
      exact (AlarmOwner.rreq.inj hsame).symm
    | forgotten e he hself hext ht =>
      rw [ht] at hdata
      exact .forgotten e he rfl (by rw [hself]; exact hrings) hext (by rw [hdata]; rfl)
        (originated_of_sent m _ (by rw [hdata]; rfl))
    | gaveUp e he hself hown hlast ht =>
      rw [ht] at hdata
      exact .gaveUp e he rfl (by rw [hself]; exact hrings) hown hlast hdata
        (originated_of_sent m _ (by rw [hdata]; rfl))
    | retried e he hself htries hret =>
      rw [← hdata] at hret
      obtain ⟨rank, hqueue⟩ := hret.rreq_queue
      refine .retried e he rfl (by rw [hself]; exact hrings) htries rank hret.now hqueue ?_
      rw [originated, hret.sent, drop_sent]

/-- A turn that is not an alarm run. -/
theorem buffered_turn (h : Wf m.data) (hbatch : m.batch = []) {i : Input}
    (hev : i.event ≠ .alarms) : Buffered m (.turn i) (tick m (.turn i)) := by
  have hdata : (tick m (.turn i)).data = step m.data i := by rw [tick_step hbatch hev]
  have hmessage : (∃ pkt, m.data.received i = some pkt) → originated m (.turn i) = [] := by
    rintro ⟨pkt, hpkt⟩
    refine originated_turn m fun nfa hc => ?_
    rw [MshData.received, hc] at hpkt
    cases hpkt
  cases turn m.data i with
  | rreq pkt stats hpkt hstep =>
    have hnone := hmessage ⟨pkt, (receivedRreq_eq_some.1 hpkt).1⟩
    obtain ⟨self, rank, hqueue⟩ := rreq_queue_aodvProcessRreq pkt ((h.arrive i).withStats stats)
    rw [← hstep, ← hdata] at hqueue
    split at hqueue
    · exact .same not_callback hqueue hnone
    · exact .heard i rfl _ (Int.negSucc_lt_zero 0) rfl hqueue hnone
  | rrep pkt stats hpkt hstep =>
    have hnone := hmessage ⟨pkt, (receivedRrep_eq_some.1 hpkt).1⟩
    have hqueue := rreq_queue_aodvProcessRrep pkt ((h.arrive i).withStats stats)
    rw [← hstep, ← hdata] at hqueue
    split at hqueue
    · obtain ⟨p, hp⟩ := rreqDeleted_eq_filter m.data.rreq_queue m.data.rreq_id
        (rrepNext pkt).dest_ip_addr
      exact .answered i rfl (by rw [hpkt]; rfl) p (hqueue.trans hp) hnone
    · exact .same not_callback hqueue hnone
  | packet nfa hpkt hstep => exact buffered_packet h hpkt (hdata.trans hstep)
  | alarms hc _ => exact absurd hc hev
  | quiet stats _ _ hno _ hstep =>
    exact .same not_callback (by rw [hdata, hstep]; rfl) (originated_turn m hno)

/-- **What a tick does to the buffer.** -/
theorem buffered (h : Wf m.data) (k : Tick) : Buffered m k (tick m k) := by
  cases k with
  | turn i =>
    by_cases hbatch : m.batch = []
    · by_cases hev : i.event = .alarms
      · rw [tick_alarms hbatch hev]
        exact .same not_callback rfl (originated_turn m (by simp [hev]))
      · exact buffered_turn h hbatch hev
    · have htick := tick_busy hbatch i
      exact .same not_callback (by rw [htick]) (originated_of_sent m _ (by rw [htick]))
  | callback =>
    cases hbatch : m.batch with
    | nil =>
      have htick := tick_idle hbatch
      refine .same (fun _ e _ hrings => ?_) (by rw [htick]) (originated_of_sent m _ (by rw [htick]))
      obtain ⟨b, rest, hcons, -⟩ := hrings
      rw [hbatch] at hcons
      cases hcons
    | cons a rest => exact buffered_callback h hbatch

/-! ## The invariants of the buffer -/

/-- The last RREQ for a destination in a history, which begins with the last. -/
def lastFor (hist : List AodvPkt) (d : InAddr) : Option AodvPkt :=
  hist.find? (fun pkt => pkt.asksFor = d)

/-- **The invariants of the buffer**, with the history of `originated`. -/
structure RetriesOk (c : Moment × List AodvPkt) : Prop where
  one : ∀ e ∈ c.1.data.rreq_queue, ∀ e' ∈ c.1.data.rreq_queue, 0 ≤ e.prev_tries →
    0 ≤ e'.prev_tries → e.dst = e'.dst → e = e'
  pending : ∀ e ∈ c.1.data.rreq_queue, e.alarm.pending = true
  tries : ∀ e ∈ c.1.data.rreq_queue, e.prev_tries ≤ RREQ_RETRIES.toNat
  last : ∀ e ∈ c.1.data.rreq_queue, 0 ≤ e.prev_tries →
    (lastFor c.2 e.dst).map (·.rreqId) = some e.rreq_id

variable {hist : List AodvPkt}

theorem RetriesOk.ownOk (h : RetriesOk (m, hist)) : OwnOk m.data.rreq_queue :=
  ⟨fun e he _ => h.pending e he, h.one⟩

theorem lastFor_cons (pkt : AodvPkt) (hist : List AodvPkt) (d : InAddr) :
    lastFor (pkt :: hist) d = if pkt.asksFor = d then some pkt else lastFor hist d := by
  rw [lastFor, List.find?_cons]
  by_cases hd : pkt.asksFor = d
  · simp [hd]
  · simp [hd, lastFor]

/-- Entries may leave. -/
theorem RetriesOk.of_subset (h : RetriesOk (m, hist))
    (hsub : ∀ e ∈ n.data.rreq_queue, e ∈ m.data.rreq_queue) : RetriesOk (n, hist) where
  one e he e' he' := h.one e (hsub e he) e' (hsub e' he')
  pending e he := h.pending e (hsub e he)
  tries e he := h.tries e (hsub e he)
  last e he := h.last e (hsub e he)

theorem RetriesOk.of_filter (h : RetriesOk (m, hist)) {p : RreqFifo → Bool}
    (hqueue : n.data.rreq_queue = m.data.rreq_queue.filter p) : RetriesOk (n, hist) := by
  refine h.of_subset fun e he => ?_
  rw [hqueue] at he
  exact List.mem_of_mem_filter he

/-- An entry comes in front. -/
theorem RetriesOk.cons (h : RetriesOk (m, hist)) {e : RreqFifo} {hist' : List AodvPkt}
    (hqueue : n.data.rreq_queue = e :: m.data.rreq_queue) (hown : OwnOk (e :: m.data.rreq_queue))
    (hpend : e.alarm.pending = true) (htries : e.prev_tries ≤ RREQ_RETRIES.toNat)
    (hlast : 0 ≤ e.prev_tries → (lastFor hist' e.dst).map (·.rreqId) = some e.rreq_id)
    (hother : ∀ x ∈ m.data.rreq_queue, 0 ≤ x.prev_tries →
      lastFor hist' x.dst = lastFor hist x.dst) : RetriesOk (n, hist') where
  one := by
    rw [hqueue]
    exact hown.unique
  pending := by
    rw [hqueue, List.forall_mem_cons]
    exact ⟨hpend, h.pending⟩
  tries := by
    rw [hqueue, List.forall_mem_cons]
    exact ⟨htries, h.tries⟩
  last := by
    rw [hqueue, List.forall_mem_cons]
    refine ⟨hlast, fun x hx hox => ?_⟩
    rw [hother x hx hox]
    exact h.last x hx hox

/-- A request is tried once more. -/
theorem RetriesOk.retried (hok : Wf m.data) (h : RetriesOk (m, hist)) {e : RreqFifo}
    (he : e ∈ m.data.rreq_queue) (hown : 0 ≤ e.prev_tries)
    (hmore : e.prev_tries + 1 ≤ RREQ_RETRIES.toNat) (rank : Nat)
    (hqueue : n.data.rreq_queue =
      m.data.rreq_queue.map (fun x => if x.self = e.self then retriedEntry m.data e rank else x)) :
    RetriesOk (n, [ownRequest m.data e.dst (e.prev_tries + 1)] ++ hist) := by
  have hretried := h.ownOk.retried (s := m.data) hok.rreq_nodup he hown rank
  obtain ⟨hfor, hid⟩ := asksFor_ownRequest m.data e.dst (e.prev_tries + 1)
  constructor
  case one =>
    dsimp only
    rw [hqueue]
    exact hretried.unique
  all_goals
    intro y hy
    dsimp only at hy
    rw [hqueue] at hy
    obtain ⟨x, hx, rfl⟩ := List.mem_map.1 hy
  case pending =>
    split
    · rfl
    · exact h.pending x hx
  case tries =>
    split
    · exact hmore
    · exact h.tries x hx
  case last =>
    intro hoy
    rw [List.singleton_append, lastFor_cons, hfor]
    by_cases hself : x.self = e.self
    · rw [if_pos hself, retriedEntry, if_pos rfl, Option.map_some, hid]
    · -- the request of another destination
      rw [if_neg hself] at hoy ⊢
      have hne : e.dst ≠ x.dst := fun hd =>
        hself (by rw [h.one x hx e he hoy hown hd.symm])
      rw [if_neg hne]
      exact h.last x hx hoy

theorem RetriesOk.step (hok : Wf m.data) (h : RetriesOk (m, hist)) (k : Tick) :
    RetriesOk (tick m k, originated m k ++ hist) := by
  cases buffered hok k with
  | same _ hqueue hnone =>
    rw [hnone]
    exact h.of_subset fun e he => by rw [← hqueue]; exact he
  | heard _ _ e hext hpend hqueue hnone =>
    rw [hnone]
    exact h.cons hqueue (h.ownOk.cons_external hext) hpend (by omega)
      (fun hown => absurd hown (not_le.2 hext)) fun _ _ _ => rfl
  | asked _ _ s d _ hnew hqueue hsent =>
    have hother := waiting_eq_false.1 hnew
    obtain ⟨hfor, hid⟩ := asksFor_ownRequest s d 0
    have hdst : (ownEntry s d).dst = d := rfl
    rw [hsent]
    refine h.cons hqueue (h.ownOk.cons_own rfl hnew) rfl (Int.natCast_nonneg _) (fun _ => ?_)
      fun e he hoe => ?_
    · rw [hdst, List.singleton_append, lastFor_cons, if_pos hfor, Option.map_some, hid]
      rfl
    · rw [List.singleton_append, lastFor_cons, hfor, if_neg (Ne.symm (hother e he hoe))]
  | answered i _ _ p hqueue hnone =>
    rw [hnone]
    exact h.of_filter hqueue
  | forgotten e _ _ _ _ hqueue hnone =>
    rw [hnone]
    exact h.of_filter hqueue
  | gaveUp e _ _ _ _ _ hdata hnone =>
    rw [hnone]
    exact h.of_filter (congrArg MshData.rreq_queue hdata)
  | retried e he _ _ htries rank _ hqueue hsent =>
    rw [hsent]
    exact h.retried hok he htries.1 htries.2 rank hqueue

/-! ## The timers of the requests -/

/-- The requests whose callbacks are still to run have expired. -/
def DueRreqs (m : Moment) : Prop :=
  ∀ a ∈ m.batch, ∀ e ∈ m.data.rreq_queue, a.owner = .rreq e.self → e.alarm.tv ≤ m.data.os.now

theorem DueRreqs.called {a : PendingAlarm} {rest : List PendingAlarm} (hok : MomentOk m)
    (h : DueRreqs m) (hbatch : m.batch = a :: rest) :
    DueRreqs ⟨runAlarm m.data a.owner, rest⟩ := by
  have howners := hok.batch.owners
  rw [hbatch, List.map_cons, List.nodup_cons] at howners
  intro b hb e he howner
  have hbefore := h b (by rw [hbatch]; exact List.mem_cons_of_mem _ hb)
  have hnow : (runAlarm m.data a.owner).os.now = m.data.os.now := now_called hok.wf a
  rw [hnow]
  cases hao : a.owner with
  | route p =>
    rw [hao, (runAlarm_route_queues m.data p).1] at he
    exact hbefore e he howner
  | rreq p =>
    rw [hao] at he
    cases rreqAlarm hok.wf p with
    | absent _ ht => rw [ht] at he; exact hbefore e he howner
    | forgotten x _ _ _ ht => rw [ht] at he; exact hbefore e (List.mem_filter.1 he).1 howner
    | gaveUp x _ _ _ _ ht => rw [ht] at he; exact hbefore e (List.mem_filter.1 he).1 howner
    | retried x hx hself _ hret =>
      obtain ⟨rank, hqueue⟩ := hret.rreq_queue
      rw [hqueue] at he
      obtain ⟨y, hy, rfl⟩ := List.mem_map.1 he
      by_cases hyx : y.self = x.self
      · -- the callback of this entry has just run
        rw [if_pos hyx] at howner
        refine absurd (List.mem_map_of_mem (f := PendingAlarm.owner) hb) ?_
        have hsame : b.owner = a.owner := by
          rw [howner, hao, ← hself]
          rfl
        rw [hsame]
        exact howners.1
      · rw [if_neg hyx] at howner ⊢
        exact hbefore y hy howner

theorem DueRreqs.ticked (hok : MomentOk m) (h : DueRreqs m) (hk : Ticked m k n) : DueRreqs n := by
  cases hk with
  | waiting => exact h
  | begun i =>
    intro a ha e he howner
    obtain ⟨htree, htv⟩ := mem_alarmRunQueue.1 ha
    rw [← tv_of_mem_alarmTree_rreq (hok.wf.arrive i) htree he howner]
    exact htv
  | turned i => exact fun a ha => absurd ha List.not_mem_nil
  | called a rest hbatch => exact h.called hok hbatch

/-- What holds of every moment and its history. -/
structure HistoryOk (c : Moment × List AodvPkt) : Prop where
  moment : MomentOk c.1
  due : DueRreqs c.1
  retries : RetriesOk c

theorem HistoryOk.step (h : HistoryOk (m, hist)) (k : Tick) :
    HistoryOk (tick m k, originated m k ++ hist) where
  moment := (ticked m k).momentOk h.moment
  due := h.due.ticked h.moment (ticked m k)
  retries := h.retries.step h.moment.wf k

theorem historyOk (ip bcast : InAddr) (iface : U32) (ks : List Tick) :
    HistoryOk (run (recording tick originated) (startMoment ip bcast iface, []) ks) := by
  have hstart : HistoryOk (startMoment ip bcast iface, []) :=
    ⟨momentOk ip bcast iface [], fun a ha => absurd ha List.not_mem_nil,
      ⟨fun e he => absurd he List.not_mem_nil, fun e he => absurd he List.not_mem_nil,
        fun e he => absurd he List.not_mem_nil, fun e he => absurd he List.not_mem_nil⟩⟩
  exact Machine.run_invariant_always (I := HistoryOk) (fun c k h => h.step k) hstart ks

/-! ## The course of a discovery -/

section Course

variable (p : Nat) (d : InAddr)

/-- The tick broadcasts the `j`-th RREQ of the discovery at `p`, and sets its timer. -/
def Broadcasts (m : Moment) (k : Tick) (j : Nat) : Prop :=
  ∃ e ∈ (tick m k).data.rreq_queue, e.self = p ∧ e.dst = d ∧ e.prev_tries = j ∧
    e.alarm.tv = backoffEnd (tick m k).data.os.now j ∧
    (originated m k).map (fun pkt => (pkt.asksFor, pkt.rreqId)) = [(d, e.rreq_id)]

/-- The ticks leave the entry at `p` as it is and originate no RREQ for `d`. -/
def Quiet (m : Moment) (mid : List Tick) : Prop :=
  (∀ e ∈ m.data.rreq_queue, e.self = p →
    ∀ later, later <+: mid → e ∈ (run tick m later).data.rreq_queue) ∧
  ∀ later k, later ++ [k] <+: mid →
    ∀ pkt ∈ originated (run tick m later) k, pkt.asksFor ≠ d

/-- The timer of the entry at `p` has run out, and its callback is the next. -/
def Fires (m : Moment) : Prop :=
  m.RingsRreq p ∧ ∀ e ∈ m.data.rreq_queue, e.self = p → e.alarm.tv ≤ m.data.os.now

/-- The next callback removes the entry at `p`; taking its destination as it was before the entry is
    freed, it drops exactly the packets for `d`. -/
def GivesUp (m : Moment) : Prop :=
  (∀ e ∈ (tick m .callback).data.rreq_queue, e.self ≠ p) ∧ originated m .callback = [] ∧
    (m.data.os.freedDst p = d →
      (tick m .callback).data.packets_queue =
        m.data.packets_queue.filter (fun x => x.dest ≠ d) ∧
      (tick m .callback).data.os.verdicts = m.data.os.verdicts ++
        (m.data.packets_queue.filter (fun x => x.dest = d)).map (fun x => (x.id, .NF_DROP)))

/-- **The course of a discovery** after its `j`-th RREQ: the timer runs out and the next RREQ is
    broadcast, or it was the last one. -/
inductive Rounds : Nat → Moment → List Tick → Prop where
  | retried (j : Nat) (m : Moment) (mid rest : List Tick) (hquiet : Quiet p d m mid)
      (hj : j < RREQ_RETRIES.toNat) (hfires : Fires p (run tick m mid))
      (hsent : Broadcasts p d (run tick m mid) .callback (j + 1))
      (hrest : Rounds (j + 1) (tick (run tick m mid) .callback) rest) :
      Rounds j m (mid ++ .callback :: rest)
  | gaveUp (j : Nat) (m : Moment) (mid rest : List Tick) (hquiet : Quiet p d m mid)
      (hj : j = RREQ_RETRIES.toNat) (hfires : Fires p (run tick m mid))
      (hgives : GivesUp p d (run tick m mid)) : Rounds j m (mid ++ .callback :: rest)

/-- The RREQs for `d` that a run originates. -/
def requestsFor : Moment → List Tick → List AodvPkt
  | _, [] => []
  | m, k :: ks =>
    (originated m k).filter (fun pkt => pkt.asksFor = d) ++ requestsFor (tick m k) ks

/-- How often the timer of the entry at `p` fires in a run. -/
def firings : Moment → List Tick → Nat
  | _, [] => 0
  | m, .turn i :: ks => firings (tick m (.turn i)) ks
  | m, .callback :: ks => (if m.RingsRreq p then 1 else 0) + firings (tick m .callback) ks

/-- No RREP removes the entry at `p`. -/
def NotAnswered (m : Moment) (ks : List Tick) : Prop :=
  ∀ mid i, mid ++ [.turn i] <+: ks → (receivedRrep (run tick m mid).data i).isSome = true →
    (∃ e ∈ (run tick m mid).data.rreq_queue, e.self = p) →
    ∃ e ∈ (run tick m (mid ++ [.turn i])).data.rreq_queue, e.self = p

variable {p d} {j : Nat} {ks : List Tick} {e : RreqFifo}

/-- A tick that leaves the entry alone comes before. -/
theorem Quiet.cons {mid : List Tick} (hok : Wf m.data) (he : e ∈ m.data.rreq_queue)
    (hself : e.self = p) (hkept : e ∈ (tick m k).data.rreq_queue)
    (hnone : ∀ pkt ∈ originated m k, pkt.asksFor ≠ d) (h : Quiet p d (tick m k) mid) :
    Quiet p d m (k :: mid) := by
  constructor
  · intro x hx hxself later hpre
    obtain rfl := KeyedList.eq_of_key hok.rreq_nodup hx he (hxself.trans hself.symm)
    cases later with
    | nil => exact hx
    | cons k' later =>
      obtain ⟨rfl, hpre'⟩ := List.cons_prefix_cons.1 hpre
      exact h.1 x hkept hself later hpre'
  · intro later k' hpre
    cases later with
    | nil =>
      obtain ⟨rfl, -⟩ := List.cons_prefix_cons.1 hpre
      exact hnone
    | cons k'' later =>
      obtain ⟨rfl, hpre'⟩ := List.cons_prefix_cons.1 hpre
      exact h.2 later k' hpre'

theorem Rounds.cons (hok : Wf m.data) (he : e ∈ m.data.rreq_queue) (hself : e.self = p)
    (hkept : e ∈ (tick m k).data.rreq_queue) (hnone : ∀ pkt ∈ originated m k, pkt.asksFor ≠ d)
    (h : Rounds p d j (tick m k) ks) : Rounds p d j m (k :: ks) := by
  cases h with
  | retried _ _ mid rest hquiet hj hfires hsent hrest =>
    exact .retried j m (k :: mid) rest (hquiet.cons hok he hself hkept hnone) hj hfires hsent hrest
  | gaveUp _ _ mid rest hquiet hj hfires hgives =>
    exact .gaveUp j m (k :: mid) rest (hquiet.cons hok he hself hkept hnone) hj hfires hgives

theorem Quiet.nil (p : Nat) (d : InAddr) (m : Moment) : Quiet p d m [] := by
  constructor
  · intro e he _ later hpre
    rw [List.prefix_nil.1 hpre]
    exact he
  · intro later k hpre
    simp at hpre

theorem fires_of_rings (h : HistoryOk (m, hist)) (hrings : m.RingsRreq p) : Fires p m := by
  refine ⟨hrings, fun e he hself => ?_⟩
  obtain ⟨a, rest, hbatch, howner⟩ := hrings
  exact h.due a (by rw [hbatch]; exact List.mem_cons_self) e he (by rw [howner, hself])

/-- The last timeout. -/
theorem givesUp_of_gaveUp
    (hdata : (tick m .callback).data = rreqFifoGiveUp m.data e)
    (hnone : originated m .callback = []) : GivesUp e.self e.dst m := by
  rw [GivesUp, hdata]
  refine ⟨fun x hx => by simpa using (List.mem_filter.1 hx).2, hnone, fun hread => ?_⟩
  rw [← hread]
  exact packets_rreqFifoGiveUp m.data e

/-- A retry, and the timer it sets. -/
theorem broadcasts_of_retried {rank : Nat} (he : e ∈ m.data.rreq_queue) (htries : e.prev_tries = j)
    (hnow : (tick m k).data.os.now = m.data.os.now)
    (hqueue : (tick m k).data.rreq_queue = m.data.rreq_queue.map
      (fun x => if x.self = e.self then retriedEntry m.data e rank else x))
    (hsent : originated m k = [ownRequest m.data e.dst (e.prev_tries + 1)])
    (hj : j < RREQ_RETRIES.toNat) : Broadcasts e.self e.dst m k (j + 1) := by
  obtain ⟨hfor, hid⟩ := asksFor_ownRequest m.data e.dst (e.prev_tries + 1)
  refine ⟨retriedEntry m.data e rank, ?_, rfl, rfl, ?_, ?_, ?_⟩
  · rw [hqueue]
    exact List.mem_map.2 ⟨e, he, if_pos rfl⟩
  · change e.prev_tries + 1 = _
    rw [htries]
    rfl
  · have hnext : e.prev_tries + 1 = ((j + 1 : Nat) : Int) := by rw [htries]; rfl
    rw [hnow, ← alarm_backoff hj, ← hnext]
    rfl
  · rw [hsent, List.map_singleton, hfor, hid]
    rfl

/-- The tick fires the timer of the entry. -/
def FiresNow (p : Nat) (m : Moment) (k : Tick) : Prop := k = .callback ∧ m.RingsRreq p

theorem firings_cons (p : Nat) (m : Moment) (k : Tick) (ks : List Tick) :
    FiresNow p m k ∧ firings p m (k :: ks) = 1 + firings p (tick m k) ks ∨
      ¬ FiresNow p m k ∧ firings p m (k :: ks) = firings p (tick m k) ks := by
  cases k with
  | turn i => exact .inr ⟨fun hc => not_callback hc.1, rfl⟩
  | callback =>
    by_cases hrings : m.RingsRreq p
    · exact .inl ⟨⟨rfl, hrings⟩, by rw [firings, if_pos hrings]⟩
    · exact .inr ⟨fun hc => hrings hc.2, by rw [firings, if_neg hrings, Nat.zero_add]⟩

/-- **The timer of a discovery fires**: the next RREQ, or the end. -/
theorem fired (h : HistoryOk (m, hist)) (he : e ∈ m.data.rreq_queue) (htries : e.prev_tries = j)
    (hfires : FiresNow e.self m k) :
    (j < RREQ_RETRIES.toNat ∧ Broadcasts e.self e.dst m k (j + 1)) ∨
      (j = RREQ_RETRIES.toNat ∧ GivesUp e.self e.dst m) := by
  obtain ⟨rfl, hrings⟩ := hfires
  have hown : 0 ≤ e.prev_tries := by rw [htries]; exact Int.natCast_nonneg j
  have hmax : e.prev_tries ≤ RREQ_RETRIES.toNat := h.retries.tries e he
  have hself : ∀ x ∈ m.data.rreq_queue, m.RingsRreq x.self → x = e := by
    rintro x hx ⟨b, rest, hbatch, hb⟩
    obtain ⟨a, rest', hbatch', ha⟩ := hrings
    rw [hbatch] at hbatch'
    obtain ⟨rfl, -⟩ := List.cons.inj hbatch'
    rw [ha] at hb
    exact KeyedList.eq_of_key h.moment.wf.rreq_nodup hx he (AlarmOwner.rreq.inj hb).symm
  cases buffered h.moment.wf .callback with
  | same hquiet => exact absurd hrings (hquiet rfl e he)
  | heard i hk => exact not_callback hk.symm
  | asked i hk => exact not_callback hk.symm
  | answered i hk => exact not_callback hk.symm
  | forgotten x hx _ hxrings hext =>
    rw [hself x hx hxrings] at hext
    omega
  | gaveUp x hx _ hxrings _ hlast hdata hnone =>
    obtain rfl := hself x hx hxrings
    exact .inr ⟨by omega, givesUp_of_gaveUp hdata hnone⟩
  | retried x hx _ hxrings hxtries rank hnow hqueue hsent =>
    obtain rfl := hself x hx hxrings
    have hj : j < RREQ_RETRIES.toNat := by
      have hmore := hxtries.2
      omega
    exact .inl ⟨hj, broadcasts_of_retried hx htries hnow hqueue hsent hj⟩

/-- **Between two firings** nothing but a RREP changes a discovery. -/
theorem unfired (h : HistoryOk (m, hist)) (he : e ∈ m.data.rreq_queue) (hown : 0 ≤ e.prev_tries)
    (hquiet : ¬ FiresNow e.self m k)
    (hnot : ∀ i, k = .turn i → (receivedRrep m.data i).isSome = true →
      ∃ x ∈ (tick m k).data.rreq_queue, x.self = e.self) :
    e ∈ (tick m k).data.rreq_queue ∧ ∀ pkt ∈ originated m k, pkt.asksFor ≠ e.dst := by
  have hnothing : originated m k = [] → ∀ pkt ∈ originated m k, pkt.asksFor ≠ e.dst := by
    intro hnone pkt hpkt
    rw [hnone] at hpkt
    cases hpkt
  have hother : ∀ x, k = .callback → m.RingsRreq x → e.self ≠ x := by
    rintro x hk hrings rfl
    exact hquiet ⟨hk, hrings⟩
  cases buffered h.moment.wf k with
  | same _ hqueue hnone => exact ⟨by rw [hqueue]; exact he, hnothing hnone⟩
  | heard _ _ x _ _ hqueue hnone =>
    exact ⟨by rw [hqueue]; exact List.mem_cons_of_mem _ he, hnothing hnone⟩
  | asked _ _ s d _ hnew hqueue hsent =>
    refine ⟨by rw [hqueue]; exact List.mem_cons_of_mem _ he, fun pkt hpkt => ?_⟩
    rw [hsent] at hpkt
    obtain rfl := List.mem_singleton.1 hpkt
    rw [(asksFor_ownRequest s d 0).1]
    exact Ne.symm (waiting_eq_false.1 hnew e he hown)
  | answered i hk hrrep q hqueue hnone =>
    obtain ⟨x, hx, hself⟩ := hnot i hk hrrep
    have hxm := hx
    rw [hqueue] at hxm
    obtain rfl := KeyedList.eq_of_key h.moment.wf.rreq_nodup (List.mem_filter.1 hxm).1 he hself
    exact ⟨hx, hnothing hnone⟩
  | forgotten x hx hk hrings _ hqueue hnone =>
    refine ⟨?_, hnothing hnone⟩
    rw [hqueue]
    exact List.mem_filter.2 ⟨he, decide_eq_true (hother _ hk hrings)⟩
  | gaveUp x hx hk hrings _ _ hdata hnone =>
    refine ⟨?_, hnothing hnone⟩
    rw [hdata]
    exact List.mem_filter.2 ⟨he, decide_eq_true (hother _ hk hrings)⟩
  | retried x hx hk hrings hxtries rank _ hqueue hsent =>
    have hself := hother _ hk hrings
    refine ⟨?_, fun pkt hpkt => ?_⟩
    · rw [hqueue]
      exact List.mem_map.2 ⟨e, he, if_neg hself⟩
    · rw [hsent] at hpkt
      obtain rfl := List.mem_singleton.1 hpkt
      rw [(asksFor_ownRequest m.data x.dst _).1]
      exact fun hd => hself (by rw [h.retries.one x hx e he hxtries.1 hown hd])

/-- **The course of a discovery** that no RREP ends, from any moment on, if its timers fire. -/
theorem rounds_of_firings (h : HistoryOk (m, hist)) (he : e ∈ m.data.rreq_queue)
    (htries : e.prev_tries = j) (hnot : NotAnswered e.self m ks)
    (hfirings : RREQ_RETRIES.toNat < firings e.self m ks + j) :
    Rounds e.self e.dst j m ks := by
  have hmax : e.prev_tries ≤ RREQ_RETRIES.toNat := h.retries.tries e he
  induction ks generalizing m hist e j with
  | nil =>
    rw [firings] at hfirings
    omega
  | cons k ks ih =>
    have hown : 0 ≤ e.prev_tries := by rw [htries]; exact Int.natCast_nonneg j
    have hnot' : NotAnswered e.self (tick m k) ks := fun mid i hpre hrrep hin =>
      hnot (k :: mid) i (by simpa using hpre) hrrep hin
    rcases firings_cons e.self m k ks with ⟨hnow, hcount⟩ | ⟨hquiet, hcount⟩
    · have hfires := fires_of_rings h hnow.2
      rcases fired h he htries hnow with ⟨hj, hsent⟩ | ⟨hj, hgives⟩
      · obtain ⟨e', he', hself, hdst, htries', -⟩ := id hsent
        obtain rfl := hnow.1
        have hrest := ih (h.step .callback) he' htries' (hself ▸ hnot')
          (by rw [hself]; omega) (by omega)
        rw [hself, hdst] at hrest
        exact .retried j m [] ks (Quiet.nil _ _ m) hj hfires hsent hrest
      · obtain rfl := hnow.1
        exact .gaveUp j m [] ks (Quiet.nil _ _ m) hj hfires hgives
    · obtain ⟨hkept, hnone⟩ := unfired h he hown hquiet fun i hk hrrep => by
        subst hk
        exact hnot [] i (by simp) hrrep ⟨e, he, rfl⟩
      exact (ih (h.step k) hkept htries hnot' (by omega) hmax).cons h.moment.wf he rfl hkept hnone

theorem requestsFor_append (d : InAddr) (m : Moment) (as bs : List Tick) :
    requestsFor d m (as ++ bs) = requestsFor d m as ++ requestsFor d (run tick m as) bs := by
  induction as generalizing m with
  | nil => rfl
  | cons k as ih => rw [List.cons_append, requestsFor, requestsFor, ih, List.append_assoc]; rfl

theorem requestsFor_quiet {mid : List Tick} (h : Quiet p d m mid) : requestsFor d m mid = [] := by
  have hnone := h.2
  clear h
  induction mid generalizing m with
  | nil => rfl
  | cons k mid ih =>
    rw [requestsFor, ih fun later k' hpre => hnone (k :: later) k' (by simpa using hpre),
      List.append_nil, List.filter_eq_nil_iff]
    intro pkt hpkt
    simpa using hnone [] k (by simp) pkt hpkt

/-- The RREQ of a broadcast. -/
theorem requestsFor_broadcasts (h : Broadcasts p d m k j) (ks : List Tick) :
    (requestsFor d m (k :: ks)).length = 1 + (requestsFor d (tick m k) ks).length := by
  obtain ⟨e, -, -, -, -, -, hsent⟩ := h
  obtain ⟨pkt, hpkt, hpair⟩ := List.map_eq_singleton_iff.1 hsent
  have hfor : pkt.asksFor = d := congrArg Prod.fst hpair
  rw [requestsFor, hpkt, List.length_append]
  simp [hfor]

/-- A discovery has as many RREQs left as it has retries. -/
theorem Rounds.requests (h : Rounds p d j m ks) :
    ∃ upto rest, ks = upto ++ rest ∧ (∀ x ∈ (run tick m upto).data.rreq_queue, x.self ≠ p) ∧
      (requestsFor d m upto).length + j = RREQ_RETRIES.toNat := by
  induction h with
  | retried j m mid rest hquiet hj hfires hsent hrest ih =>
    obtain ⟨upto, rest', rfl, hgone, hcount⟩ := ih
    refine ⟨mid ++ .callback :: upto, rest', by simp, ?_, ?_⟩
    · rw [Machine.run_append]
      exact hgone
    · rw [requestsFor_append, requestsFor_quiet hquiet, List.nil_append,
        requestsFor_broadcasts hsent]
      omega
  | gaveUp j m mid rest hquiet hj hfires hgives =>
    obtain ⟨hgone, hnone, -⟩ := hgives
    refine ⟨mid ++ [.callback], rest, by simp, ?_, ?_⟩
    · rw [run_snoc]
      exact hgone
    · rw [requestsFor_append, requestsFor_quiet hquiet, List.nil_append, requestsFor, hnone]
      simpa [requestsFor] using hj

end Course

/-! ## The protocol -/

/-- A discovery of the node itself for `d` begins: the entry at `p` is new. -/
def Begins (m : Moment) (k : Tick) (p : Nat) (d : InAddr) : Prop :=
  (∀ e ∈ m.data.rreq_queue, e.self ≠ p) ∧
    ∃ e ∈ (tick m k).data.rreq_queue, e.self = p ∧ 0 ≤ e.prev_tries ∧ e.dst = d

theorem broadcasts_of_begins {p : Nat} {d : InAddr} (h : Wf m.data) (hbegin : Begins m k p d) :
    Broadcasts p d m k 0 := by
  obtain ⟨habsent, e, he, hself, hown, rfl⟩ := hbegin
  cases buffered h k with
  | same _ hqueue => rw [hqueue] at he; exact absurd hself (habsent e he)
  | heard _ _ x hext _ hqueue =>
    rw [hqueue] at he
    rcases List.mem_cons.1 he with rfl | he
    · omega
    · exact absurd hself (habsent e he)
  | asked _ _ s d hnow _ hqueue hsent =>
    have hmem := he
    rw [hqueue] at he
    rcases List.mem_cons.1 he with rfl | he
    · obtain ⟨hfor, hid⟩ := asksFor_ownRequest s d 0
      refine ⟨_, hmem, hself, rfl, rfl, ?_, ?_⟩
      · rw [← alarm_backoff (Nat.zero_le _), ← hnow, ownEntry, addAlarm_setAlarmTime]
        rfl
      · rw [hsent, List.map_singleton, hfor, hid]
        rfl
    · exact absurd hself (habsent e he)
  | answered i _ _ q hqueue =>
    rw [hqueue] at he
    exact absurd hself (habsent e (List.mem_filter.1 he).1)
  | forgotten x _ _ _ _ hqueue =>
    rw [hqueue] at he
    exact absurd hself (habsent e (List.mem_filter.1 he).1)
  | gaveUp x _ _ _ _ _ hdata =>
    rw [hdata] at he
    exact absurd hself (habsent e (List.mem_filter.1 he).1)
  | retried x hx _ _ _ rank _ hqueue =>
    rw [hqueue] at he
    obtain ⟨y, hy, rfl⟩ := List.mem_map.1 he
    refine absurd hself ?_
    split
    · exact habsent x hx
    · exact habsent y hy

/-- A packet for 10.0.0.9, and three alarm runs when the timers of 2.8, 5.6 and 11.2 s end; the freed
    entry keeps the destination. -/
def unansweredPacket : Tick := .turn ⟨0, [], [], .packet (capturedPacket 1 3 1 0x0A000001 0x0A000009)⟩

def unansweredTimers : List Tick :=
  [.turn ⟨2800000, [], [], .alarms⟩, .callback, .turn ⟨8400000, [], [], .alarms⟩, .callback,
    .turn ⟨19600000, [], [(0, 0x0A000009)], .alarms⟩, .callback]

end Meshias
