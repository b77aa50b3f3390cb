import Meshias.AlarmRefinement

/-!
# Turns without a message

In a turn of the main loop in which no datagram is received, a captured packet may make the node ask
for a route, and alarms may run: the alarm tree and the buffer of requests in memory.

* `Layout.push` — a new entry of the buffer gets an address.
* `Layout.managePacket` — `manage_packet`, with its writes to alarm blocks and to the buffer.
* `LocalTurn`, `Layout.localTurn`, `localRun` — such turns, and runs of them.

Principal results: `localRun_refines` — a run of such turns does in memory what it does to the state,
exactly as long as no request is given up — and `unanswered_reads_freed`, for the requests of the node
that are not answered.
-/

set_option autoImplicit false

namespace Meshias

open Machine (run StepsMeet)
open RedBlack
open RedBlack.RBTree

/-! ## The code -/

namespace Layout

variable (fuel rounds : Nat) (L : Layout)

/-- The entry with the name `p` is at `entry`. -/
def push (p : Nat) (entry : Ptr) : Layout :=
  { L with entryAt := Function.update L.entryAt p entry }

/-- `entry` is what `calloc` returns if a request is buffered. -/
def manageOutputPacket (entry : Ptr) (s : MshData) (nfa : NfqData) (m : RreqMem) :
    Option (Layout × RreqMem) :=
  let dest := nfqueuePacketGetDest nfa
  if dest = s.broadcast_addr then some (L, m) else do
  let alarms ← m.alarms.routingTableUpdateRoute fuel L s dest 0
  let m : RreqMem := ⟨alarms, m.entries⟩
  let (s, found) := routingTableUpdateRoute s dest 0
  if found then return (L, m) else
  let waiting ← m.rreqFifoWaitingResponseFor fuel L.queue dest
  if waiting then return (L, m) else
  -- `aodv_find_route` has counted `data.rreq_id` up
  let m ← m.rreqFifoPushOwned fuel L.alarmOf L.queue L.rreq_fifo_alarm_cb (timevalOf s.os.now) entry
    (s.rreq_id + 1) dest 0
  return (L.push s.objects entry, m)

/-- What `manage_input_packet` and `manage_forward_packet` do to memory. -/
def refreshRoutes (s : MshData) (nfa : NfqData) (m : RreqMem) : Option (Layout × RreqMem) :=
  let dest := nfqueuePacketGetDest nfa
  if dest = s.broadcast_addr then some (L, m) else do
  let alarms ← m.alarms.routingTableUpdateRoute fuel L s dest (nfqueuePacketGetOrig nfa)
  return (L, ⟨alarms, m.entries⟩)

def manageInputPacket (s : MshData) (nfa : NfqData) (m : RreqMem) : Option (Layout × RreqMem) :=
  L.refreshRoutes fuel s nfa m

def manageForwardPacket (s : MshData) (nfa : NfqData) (m : RreqMem) : Option (Layout × RreqMem) :=
  L.refreshRoutes fuel s nfa m

def managePacket (entry : Ptr) (s : MshData) (nfa : NfqData) (m : RreqMem) :
    Option (Layout × RreqMem) :=
  let hook := nfqueuePacketGetHook nfa
  if nfqueuePacketIsAodv nfa then some (L, m)
  else if hook = NF_IP_LOCAL_IN then L.manageInputPacket fuel s nfa m
  else if hook = NF_IP_FORWARD then L.manageForwardPacket fuel s nfa m
  else if hook = NF_IP_LOCAL_OUT then L.manageOutputPacket fuel entry s nfa m
  else some (L, m)

end Layout

inductive LocalEvent where
  | packet (nfa : NfqData) (entry : Ptr)
  | alarms

/-- A turn without a datagram: nothing is inserted into the kernel's table, and a read of memory that
    has been freed ends it. -/
structure LocalTurn where
  now : Nat
  event : LocalEvent

def LocalTurn.input (i : LocalTurn) : Input where
  now := i.now
  refusals := []
  freed := []
  event := match i.event with
    | .packet nfa _ => .packet nfa
    | .alarms => .alarms

/-- How many objects a turn makes at most. -/
def LocalTurn.objects (i : LocalTurn) : Nat :=
  match i.event with
  | .packet _ _ => 1
  | .alarms => 0

/-- One turn of the main loop. -/
def Layout.localTurn (fuel rounds : Nat) (L : Layout) (i : LocalTurn) (s : MshData) (m : RreqMem) :
    Option (Layout × RreqMem) :=
  match i.event with
  | .packet nfa entry => L.managePacket fuel entry (s.arrive i.input) nfa m
  | .alarms => (L.doAlarmRun fuel rounds (s.arrive i.input) m).map (fun x => (L, x.2))

def localRun (fuel rounds : Nat) : List LocalTurn → Layout → MshData → RreqMem →
    Option (Layout × RreqMem)
  | [], L, _, m => some (L, m)
  | i :: is, L, s, m => do
    let (L, m) ← L.localTurn fuel rounds i s m
    localRun fuel rounds is L (step s i.input) m

/-- `calloc` returns the address of no object that exists: nor does one come into being while the
    lifetimes are set. -/
def Layout.FreshTurn (fuel : Nat) (L : Layout) (i : LocalTurn) (s : MshData) (m : RreqMem) : Prop :=
  match i.event with
  | .packet nfa entry => ∀ alarms,
    m.alarms.routingTableUpdateRoute fuel L (s.arrive i.input) (nfqueuePacketGetDest nfa) 0 =
        some alarms →
      RreqMem.FreshAt L.alarmOf ⟨alarms, m.entries⟩ entry
  | .alarms => True

def FreshRun (fuel rounds : Nat) : List LocalTurn → Layout → MshData → RreqMem → Prop
  | [], _, _, _ => True
  | i :: is, L, s, m => L.FreshTurn fuel i s m ∧
    ∀ x, L.localTurn fuel rounds i s m = some x →
      FreshRun fuel rounds is x.1 (step s i.input) x.2

/-! ## A new entry -/

section Turns

variable {L : Layout} {m m' : RreqMem} {s t : MshData} {o : AlarmOwner} {entry : Ptr}
variable {nfa : NfqData} {i : LocalTurn} {is : List LocalTurn} {fuel rounds : Nat}

theorem Layout.Shows.at_places (h : L.Shows m s) :
    ∃ T, m.ShowsAt L.alarmOf L.queue s T L.place L.entryAt := by
  obtain ⟨T, htable, hlink⟩ := h.alarms.table
  exact ⟨T, htable, hlink, h.list, fun _ _ => rfl⟩

/-- The entries and the alarms show what the rest of a state does not change. -/
theorem Layout.Shows.congr (h : L.Shows m s) (howners : alarmOwners t = alarmOwners s)
    (htree : alarmTree t = alarmTree s) (hrank : t.alarms = s.alarms)
    (hqueue : t.rreq_queue = s.rreq_queue) : L.Shows m t :=
  ⟨h.alarms.congr howners htree hrank, hqueue ▸ h.list⟩

theorem calls_rreqFifoInsert {alarmOf : Ptr → Ptr} {queue function : Ptr} {now : Timeval}
    {data : RreqData} {ms : U32}
    (h : m.rreqFifoInsert fuel alarmOf queue function now entry data ms = some m') :
    m'.alarms.data = Function.update m.alarms.data (alarmOf entry) entry ∧
      m'.alarms.function = Function.update m.alarms.function (alarmOf entry) function := by
  unfold RreqMem.rreqFifoInsert at h
  split at h
  · obtain ⟨alarms, hcreate, h⟩ := Option.bind_eq_some_iff.1 h
    obtain ⟨alarms', hadd, h⟩ := Option.bind_eq_some_iff.1 h
    obtain ⟨entries, -, h⟩ := Option.bind_eq_some_iff.1 h
    cases h
    have hsame := sameCalls_addAlarm hadd
    rw [hsame.data, hsame.function]
    unfold AlarmMem.exec at hcreate
    dsimp only at hcreate
    split at hcreate
    · obtain ⟨rb, -, hinit⟩ := Option.bind_eq_some_iff.1 hcreate
      cases hinit
      exact ⟨rfl, rfl⟩
    · cases hcreate
  · cases h

theorem place_push (L : Layout) (p : Nat) (entry : Ptr) :
    (L.push p entry).place = Function.update L.place (.rreq p) (L.alarmOf entry) := by
  funext o
  cases o with
  | route q => rfl
  | rreq q =>
    by_cases hq : q = p
    · subst hq
      rw [Function.update_self]
      exact congrArg L.alarmOf (Function.update_self _ _ _)
    · have hne : AlarmOwner.rreq q ≠ .rreq p := fun heq => hq (AlarmOwner.rreq.inj heq)
      rw [Function.update_of_ne hne]
      exact congrArg L.alarmOf (Function.update_of_ne hq _ _)

theorem data_push (L : Layout) {p : Nat} (entry : Ptr) (ho : o ≠ .rreq p) :
    (L.push p entry).data o = L.data o := by
  cases o with
  | route q => rfl
  | rreq q => exact Function.update_of_ne (fun heq => ho (congrArg _ heq)) _ _

theorem function_push (L : Layout) (p : Nat) (entry : Ptr) :
    (L.push p entry).function o = L.function o := by
  cases o <;> rfl

theorem alarmOwners_rreqFifoInsert (s : MshData) (rreq_id : U32) (dst : InAddr) (prev_tries : Int)
    (ms : U32) :
    (alarmOwners (rreqFifoInsert s rreq_id dst prev_tries ms)).Perm
      (.rreq s.objects :: alarmOwners s) := by
  simp only [alarmOwners, rreqFifoInsert_routing_table, rreqFifoInsert_lost_routes,
    rreqFifoInsert_rreq_queue, List.map_cons]
  exact List.perm_middle

/-- **A request is buffered.** -/
theorem Layout.Shows.insert (hwf : Wf s) (h : L.Shows m s)
    (hfresh : RreqMem.FreshAt L.alarmOf m entry)
    (hfuel : depthBound (alarmOwners s).length + 1 < fuel) (data : RreqData) (ms : U32) :
    ∃ m', m.rreqFifoInsert fuel L.alarmOf L.queue L.rreq_fifo_alarm_cb (timevalOf s.os.now) entry
        data ms = some m' ∧
      (L.push s.objects entry).Shows m'
        (rreqFifoInsert s data.rreq_id data.dst data.prev_tries ms) := by
  obtain ⟨T, hat⟩ := h.at_places
  obtain ⟨m', T', hm', h'⟩ := rreqFifoInsert_refinesAt L.rreq_fifo_alarm_cb hwf hat hfresh
    (normal_timevalOf s.os.now) (micros_timevalOf s.os.now) (enough_rounds hfuel) data ms
  obtain ⟨hdata, hfunction⟩ := calls_rreqFifoInsert hm'
  have hplace := place_push L s.objects entry
  have howner : ∀ o ∈ alarmOwners (rreqFifoInsert s data.rreq_id data.dst data.prev_tries ms),
      o = .rreq s.objects ∨ o ≠ .rreq s.objects ∧ o ∈ alarmOwners s := by
    intro o ho
    rcases List.mem_cons.1 ((alarmOwners_rreqFifoInsert s _ _ _ _).mem_iff.1 ho) with rfl | ho
    · exact .inl rfl
    · by_cases hnew : o = .rreq s.objects
      · exact .inl hnew
      · exact .inr ⟨hnew, ho⟩
  have hother : ∀ o ∈ alarmOwners s, L.place o ≠ L.alarmOf entry := by
    intro o ho heq
    exact hfresh.notMem hat.alarms (heq ▸ hat.linked.blocks o ho)
  refine ⟨m', hm', ⟨⟨T', h'.alarms, hplace ▸ h'.linked⟩, fun o ho => ?_, fun o ho => ?_⟩, h'.list⟩
  · rw [hplace, hdata]
    rcases howner o ho with rfl | ⟨hne, ho⟩
    · rw [Function.update_self, Function.update_self]
      exact (Function.update_self s.objects entry L.entryAt).symm
    · rw [Function.update_of_ne hne, Function.update_of_ne (hother o ho), data_push L entry hne,
        h.alarms.data o ho]
  · rw [hplace, hfunction, function_push]
    rcases howner o ho with rfl | ⟨hne, ho⟩
    · rw [Function.update_self, Function.update_self]
      rfl
    · rw [Function.update_of_ne hne, Function.update_of_ne (hother o ho), h.alarms.function o ho]

/-! ## A captured packet -/

theorem Layout.Shows.verdict (h : L.Shows m s) (id : U32) (verdict : Verdict) :
    L.Shows m (nfqSetVerdict s id verdict) := h.congr rfl rfl rfl rfl

theorem Layout.Shows.updateRoute (hwf : Wf s) (h : L.Shows m s) (dst_ip orig_ip : InAddr)
    (hfuel : depthBound (alarmOwners s).length + 1 < fuel) :
    ∃ alarms, m.alarms.routingTableUpdateRoute fuel L s dst_ip orig_ip = some alarms ∧
      L.Shows ⟨alarms, m.entries⟩ (routingTableUpdateRoute s dst_ip orig_ip).1 ∧
      SameObjects s (routingTableUpdateRoute s dst_ip orig_ip).1 := by
  obtain ⟨alarms, halarms, hshows, hobjs⟩ :=
    routingTableUpdateRoute_refines hwf h.alarms dst_ip orig_ip hfuel
  exact ⟨alarms, halarms, ⟨hshows, hobjs.rreq_queue ▸ h.list⟩, hobjs⟩

/-- A turn keeps what the memory shows, and makes at most `k` objects. -/
structure Kept (k : Nat) (s t : MshData) (x : Option (Layout × RreqMem)) : Prop where
  shows : ∃ L m, x = some (L, m) ∧ L.Shows m t
  length : (alarmOwners t).length ≤ (alarmOwners s).length + k

theorem refreshRoutes_refines (nfa : NfqData) (hwf : Wf s) (h : L.Shows m s)
    (hfuel : depthBound (alarmOwners s).length + 1 < fuel) :
    Kept 1 s (manageInputPacket s nfa) (L.refreshRoutes fuel s nfa m) ∧
      Kept 1 s (manageForwardPacket s nfa) (L.refreshRoutes fuel s nfa m) := by
  unfold Layout.refreshRoutes manageInputPacket manageForwardPacket
  dsimp only
  by_cases hb : nfqueuePacketGetDest nfa = s.broadcast_addr
  · rw [if_pos hb, if_pos hb, if_pos hb]
    exact ⟨⟨⟨L, m, rfl, h.verdict _ _⟩, Nat.le_succ _⟩, ⟨⟨L, m, rfl, h.verdict _ _⟩, Nat.le_succ _⟩⟩
  · obtain ⟨alarms, halarms, h', hobjs⟩ :=
      h.updateRoute hwf (nfqueuePacketGetDest nfa) (nfqueuePacketGetOrig nfa) hfuel
    have hlen : ∀ t : MshData, alarmOwners t = alarmOwners s →
        (alarmOwners t).length ≤ (alarmOwners s).length + 1 := by
      intro t ht
      rw [ht]
      exact Nat.le_succ _
    rw [if_neg hb, if_neg hb, if_neg hb, halarms]
    refine ⟨⟨⟨L, ⟨alarms, m.entries⟩, rfl, ?_⟩, hlen _ ?_⟩,
      ⟨L, ⟨alarms, m.entries⟩, rfl, h'.verdict _ _⟩, hlen _ hobjs.owners⟩
    · split
      · exact h'.verdict _ _
      · exact h'
    · split
      · exact hobjs.owners
      · exact hobjs.owners

/-- The first request for a destination is buffered. -/
theorem aodvFindRoute_first (s : MshData) (dest : InAddr) :
    alarmOwners (aodvFindRoute s dest none 0) =
        alarmOwners (rreqFifoPushOwned s (s.rreq_id + 1) dest 0) ∧
      alarmTree (aodvFindRoute s dest none 0) =
        alarmTree (rreqFifoPushOwned s (s.rreq_id + 1) dest 0) ∧
      (aodvFindRoute s dest none 0).alarms = s.alarms + 1 ∧
      (aodvFindRoute s dest none 0).rreq_queue =
        (rreqFifoPushOwned s (s.rreq_id + 1) dest 0).rreq_queue := by
  unfold aodvFindRoute rreqFifoPushOwned
  simp only [if_pos, alarmOwners, alarmTree, aodvPktSend_routing_table, aodvPktSend_lost_routes,
    aodvPktSend_rreq_queue, aodvPktSend_alarms, rreqFifoInsert_routing_table,
    rreqFifoInsert_lost_routes, rreqFifoInsert_rreq_queue, rreqFifoInsert_alarms,
    MshData.incSeqNum_routing_table, MshData.incSeqNum_lost_routes, MshData.incSeqNum_rreq_queue,
    MshData.incSeqNum_alarms, MshData.incSeqNum_rreq_id, MshData.incSeqNum_objects,
    MshData.incSeqNum_os, and_self]

theorem manageOutputPacket_refines (hwf : Wf s) (h : L.Shows m s)
    (hfresh : ∀ alarms,
      m.alarms.routingTableUpdateRoute fuel L s (nfqueuePacketGetDest nfa) 0 = some alarms →
        RreqMem.FreshAt L.alarmOf ⟨alarms, m.entries⟩ entry)
    (hfuel : depthBound (alarmOwners s).length + 1 < fuel)
    (hlen : s.rreq_queue.length < fuel) :
    Kept 1 s (manageOutputPacket s nfa) (L.manageOutputPacket fuel entry s nfa m) := by
  unfold Layout.manageOutputPacket manageOutputPacket
  dsimp only
  by_cases hb : nfqueuePacketGetDest nfa = s.broadcast_addr
  · rw [if_pos hb, if_pos hb]
    exact ⟨⟨L, m, rfl, h.verdict _ _⟩, Nat.le_succ _⟩
  obtain ⟨alarms, halarms, h', hobjs⟩ := h.updateRoute hwf (nfqueuePacketGetDest nfa) 0 hfuel
  have hfresh := hfresh alarms halarms
  have hwf' := hobjs.wf hwf
  rw [if_neg hb, if_neg hb, halarms]
  revert h' hobjs hwf'
  obtain ⟨t, found⟩ := routingTableUpdateRoute s (nfqueuePacketGetDest nfa) 0
  intro h' hobjs hwf'
  have howners : alarmOwners t = alarmOwners s := hobjs.owners
  cases found with
  | true =>
    refine ⟨⟨L, ⟨alarms, m.entries⟩, rfl, h'.verdict _ _⟩, ?_⟩
    exact (congrArg List.length howners).trans_le (Nat.le_succ _)
  | false =>
    obtain ⟨T, hat⟩ := h'.at_places
    have hqueue : t.rreq_queue.length < fuel := by
      rw [show t.rreq_queue = s.rreq_queue from hobjs.rreq_queue]
      exact hlen
    have hwait := rreqFifoWaitingResponseFor_spec ⟨T, _, _, hat⟩ hqueue (nfqueuePacketGetDest nfa)
    have hpushed : L.Shows ⟨alarms, m.entries⟩
        (packetsFifoPush t (nfqueuePacketGetId nfa) (nfqueuePacketGetDest nfa)) :=
      h'.congr rfl rfl rfl rfl
    simp only [Option.bind_eq_bind, Option.bind_some, hwait, Bool.false_eq_true, if_false,
      packetsFifoPush_rreq_queue]
    cases hw : rreqFifoWaitingResponseFor t.rreq_queue (nfqueuePacketGetDest nfa) with
    | true =>
      refine ⟨⟨L, ⟨alarms, m.entries⟩, rfl, ?_⟩, ?_⟩
      · exact hpushed
      · exact (congrArg List.length howners).trans_le (Nat.le_succ _)
    | false =>
      have hwf₁ : Wf (packetsFifoPush t (nfqueuePacketGetId nfa) (nfqueuePacketGetDest nfa)) :=
        hwf'.congr rfl rfl rfl rfl
      obtain ⟨m', hm', hinsert⟩ := hpushed.insert hwf₁ hfresh (howners.symm ▸ hfuel)
        ⟨t.rreq_id + 1, nfqueuePacketGetDest nfa, 0⟩ (binaryExponentialBackoffTime 0)
      obtain ⟨howners', htree', hrank', hqueue'⟩ := aodvFindRoute_first
        (packetsFifoPush t (nfqueuePacketGetId nfa) (nfqueuePacketGetDest nfa))
        (nfqueuePacketGetDest nfa)
      have hcall : RreqMem.rreqFifoPushOwned fuel L.alarmOf L.queue L.rreq_fifo_alarm_cb
          (timevalOf t.os.now) entry (t.rreq_id + 1) (nfqueuePacketGetDest nfa) 0
          ⟨alarms, m.entries⟩ = some m' := hm'
      rw [if_pos Bool.false_ne_true]
      simp only [hcall, Option.bind_some]
      refine ⟨⟨L.push t.objects entry, m', rfl, hinsert.congr howners' htree' hrank' hqueue'⟩, ?_⟩
      rw [howners', rreqFifoPushOwned, (alarmOwners_rreqFifoInsert _ _ _ _ _).length_eq,
        List.length_cons]
      exact Nat.succ_le_succ (congrArg List.length howners).le

/-- **`manage_packet`.** -/
theorem managePacket_refines (hwf : Wf s) (h : L.Shows m s)
    (hfresh : ∀ alarms,
      m.alarms.routingTableUpdateRoute fuel L s (nfqueuePacketGetDest nfa) 0 = some alarms →
        RreqMem.FreshAt L.alarmOf ⟨alarms, m.entries⟩ entry)
    (hfuel : depthBound (alarmOwners s).length + 1 < fuel)
    (hlen : s.rreq_queue.length < fuel) :
    Kept 1 s (managePacket s nfa) (L.managePacket fuel entry s nfa m) := by
  unfold Layout.managePacket managePacket
  dsimp only
  have haccept : Kept 1 s (nfqSetVerdict s (nfqueuePacketGetId nfa) .NF_ACCEPT) (some (L, m)) :=
    ⟨⟨L, m, rfl, h.verdict _ _⟩, Nat.le_succ _⟩
  obtain ⟨hinput, hforward⟩ := refreshRoutes_refines nfa hwf h hfuel
  split
  · exact haccept
  · split
    · exact hinput
    · split
      · exact hforward
      · split
        · exact manageOutputPacket_refines hwf h hfresh hfuel hlen
        · exact haccept

/-! ## Turns and runs -/

theorem length_rreq_queue_le (s : MshData) : s.rreq_queue.length ≤ (alarmOwners s).length := by
  rw [alarmOwners, List.length_append, List.length_map, List.length_map]
  exact Nat.le_add_left _ _

/-- **One turn.** -/
theorem localTurn_refines (hwf : Wf s) (h : L.Shows m s) (hfresh : L.FreshTurn fuel i s m)
    (hfuel : depthBound (alarmOwners s).length + 1 < fuel) (hlen : (alarmOwners s).length < fuel)
    (hrounds : (alarmOwners s).length < rounds) :
    (givenUp s i.input = [] → Kept i.objects s (step s i.input) (L.localTurn fuel rounds i s m)) ∧
      (givenUp s i.input ≠ [] → L.localTurn fuel rounds i s m = none) := by
  obtain ⟨now, event⟩ := i
  cases event with
  | packet nfa entry =>
    have hshort := (length_rreq_queue_le s).trans_lt hlen
    obtain ⟨hshows, hgrow⟩ := managePacket_refines (hwf.arrive _) (h.arrive _) hfresh hfuel hshort
    exact ⟨fun _ => ⟨hshows, hgrow⟩, fun hsome => absurd rfl hsome⟩
  | alarms =>
    have hgiven : givenUp s (LocalTurn.input ⟨now, .alarms⟩) =
        (s.arrive (LocalTurn.input ⟨now, .alarms⟩)).lastTimeouts
          (s.arrive (LocalTurn.input ⟨now, .alarms⟩)).os.now := givenUp_alarms rfl
    obtain ⟨hok, hnone⟩ := doAlarmRun_meets_memory (hwf.arrive (LocalTurn.input ⟨now, .alarms⟩))
      (h.arrive (LocalTurn.input ⟨now, .alarms⟩)) hfuel hrounds
    rw [← hgiven] at hok hnone
    refine ⟨fun hgive => ?_, fun hgive => ?_⟩
    · obtain ⟨m', hrun, h'⟩ := hok hgive
      refine ⟨⟨L, m', ?_, h'⟩, ?_⟩
      · unfold Layout.localTurn
        dsimp only
        rw [hrun]
        rfl
      · exact length_alarmOwners_doAlarmRun (hwf.arrive _)
    · unfold Layout.localTurn
      dsimp only
      rw [hnone hgive]
      rfl

/-- A run of such turns. -/
theorem localRun_meets_memory (hwf : Wf s) (h : L.Shows m s) (hfresh : FreshRun fuel rounds is L s m)
    (hfuel : depthBound ((alarmOwners s).length + (is.map LocalTurn.objects).sum) + 1 < fuel)
    (hlen : (alarmOwners s).length + (is.map LocalTurn.objects).sum < fuel)
    (hrounds : (alarmOwners s).length + (is.map LocalTurn.objects).sum < rounds) :
    (StepsMeet step (fun s i => givenUp s i = []) s (is.map LocalTurn.input) →
      ∃ L' m', localRun fuel rounds is L s m = some (L', m') ∧
        L'.Shows m' (run step s (is.map LocalTurn.input))) ∧
    (¬ StepsMeet step (fun s i => givenUp s i = []) s (is.map LocalTurn.input) →
      localRun fuel rounds is L s m = none) := by
  induction is generalizing L s m with
  | nil => exact ⟨fun _ => ⟨L, m, rfl, h⟩, fun hno => absurd trivial hno⟩
  | cons i is ih =>
    rw [List.map_cons, List.sum_cons] at hfuel hlen hrounds
    have hdepth := depthBound_mono
      (Nat.le_add_right (alarmOwners s).length (i.objects + (is.map LocalTurn.objects).sum))
    obtain ⟨hok, hnone⟩ := localTurn_refines hwf h hfresh.1 (show _ < fuel by omega)
      (show _ < fuel by omega) (show _ < rounds by omega)
    by_cases hfirst : givenUp s i.input = []
    · obtain ⟨⟨L₁, m₁, hturn, h₁⟩, hgrow⟩ := hok hfirst
      have hdepth' : depthBound
            ((alarmOwners (step s i.input)).length + (is.map LocalTurn.objects).sum) ≤
          depthBound ((alarmOwners s).length + (i.objects + (is.map LocalTurn.objects).sum)) :=
        depthBound_mono (by omega)
      obtain ⟨hall, hany⟩ := ih (hwf.step i.input) h₁ (hfresh.2 _ hturn) (by omega) (by omega)
        (by omega)
      have hrest : localRun fuel rounds (i :: is) L s m =
          localRun fuel rounds is L₁ (step s i.input) m₁ := by
        rw [localRun, hturn]
        rfl
      rw [hrest]
      exact ⟨fun hmeets => hall hmeets.2, fun hno => hany fun hmeets => hno ⟨hfirst, hmeets⟩⟩
    · refine ⟨fun hmeets => absurd hmeets.1 hfirst, fun _ => ?_⟩
      rw [localRun, hnone hfirst]
      rfl

end Turns

/-- **Any turns in which no datagram is received**, after any history: packets are captured, routes are
    refreshed, requests are buffered, tried again and forgotten, and in memory all this does what it
    does to the state of the daemon, as long as no request is given up.  When one is, memory is read
    that has been freed. -/
theorem localRun_refines (ip bcast : InAddr) (iface : U32) (is : List Input) (js : List LocalTurn)
    (L : Layout) (m : RreqMem) (fuel rounds : Nat) :
    let s := run step (mshDataInit ip bcast iface) is
    L.Shows m s → FreshRun fuel rounds js L s m →
      depthBound ((alarmOwners s).length + (js.map LocalTurn.objects).sum) + 1 < fuel →
      (alarmOwners s).length + (js.map LocalTurn.objects).sum < fuel →
      (alarmOwners s).length + (js.map LocalTurn.objects).sum < rounds →
        (StepsMeet step (fun s i => givenUp s i = []) s (js.map LocalTurn.input) →
          ∃ L' m', localRun fuel rounds js L s m = some (L', m') ∧
            L'.Shows m' (run step s (js.map LocalTurn.input))) ∧
        (¬ StepsMeet step (fun s i => givenUp s i = []) s (js.map LocalTurn.input) →
          localRun fuel rounds js L s m = none) := by
  intro s h hfresh hfuel hlen hrounds
  exact localRun_meets_memory (wf_run ip bcast iface is) h hfresh hfuel hlen hrounds

/-! ## From the empty memory -/

/-- The head of the buffer is at 24; an entry at 8 has its alarm at 16. -/
def askedLayout : Layout where
  routeAt _ := NULL
  entryAt _ := node8
  alarmOf := smallAlarmOf
  queue := node24
  route_alarm_cb := node8
  rreq_fifo_alarm_cb := node16
  cb_ne := by decide

def emptyMem : RreqMem where
  alarms := ⟨⟨⟨fun _ => none, rfl⟩, NULL⟩, fun _ => ⟨0, 0⟩, fun _ => NULL, fun _ => NULL⟩
  entries := {
    cell := fun q => if q = node24 then some ⟨⟨0, 0, 0⟩, ⟨node24, node24⟩⟩ else none
    null_free := by decide }

theorem shows_emptyMem : askedLayout.Shows emptyMem (mshDataInit 0x0A000001 0x0A0000FF 0) := by
  refine ⟨⟨⟨_, showsTable_empty _ _ _ _, ?_⟩, fun o ho => ?_, fun o ho => ?_⟩, ?_⟩
  · exact ⟨fun o ho => absurd ho List.not_mem_nil, fun o ho => absurd ho List.not_mem_nil,
      ⟨[], .refl _, .nil, rfl⟩, fun a ha => absurd ha List.not_mem_nil⟩
  · exact absurd ho List.not_mem_nil
  · exact absurd ho List.not_mem_nil
  · refine ⟨⟨by decide, by decide, by decide⟩, by decide, fun q hq => ?_⟩
    have hnot : q ∉ [node24] := hq
    exact if_neg (by simpa using hnot)

theorem freshRun_alarms (times : Nat → Nat) (l : List Nat) (L : Layout) (s : MshData) (m : RreqMem)
    {fuel rounds : Nat} : FreshRun fuel rounds (l.map (fun k => ⟨times k, .alarms⟩)) L s m := by
  induction l generalizing L s m with
  | nil => trivial
  | cons k l ih => exact ⟨trivial, fun x _ => ih x.1 _ x.2⟩

/-- A packet for nobody, and then the alarms once an hour. -/
def localTurns (n : Nat) : List LocalTurn :=
  ⟨0, .packet (capturedPacket 1 3 1 0x0A000001 0x0A000009) node8⟩ ::
    (List.range n).map (fun k => ⟨3600000000 * (k + 1), .alarms⟩)

theorem freshRun_localTurns (n : Nat) : FreshRun 20 10 (localTurns n) askedLayout
    (mshDataInit 0x0A000001 0x0A0000FF 0) emptyMem := by
  refine ⟨fun alarms halarms => ?_, fun x _ => freshRun_alarms _ _ x.1 _ x.2⟩
  cases halarms
  exact ⟨by decide, by decide, by decide, by decide⟩

theorem localRun_refines_asked :
    (∃ L' m', localRun 20 10 (localTurns 2) askedLayout (mshDataInit 0x0A000001 0x0A0000FF 0)
        emptyMem = some (L', m') ∧
      L'.Shows m' (run step (mshDataInit 0x0A000001 0x0A0000FF 0)
        ((localTurns 2).map LocalTurn.input))) ∧
    localRun 20 10 (localTurns 3) askedLayout (mshDataInit 0x0A000001 0x0A0000FF 0) emptyMem =
      none :=
  ⟨(localRun_refines _ _ _ [] _ _ _ _ _ shows_emptyMem (freshRun_localTurns 2) (by decide)
      (by decide) (by decide)).1 (by decide +kernel),
    (localRun_refines _ _ _ [] _ _ _ _ _ shows_emptyMem (freshRun_localTurns 3) (by decide)
      (by decide) (by decide)).2 (by decide +kernel)⟩

/-! ## Requests that are not answered -/

/-- A request of the node is in the buffer. -/
def OwnWaiting (s : MshData) : Prop := ∃ e ∈ s.rreq_queue, 0 ≤ e.prev_tries

section Unanswered

variable {s : MshData} {o : AlarmOwner} {l : List PendingAlarm} {js : List Input}

/-- A request of the node stays in the buffer until it is given up. -/
theorem ownWaiting_runAlarm (hwf : Wf s) (h : OwnWaiting s) (hlast : s.ringsLast o = false) :
    OwnWaiting (runAlarm s o) := by
  obtain ⟨e, he, hown⟩ := h
  cases o with
  | route p =>
    refine ⟨e, ?_, hown⟩
    rwa [(runAlarm_route_queues s p).1]
  | rreq p =>
    cases rreqAlarm hwf p with
    | absent _ ht => exact ⟨e, by rwa [ht], hown⟩
    | forgotten x hx hself hext ht =>
      have hne : e.self ≠ x.self := by
        intro heq
        rw [KeyedList.eq_of_key hwf.rreq_nodup he hx heq] at hown
        omega
      refine ⟨e, ?_, hown⟩
      rw [ht]
      exact List.mem_filter.2 ⟨he, by simpa using hne⟩
    | gaveUp x hx hself hown' htries _ =>
      rw [← hself, ringsLast_of_mem hwf hx, decide_eq_false_iff_not] at hlast
      exact absurd ⟨hown', htries⟩ hlast
    | retried x hx hself htries hret =>
      obtain ⟨rank, hqueue⟩ := hret.rreq_queue
      have hmem := List.mem_map_of_mem
        (f := fun y : RreqFifo => if y.self = x.self then retriedEntry s x rank else y) he
      rw [← hqueue] at hmem
      refine ⟨_, hmem, ?_⟩
      split
      · have hx₀ := htries.1
        show 0 ≤ x.prev_tries + 1
        omega
      · exact hown

theorem ownWaiting_rung (hwf : Wf s) (hnodup : (l.map (·.owner)).Nodup)
    (hlast : ∀ a ∈ l, s.ringsLast a.owner = false) (h : OwnWaiting s) : OwnWaiting (rung s l) := by
  induction l generalizing s with
  | nil => exact h
  | cons a l ih =>
    rw [List.map_cons, List.nodup_cons] at hnodup
    refine ih ((runAlarm_cases hwf a.owner).wf hwf) hnodup.2 (fun b hb => ?_)
      (ownWaiting_runAlarm hwf h (hlast a List.mem_cons_self))
    have hne : a.owner ≠ b.owner := fun heq => hnodup.1 (heq ▸ List.mem_map_of_mem hb)
    rw [ringsLast_runAlarm hwf hne]
    exact hlast b (List.mem_cons_of_mem a hb)

/-- It is in the buffer after a run in which no request is given up. -/
theorem ownWaiting_run (hwf : Wf s) (h : OwnWaiting s) (hjs : ∀ j ∈ js, j.event = .alarms)
    (hmeets : StepsMeet step (fun s i => givenUp s i = []) s js) : OwnWaiting (run step s js) := by
  induction js generalizing s with
  | nil => exact h
  | cons i js ih =>
    have hevent := hjs i List.mem_cons_self
    refine ih (hwf.step i) ?_ (fun j hj => hjs j (List.mem_cons_of_mem i hj)) hmeets.2
    have hgiven : (s.arrive i).lastTimeouts (s.arrive i).os.now = [] := by
      rw [← givenUp_alarms hevent]
      exact hmeets.1
    rw [step_alarms hevent]
    exact ownWaiting_rung (hwf.arrive i) (owners_alarmRunQueue_nodup (hwf.arrive i))
      ((lastTimeouts_eq_nil_iff (hwf.arrive i)).1 hgiven) h

end Unanswered

/-- **Every request of the node that is not answered** ends in a read of memory that has been freed:
    in any reachable state with such a request, when nothing is received any more and the alarms run at
    times that go on. -/
theorem unanswered_reads_freed (ip bcast : InAddr) (iface : U32) (is : List Input) (times : Nat → Nat)
    (hclock : ∀ time n, ∃ m, n ≤ m ∧ time ≤ times m) (L : Layout) (m : RreqMem)
    (fuel rounds : Nat) :
    let s := run step (mshDataInit ip bcast iface) is
    OwnWaiting s → L.Shows m s → depthBound (alarmOwners s).length + 1 < fuel →
      (alarmOwners s).length < fuel → (alarmOwners s).length < rounds →
        ∃ n, ∀ k, n ≤ k →
          localRun fuel rounds ((List.range k).map (fun j => ⟨times j, .alarms⟩)) L s m = none := by
  intro s hown h hfuel hlen hrounds
  have hwf : Wf s := wf_run ip bcast iface is
  let ω : Nat → Input := fun j => LocalTurn.input ⟨times j, .alarms⟩
  obtain ⟨n, hn⟩ := alarmTree_silent ip bcast iface is ω (fun _ => rfl) hclock
  refine ⟨n, fun k hk => ?_⟩
  have hjs : ∀ j ∈ (List.range k).map ω, j.event = .alarms := by
    intro j hj
    obtain ⟨x, -, rfl⟩ := List.mem_map.1 hj
    rfl
  have hinputs : ((List.range k).map (fun j => (⟨times j, .alarms⟩ : LocalTurn))).map
      LocalTurn.input = (List.range k).map ω := List.map_map
  have hobjects : (((List.range k).map (fun j => (⟨times j, .alarms⟩ : LocalTurn))).map
      LocalTurn.objects).sum = 0 := by
    rw [List.map_map]
    exact List.sum_eq_zero fun x hx => by
      obtain ⟨y, -, rfl⟩ := List.mem_map.1 hx
      rfl
  have hrun := (localRun_meets_memory hwf h (freshRun_alarms times (List.range k) L s m)
    (by rw [hobjects]; exact hfuel) (by rw [hobjects]; exact hlen)
    (by rw [hobjects]; exact hrounds)).2
  rw [hinputs] at hrun
  refine hrun fun hmeets => ?_
  obtain ⟨e, he, -⟩ := ownWaiting_run hwf hown hjs hmeets
  rw [← Liveness.states_eq_run, ((ticking_silent ip bcast iface is ω k).empty (hn k hk)).2] at he
  cases he

/-! ### A packet for nobody -/

/-- The node has asked for 10.0.0.9. -/
def askedDaemon : MshData := run step (mshDataInit 0x0A000001 0x0A0000FF 0) [packetForNobody]

def askedMem : RreqMem where
  alarms := {
    rb := {
      nodes := {
        cell := fun q => if q = node16 then some (mkNode NULL .black .left NULL NULL) else none
        null_free := by decide }
      rb_node := node16 }
    tv := fun _ => ⟨2, 800000⟩
    data := fun _ => node8
    function := fun _ => node16 }
  entries := {
    cell := fun q =>
      if q = node24 then some ⟨⟨0, 0, 0⟩, ⟨node8, node8⟩⟩
      else if q = node8 then some ⟨⟨1, 0x0A000009, 0⟩, ⟨node24, node24⟩⟩
      else none
    null_free := by decide }

def askedTimetable : Timetable where
  blocks := {node16}
  queue := ⟨[(node16, 2800000)], by decide, by decide⟩
  known a h := by simpa [Timers.Queue.Pending] using h

theorem showsTable_askedMem : askedMem.alarms.ShowsTable askedTimetable := by
  have hnormal : (⟨2, 800000⟩ : Timeval).Normal := ⟨by decide, by decide⟩
  refine ⟨.node .black .nil node16 .nil, ⟨?_, rfl, by decide, fun _ _ => rfl⟩,
    ⟨rfl, 1, by simp [RBTree.Balanced]⟩, by decide, fun _ _ => hnormal, ?_, ?_⟩
  · simp only [TreeAt, ptr]
    decide
  · intro a ha
    simpa [askedTimetable, inorder] using ha
  · intro a ha hnot
    exact absurd (by simpa [askedTimetable, inorder] using ha) hnot

theorem owners_askedDaemon : alarmOwners askedDaemon = [.rreq 0] := by decide +kernel

theorem tree_askedDaemon : alarmTree askedDaemon = [⟨2800000, 0, .rreq 0⟩] := by decide +kernel

theorem linked_askedDaemon : Linked askedLayout.place askedDaemon askedTimetable where
  inj o ho o' ho' _ := by
    rw [owners_askedDaemon, List.mem_singleton] at ho ho'
    rw [ho, ho']
  blocks o ho := by
    rw [owners_askedDaemon, List.mem_singleton] at ho
    subst ho
    exact Set.mem_singleton _
  stamped := by
    rw [tree_askedDaemon]
    exact ⟨[(node16, 2800000, 0)], by decide, by simp, by decide⟩
  fresh := by
    rw [tree_askedDaemon]
    decide +kernel

theorem shows_askedMem : askedLayout.Shows askedMem askedDaemon := by
  have hlist : askedDaemon.rreq_queue.map (fun e => (askedLayout.entryAt e.self, e.data)) =
      [(node8, ⟨1, 0x0A000009, 0⟩)] := by decide +kernel
  refine ⟨⟨⟨askedTimetable, showsTable_askedMem, linked_askedDaemon⟩, fun o ho => ?_, fun o ho => ?_⟩,
    ?_⟩
  · rw [owners_askedDaemon, List.mem_singleton] at ho
    subst ho
    rfl
  · rw [owners_askedDaemon, List.mem_singleton] at ho
    subst ho
    rfl
  · rw [hlist]
    refine ⟨⟨by decide, ?_⟩, by decide, fun q hq => ?_⟩
    · exact ⟨⟨by decide, by decide⟩, by decide, by decide⟩
    · have hnot : q ∉ [node24, node8] := hq
      simp only [List.mem_cons, List.not_mem_nil, or_false, not_or] at hnot
      show (if q = node24 then _ else if q = node8 then _ else none) = none
      rw [if_neg hnot.1, if_neg hnot.2]

theorem enough_askedDaemon : depthBound (alarmOwners askedDaemon).length + 1 < 20 ∧
    (alarmOwners askedDaemon).length < 5 := by
  rw [owners_askedDaemon]
  decide

theorem unanswered_reads_freed_asked :
    ∃ n, ∀ k, n ≤ k →
      localRun 20 5 ((List.range k).map (fun j => ⟨3600000000 * j, .alarms⟩)) askedLayout askedDaemon
        askedMem = none := by
  have hclock : ∀ time n, ∃ m, n ≤ m ∧ time ≤ 3600000000 * m := by
    intro time n
    refine ⟨max n time, le_max_left _ _, ?_⟩
    have hle := le_max_right n time
    omega
  have hown : OwnWaiting askedDaemon := by
    refine ⟨⟨0, 1, 0x0A000009, 0, ⟨2800000, some 0⟩⟩, ?_, by decide⟩
    decide +kernel
  exact unanswered_reads_freed 0x0A000001 0x0A0000FF 0 [packetForNobody] _ hclock askedLayout askedMem
    20 5 hown shows_askedMem enough_askedDaemon.1 (enough_askedDaemon.2.trans (by decide))
    enough_askedDaemon.2

end Meshias
