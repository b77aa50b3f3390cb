import Meshias.Datagrams
import Meshias.Retries

/-!
# The counter of dropped packets

`packet_obj_drop` counts every packet that it drops, and `__rreq_fifo_alarm_cb`, which calls it for
the packets of a destination, counts once more.

* `MshData.excess` — the counter less the `NF_DROP` verdicts; only the alarm of a request that is
  given up raises it, by one (`excess_step`).
* `accounting` — the daemon with the number of drops at the last reset.
* `NoneGivenUp` — the condition on a step.

Principal result: `dropsCounted_iff`.
-/

set_option autoImplicit false

namespace Meshias

open Machine (run StepsMeet)

variable {s t : MshData}

/-! ## The counter and the verdicts -/

/-- The `NF_DROP` verdicts so far. -/
def MshData.drops (s : MshData) : Nat := s.os.verdicts.countP (fun v => v.2 = .NF_DROP)

def MshData.excess (s : MshData) : U32 := s.stats.packets_dropped - BitVec.ofNat 32 s.drops

/-- Accepted packets are not dropped. -/
theorem Releases.drops (h : Releases s t) : t.drops = s.drops := by
  obtain ⟨l, hl, haccept⟩ := h.verdicts
  have hnone : l.countP (fun v => v.2 = .NF_DROP) = 0 := by
    refine List.countP_eq_zero.2 fun v hv => ?_
    rw [haccept v hv]
    decide
  rw [MshData.drops, MshData.drops, hl, List.countP_append, hnone, Nat.add_zero]

theorem drops_of_verdicts (h : t.os.verdicts = s.os.verdicts) : t.drops = s.drops := by
  rw [MshData.drops, MshData.drops, h]

/-- No packet is dropped, and none is counted. -/
structure NoDrops (s t : MshData) : Prop where
  drops : t.drops = s.drops
  counter : t.stats.packets_dropped = s.stats.packets_dropped

theorem NoDrops.excess (h : NoDrops s t) : t.excess = s.excess := by
  rw [MshData.excess, MshData.excess, h.drops, h.counter]

/-- Each dropped packet is counted. -/
theorem drops_packetObjDropWhere (s : MshData) (p : PacketsFifo → Bool) :
    (packetObjDropWhere s p).drops = s.drops + (s.packets_queue.filter p).length := by
  have hall : ((s.packets_queue.filter p).map (fun e => (e.id, Verdict.NF_DROP))).countP
      (fun v => v.2 = .NF_DROP) = (s.packets_queue.filter p).length := by
    rw [List.countP_map]
    exact List.countP_eq_length.2 fun e _ => rfl
  rw [MshData.drops, packetObjDropWhere_os_verdicts, List.countP_append, hall]
  rfl

theorem excess_packetObjDropWhere (s : MshData) (p : PacketsFifo → Bool) :
    (packetObjDropWhere s p).excess = s.excess := by
  rw [MshData.excess, MshData.excess, drops_packetObjDropWhere, BitVec.ofNat_add]
  change s.stats.packets_dropped + BitVec.ofNat 32 (s.packets_queue.filter p).length -
    (BitVec.ofNat 32 s.drops + BitVec.ofNat 32 (s.packets_queue.filter p).length) = _
  generalize BitVec.ofNat 32 (s.packets_queue.filter p).length = k
  bv_omega

theorem excess_countOnce (hdrops : t.drops = s.drops)
    (hcounter : t.stats.packets_dropped = s.stats.packets_dropped + 1) :
    t.excess = s.excess + 1 := by
  rw [MshData.excess, MshData.excess, hdrops, hcounter]
  bv_omega

/-- **The callback counts once more**, whatever it reads from the entry that it has freed. -/
theorem excess_rreqFifoGiveUp (s : MshData) (entry : RreqFifo) :
    (rreqFifoGiveUp s entry).excess = s.excess + 1 := by
  have hdrop := excess_packetObjDropWhere (rreqFifoEntryDelete s entry.self)
    (fun e => e.dest = s.os.freedDst entry.self)
  have hsame : (rreqFifoEntryDelete s entry.self).excess = s.excess := rfl
  rw [← hsame, ← hdrop]
  exact excess_countOnce rfl rfl

/-! ## Datagrams and captured packets -/

theorem packets_dropped_checkedStats (s : MshData) (msg : Msghdr) :
    (checkedStats s msg).packets_dropped = s.stats.packets_dropped := by
  have hget : (aodvPktGet s.stats msg).1.packets_dropped = s.stats.packets_dropped := by
    unfold aodvPktGet
    cases msg.msg_name <;> dsimp only <;> split <;> rfl
  unfold checkedStats
  cases checked (aodvPktGet s.stats msg).1 msg.pkt with
  | passed _ heq => rw [heq, hget]
  | counted c _ _ _ heq =>
    rw [heq, ← hget]
    cases c <;> rfl
  | ignored _ _ heq => rw [heq, hget]

theorem Handler.drops_run (h : Wf s) (pkt : AodvPkt) (handler : Handler) :
    (handler.run s pkt).drops = s.drops := by
  cases handler with
  | rreq => exact (releases_aodvProcessRreq pkt h).drops
  | rrep => exact (releases_aodvProcessRrep pkt h).drops
  | rerr => rfl
  | rrepAck => rfl

theorem noDrops_aodvProcessPacket (h : Wf s) (msg : Msghdr) :
    NoDrops s (aodvProcessPacket s msg) := by
  have hchecked := packets_dropped_checkedStats s msg
  rw [aodvProcessPacket_eq_handler]
  cases packetHandler s msg with
  | none => exact ⟨rfl, hchecked⟩
  | some handler =>
    refine ⟨Handler.drops_run (h.withStats _) _ handler, ?_⟩
    rw [Handler.stats_run]
    exact hchecked

theorem stats_routingTableRefresh (s : MshData) (r : MshRoute) (addr : InAddr) :
    (routingTableRefresh s r addr).stats = s.stats := by
  unfold routingTableRefresh
  dsimp only
  repeat' split
  all_goals rfl

theorem packets_dropped_routingTableUpdateRoute (s : MshData) (dst orig : InAddr) :
    (routingTableUpdateRoute s dst orig).1.stats.packets_dropped = s.stats.packets_dropped := by
  have horig : ∀ t : MshData, (routingTableUpdateOrig t orig).stats = t.stats := by
    intro t
    unfold routingTableUpdateOrig
    split
    · rfl
    · split
      · exact stats_routingTableRefresh _ _ _
      · rfl
  unfold routingTableUpdateRoute
  split
  · split
    · rfl
    · split
      · rfl
      · rw [horig, stats_routingTableRefresh]
  · rw [horig]

theorem stats_aodvFindRoute (s : MshData) (dest : InAddr) (prev_tries : Int) :
    (aodvFindRoute s dest none prev_tries).stats = s.stats := by
  unfold aodvFindRoute
  dsimp only
  split <;> rfl

theorem noDrops_managePacket (h : Wf s) (nfa : NfqData) : NoDrops s (managePacket s nfa) := by
  have hlook : ∀ orig, NoDrops s (packetLookedUp s nfa orig) := fun orig =>
    ⟨drops_of_verdicts (sameTable_packetLookedUp h nfa orig).verdicts,
      packets_dropped_routingTableUpdateRoute s _ orig⟩
  have haccept : ∀ u, (nfqSetVerdict u (nfqueuePacketGetId nfa) .NF_ACCEPT).drops = u.drops := by
    intro u
    rw [MshData.drops, nfqSetVerdict_os_verdicts, List.countP_append]
    rfl
  cases packetManaged h nfa with
  | passed _ ht =>
    rw [ht]
    exact ⟨haccept s, rfl⟩
  | routed orig _ _ _ ht =>
    rw [ht]
    exact ⟨(haccept _).trans (hlook orig).drops, (hlook orig).counter⟩
  | unanswered _ _ _ ht =>
    rw [ht]
    exact hlook _
  | queued _ _ _ _ ht =>
    rw [ht]
    exact ⟨(hlook 0).drops, (hlook 0).counter⟩
  | discovered _ _ _ _ ht =>
    have hqueued : NoDrops s (packetsFifoPush (packetLookedUp s nfa 0) (nfqueuePacketGetId nfa)
        (nfqueuePacketGetDest nfa)) := ⟨(hlook 0).drops, (hlook 0).counter⟩
    rw [ht]
    exact ⟨(drops_of_verdicts (originated_aodvFindRoute _ _ _).verdicts).trans hqueued.drops,
      (congrArg (·.packets_dropped) (stats_aodvFindRoute _ _ _)).trans hqueued.counter⟩

/-! ## Alarms -/

theorem noDrops_runAlarm_route (s : MshData) (p : Nat) : NoDrops s (runAlarm s (.route p)) := by
  have hkeeps : (runAlarm s (.route p)).os.verdicts = s.os.verdicts ∧
      (runAlarm s (.route p)).stats = s.stats := by
    unfold runAlarm mshRouteAlarmCb mshRouteDestroy rtnlRouteDel
    dsimp only
    repeat' split
    all_goals exact ⟨rfl, rfl⟩
  exact ⟨drops_of_verdicts hkeeps.1, congrArg (·.packets_dropped) hkeeps.2⟩

theorem packets_dropped_rreqFifoRetry (s : MshData) (entry : RreqFifo) (prev_tries : Int) :
    (rreqFifoRetry s entry prev_tries).stats.packets_dropped = s.stats.packets_dropped := by
  unfold rreqFifoRetry
  dsimp only
  refine (congrArg Statistics.packets_dropped (stats_aodvFindRoute _ _ _)).trans ?_
  exact packets_dropped_routingTableUpdateRoute _ _ _

theorem excess_runAlarm_rreq (h : Wf s) (p : Nat) :
    (runAlarm s (.rreq p)).excess =
      s.excess + BitVec.ofNat 32 (if s.ringsLast (.rreq p) then 1 else 0) := by
  have hzero : s.excess = s.excess + BitVec.ofNat 32 0 := (BitVec.add_zero _).symm
  rw [MshData.ringsLast]
  cases he : s.rreq_queue.find? (fun e => e.self = p) with
  | none =>
    rw [runAlarm, he]
    exact hzero
  | some e =>
    obtain ⟨hmem, rfl⟩ := (KeyedList.find_key_some h.rreq_nodup).1 he
    rw [runAlarm, he]
    dsimp only [rreqFifoAlarmCb]
    have hlast : e.AtLastTry ↔ 0 ≤ e.prev_tries ∧ RREQ_RETRIES.toNat < e.prev_tries + 1 := Iff.rfl
    by_cases hown : e.prev_tries < 0
    · -- a request of another node: it is forgotten
      rw [if_pos hown, Option.any_some, if_neg (by simp [hlast, hown])]
      exact hzero
    rw [if_neg hown]
    by_cases hend : e.prev_tries + 1 > RREQ_RETRIES.toNat
    · rw [if_pos hend, Option.any_some,
        if_pos (decide_eq_true (hlast.2 ⟨Int.not_lt.1 hown, hend⟩)), excess_rreqFifoGiveUp]
      rfl
    · have hretried := retried_rreqFifoRetry h hmem (Int.not_lt.1 hown) (fun _ => rfl)
      have hcounter := packets_dropped_rreqFifoRetry
        (s.modifyRreq e.self (fun x => { x with alarm := { x.alarm with node := none } })) e
        (e.prev_tries + 1)
      rw [if_neg hend, Option.any_some, if_neg (by simp [hlast, hend])]
      exact (NoDrops.excess ⟨drops_of_verdicts hretried.verdicts, hcounter⟩).trans hzero

theorem excess_runAlarm (h : Wf s) (owner : AlarmOwner) :
    (runAlarm s owner).excess =
      s.excess + BitVec.ofNat 32 (if s.ringsLast owner then 1 else 0) := by
  cases owner with
  | route p =>
    rw [(noDrops_runAlarm_route s p).excess]
    exact (BitVec.add_zero _).symm
  | rreq p => exact excess_runAlarm_rreq h p

/-- **A run of alarms** counts one too many for each request that is given up. -/
theorem excess_runAlarms {l : List PendingAlarm} (hl : (l.map (·.owner)).Nodup) (h : Wf s) :
    (l.foldl (fun s a => runAlarm s a.owner) s).excess =
      s.excess + BitVec.ofNat 32 (l.countP (fun a => s.ringsLast a.owner)) := by
  induction l generalizing s with
  | nil => exact (BitVec.add_zero _).symm
  | cons a l ih =>
    obtain ⟨hnew, hrest⟩ := List.nodup_cons.1 hl
    have hsame : l.countP (fun b => (runAlarm s a.owner).ringsLast b.owner) =
        l.countP (fun b => s.ringsLast b.owner) := by
      refine List.countP_congr fun b hb => ?_
      have hne : a.owner ≠ b.owner := fun heq => hnew (List.mem_map.2 ⟨b, hb, heq.symm⟩)
      rw [ringsLast_runAlarm h hne]
    rw [List.foldl_cons, ih hrest ((runAlarm_cases h a.owner).wf h), excess_runAlarm h, hsame,
      List.countP_cons, BitVec.add_assoc, ← BitVec.ofNat_add, Nat.add_comm]

/-- The alarms of the requests that are given up, in the tree. -/
theorem countP_alarmRunQueue (h : Wf s) :
    (alarmRunQueue s).countP (fun a => s.ringsLast a.owner) = (s.lastTimeouts s.os.now).length := by
  have hroutes : ∀ l : List MshRoute,
      (l.filterMap (fun r => pendingAlarm r.alarm (.route r.self))).countP
        (fun a => s.ringsLast a.owner && decide (a.tv ≤ s.os.now)) = 0 := by
    intro l
    refine List.countP_eq_zero.2 fun a ha => ?_
    obtain ⟨r, -, hr⟩ := List.mem_filterMap.1 ha
    obtain ⟨rank, -, rfl⟩ := Option.map_eq_some_iff.1 hr
    exact Bool.false_ne_true
  rw [alarmRunQueue, (List.perm_insertionSort _ _).countP_eq, List.countP_filter, alarmTree,
    List.countP_append, hroutes, Nat.zero_add, List.countP_filterMap, MshData.lastTimeouts,
    ← List.countP_eq_length_filter]
  refine List.countP_congr fun e he => ?_
  cases hnode : e.alarm.node with
  | none => simp [pendingAlarm, AlarmBlock.pending, hnode]
  | some rank =>
    simp [pendingAlarm, AlarmBlock.pending, hnode, ringsLast_of_mem h he, and_comm]

theorem excess_doAlarmRun (h : Wf s) :
    (doAlarmRun s).excess =
      s.excess + BitVec.ofNat 32 (s.lastTimeouts s.os.now).length := by
  rw [doAlarmRun, excess_runAlarms (owners_alarmRunQueue_nodup h) h, countP_alarmRunQueue h]

/-! ## Runs -/

/-- **One turn**, unless it resets the counters. -/
theorem excess_step (h : Wf s) {i : Input} (hreset : i.event ≠ .cleanStatistics) :
    (step s i).excess = s.excess + BitVec.ofNat 32 (givenUp s i).length := by
  have hzero : s.excess = s.excess + BitVec.ofNat 32 0 := (BitVec.add_zero _).symm
  unfold step givenUp
  cases hevent : i.event with
  | datagram msg => exact (noDrops_aodvProcessPacket (h.arrive i) msg).excess.trans hzero
  | packet nfa => exact (noDrops_managePacket (h.arrive i) nfa).excess.trans hzero
  | alarms => exact excess_doAlarmRun (h.arrive i)
  | cleanStatistics => exact absurd hevent hreset

theorem drops_runAlarm_le (h : Wf s) (owner : AlarmOwner) :
    s.drops ≤ (runAlarm s owner).drops := by
  cases owner with
  | route p => exact (noDrops_runAlarm_route s p).drops.ge
  | rreq p =>
    cases rreqAlarm h p with
    | absent _ ht => exact (congrArg MshData.drops ht).ge
    | forgotten e _ _ _ ht => exact (congrArg MshData.drops ht).ge
    | gaveUp e _ _ _ _ ht =>
      rw [ht]
      exact (Nat.le_add_right _ _).trans
        (drops_packetObjDropWhere (rreqFifoEntryDelete s e.self) _).ge
    | retried e _ _ _ hret => exact (drops_of_verdicts hret.verdicts).ge

/-- Verdicts are never taken back. -/
theorem drops_step_le (h : Wf s) (i : Input) : s.drops ≤ (step s i).drops := by
  unfold step
  cases i.event with
  | datagram msg => exact (noDrops_aodvProcessPacket (h.arrive i) msg).drops.ge
  | packet nfa => exact (noDrops_managePacket (h.arrive i) nfa).drops.ge
  | alarms =>
    exact (doAlarmRun_invariant (I := fun t => Wf t ∧ s.drops ≤ t.drops)
      (fun t owner ht => ⟨(runAlarm_cases ht.1 owner).wf ht.1,
        ht.2.trans (drops_runAlarm_le ht.1 owner)⟩) ⟨h.arrive i, Nat.le_refl _⟩).2
  | cleanStatistics => exact Nat.le_refl _

/-- The daemon, and the number of drops at the last reset. -/
def accounting (c : MshData × Nat) (i : Input) : MshData × Nat :=
  (step c.1 i, if i.event = .cleanStatistics then (step c.1 i).drops else c.2)

/-- The counter is the number of drops since the last reset, modulo `2 ^ 32`. -/
def DropsCounted (c : MshData × Nat) : Prop :=
  c.1.stats.packets_dropped = BitVec.ofNat 32 (c.1.drops - c.2)

instance (c : MshData × Nat) : Decidable (DropsCounted c) := inferInstanceAs (Decidable (_ = _))

/-- The number of requests that the turn gives up is a multiple of `2 ^ 32`, such as zero. -/
def NoneGivenUp (c : MshData × Nat) (i : Input) : Prop := (givenUp c.1 i).length % 2 ^ 32 = 0

instance (c : MshData × Nat) (i : Input) : Decidable (NoneGivenUp c i) :=
  inferInstanceAs (Decidable (_ = _))

/-- What every run keeps. -/
structure AccountOk (c : MshData × Nat) : Prop where
  wf : Wf c.1
  mark_le : c.2 ≤ c.1.drops

theorem AccountOk.step {c : MshData × Nat} (h : AccountOk c) (i : Input) :
    AccountOk (accounting c i) := by
  refine ⟨h.wf.step i, ?_⟩
  unfold accounting
  dsimp only
  split
  · exact Nat.le_refl _
  · exact h.mark_le.trans (drops_step_le h.wf i)

/-- The counter is right if it is ahead by what it was ahead at the reset. -/
theorem dropsCounted_iff_excess {c : MshData × Nat} (h : AccountOk c) :
    DropsCounted c ↔ c.1.excess = -BitVec.ofNat 32 c.2 := by
  have hsplit : BitVec.ofNat 32 c.1.drops =
      BitVec.ofNat 32 (c.1.drops - c.2) + BitVec.ofNat 32 c.2 := by
    rw [← BitVec.ofNat_add, Nat.sub_add_cancel h.mark_le]
  rw [DropsCounted, MshData.excess, hsplit]
  generalize BitVec.ofNat 32 (c.1.drops - c.2) = a
  generalize BitVec.ofNat 32 c.2 = b
  constructor
  · intro heq
    rw [heq]
    bv_omega
  · intro heq
    bv_omega

theorem dropsCounted_step_iff {c : MshData × Nat} (h : AccountOk c) (hcounted : DropsCounted c)
    (i : Input) : DropsCounted (accounting c i) ↔ NoneGivenUp c i := by
  by_cases hreset : i.event = .cleanStatistics
  · have hnone : givenUp c.1 i = [] := by rw [givenUp, hreset]
    have hstats : (step c.1 i).stats.packets_dropped = 0 := by rw [step, hreset]; rfl
    refine iff_of_true ?_ (by rw [NoneGivenUp, hnone]; rfl)
    rw [DropsCounted, accounting, if_pos hreset]
    dsimp only
    rw [hstats, Nat.sub_self]
    rfl
  · rw [dropsCounted_iff_excess (h.step i), accounting, if_neg hreset]
    dsimp only
    rw [excess_step h.wf hreset, (dropsCounted_iff_excess h).1 hcounted, NoneGivenUp,
      BitVec.add_right_eq_self, ← BitVec.toNat_inj, BitVec.toNat_ofNat]
    rfl

/-- **The drops are counted** in every state of a run exactly if no step gives up a request. -/
theorem dropsCounted_iff (ip bcast : InAddr) (iface : U32) (is : List Input) :
    (∀ pre, pre <+: is → DropsCounted (run accounting (mshDataInit ip bcast iface, 0) pre)) ↔
      StepsMeet accounting NoneGivenUp (mshDataInit ip bcast iface, 0) is :=
  Machine.forall_prefix_iff (I := AccountOk) (fun _ i h => h.step i)
    (fun _ i h hcounted => dropsCounted_step_iff h hcounted i)
    ⟨Wf.init ip bcast iface, Nat.le_refl 0⟩ rfl

/-- A packet for 10.0.0.9 is captured, and no RREP comes: the first, the second and the last
    timeout. -/
def threeTimeouts : List Input :=
  [⟨0, [], [], .packet (capturedPacket 1 3 1 0x0A000001 0x0A000009)⟩, ⟨3000000, [], [], .alarms⟩,
    ⟨9000000, [], [], .alarms⟩, ⟨21000000, [], [], .alarms⟩]

/-- **A drop is counted that no verdict belongs to**: the freed entry no longer has the destination.
    If it did, one packet would be dropped and two counted. -/
theorem giveUp_counted_as_drop :
    ¬ ∀ (ip bcast : InAddr) (iface : U32) (is pre : List Input), pre <+: is →
      DropsCounted (run accounting (mshDataInit ip bcast iface, 0) pre) := by
  intro hall
  have hcounted := hall 0x0A000001 0x0A0000FF 0 threeTimeouts threeTimeouts (List.prefix_refl _)
  revert hcounted
  decide +kernel

end Meshias
