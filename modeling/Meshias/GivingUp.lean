import Meshias.Traffic

/-!
# Requests that are given up

The alarm of a request of the node itself is followed by one more try, or it is the last one: the
entry is freed, and the packets are dropped that wait for the destination read from the freed entry.
What is read there is not known, so the request ends for one destination and the packets may be
dropped for another.

* `RreqAlarm` — the cases of the alarm of a request.
* `AtLastTry`, `givesUp`, `lastTimeouts` — the requests that are given up.

Principal result: `packets_doAlarmRun` — a run of the alarms drops exactly the packets for the
destinations that its last timeouts read.
-/

set_option autoImplicit false

namespace Meshias

variable {s t : MshData}

/-! ## The alarm of a request -/

/-- The request is tried again when its alarm fires. -/
def RreqFifo.Retries (e : RreqFifo) : Prop :=
  0 ≤ e.prev_tries ∧ e.prev_tries + 1 ≤ RREQ_RETRIES.toNat

/-- **What the alarm of the request at `p` does.** -/
inductive RreqAlarm (s : MshData) (p : Nat) (t : MshData) : Prop where
  | absent (habsent : ∀ e ∈ s.rreq_queue, e.self ≠ p) (ht : t = s)
  | forgotten (e : RreqFifo) (he : e ∈ s.rreq_queue) (hself : e.self = p)
      (hext : e.prev_tries < 0) (ht : t = rreqFifoEntryDelete s e.self)
  | gaveUp (e : RreqFifo) (he : e ∈ s.rreq_queue) (hself : e.self = p) (hown : 0 ≤ e.prev_tries)
      (hlast : RREQ_RETRIES.toNat < e.prev_tries + 1) (ht : t = rreqFifoGiveUp s e)
  | retried (e : RreqFifo) (he : e ∈ s.rreq_queue) (hself : e.self = p) (htries : e.Retries)
      (h : Retried s e t)

theorem rreqAlarm (h : Wf s) (p : Nat) : RreqAlarm s p (runAlarm s (.rreq p)) := by
  unfold runAlarm
  dsimp only
  cases he : s.rreq_queue.find? (fun e => e.self = p) with
  | none =>
    have habsent := List.find?_eq_none.1 he
    exact .absent (fun e hmem => by simpa using habsent e hmem) rfl
  | some e =>
    obtain ⟨hmem, rfl⟩ := (KeyedList.find_key_some h.rreq_nodup).1 he
    dsimp only [rreqFifoAlarmCb]
    split
    · rename_i hext
      exact .forgotten e hmem rfl hext (rreqFifoEntryDelete_modifyRreq _ _ (fun _ => rfl))
    · rename_i hext
      have hown : 0 ≤ e.prev_tries := not_lt.1 hext
      split
      · rename_i hlast
        exact .gaveUp e hmem rfl hown hlast (rreqFifoGiveUp_modifyRreq _ _ (fun _ => rfl))
      · rename_i hlast
        exact .retried e hmem rfl ⟨hown, not_lt.1 hlast⟩
          (retried_rreqFifoRetry h hmem hown (fun _ => rfl))

/-- The alarm of a route leaves the requests alone. -/
theorem runAlarm_route_queues (s : MshData) (p : Nat) :
    (runAlarm s (.route p)).rreq_queue = s.rreq_queue ∧
      (runAlarm s (.route p)).os.sent = s.os.sent := by
  unfold runAlarm mshRouteAlarmCb mshRouteDestroy rtnlRouteDel
  dsimp only
  repeat' split
  all_goals exact ⟨rfl, rfl⟩

/-! ## The last try -/

/-- The next timeout of the request is the last one. -/
def RreqFifo.AtLastTry (e : RreqFifo) : Prop :=
  0 ≤ e.prev_tries ∧ RREQ_RETRIES.toNat < e.prev_tries + 1

instance (e : RreqFifo) : Decidable e.AtLastTry := inferInstanceAs (Decidable (_ ∧ _))

theorem RreqFifo.Retries.not_atLastTry {e : RreqFifo} (h : e.Retries) : ¬ e.AtLastTry := by
  rintro ⟨-, hlast⟩
  have := h.2
  omega

/-- The alarm of this object makes the node give up a request. -/
def MshData.ringsLast (s : MshData) : AlarmOwner → Bool
  | .route _ => false
  | .rreq p => (s.rreq_queue.find? (fun e => e.self = p)).any (fun e => e.AtLastTry)

/-- The request that the alarm of this object makes the node give up. -/
def MshData.givesUp (s : MshData) : AlarmOwner → Option RreqFifo
  | .route _ => none
  | .rreq p => (s.rreq_queue.find? (fun e => e.self = p)).filter (fun e => e.AtLastTry)

theorem ringsLast_of_mem (h : Wf s) {e : RreqFifo} (he : e ∈ s.rreq_queue) :
    s.ringsLast (.rreq e.self) = decide e.AtLastTry := by
  rw [MshData.ringsLast, (KeyedList.find_key_some h.rreq_nodup).2 ⟨he, rfl⟩]
  rfl

theorem givesUp_eq_some (h : Wf s) {o : AlarmOwner} {e : RreqFifo} :
    s.givesUp o = some e ↔ e ∈ s.rreq_queue ∧ e.AtLastTry ∧ o = .rreq e.self := by
  cases o with
  | route p => simp [MshData.givesUp]
  | rreq p =>
    rw [MshData.givesUp, Option.filter_eq_some_iff, KeyedList.find_key_some h.rreq_nodup,
      decide_eq_true_eq, AlarmOwner.rreq.injEq, and_assoc, and_comm (a := e.self = p),
      eq_comm (a := e.self)]

theorem givesUp_eq_none_of_mem (h : Wf s) {p : Nat} {e : RreqFifo} (he : e ∈ s.rreq_queue)
    (hself : e.self = p) (hlast : ¬ e.AtLastTry) : s.givesUp (.rreq p) = none := by
  refine Option.eq_none_iff_forall_not_mem.2 fun x hx => ?_
  obtain ⟨hmem, hx, howner⟩ := (givesUp_eq_some h).1 hx
  have hxe := KeyedList.eq_of_key h.rreq_nodup he hmem (hself.trans (AlarmOwner.rreq.inj howner))
  exact hlast (hxe ▸ hx)

theorem givesUp_eq_none (h : Wf s) {p : Nat} (habsent : ∀ e ∈ s.rreq_queue, e.self ≠ p) :
    s.givesUp (.rreq p) = none := by
  refine Option.eq_none_iff_forall_not_mem.2 fun x hx => ?_
  obtain ⟨hmem, -, howner⟩ := (givesUp_eq_some h).1 hx
  exact habsent x hmem (AlarmOwner.rreq.inj howner).symm

/-- The requests whose alarms do not run stay as they are. -/
theorem find_rreq_queue_runAlarm (h : Wf s) (owner : AlarmOwner) {q : Nat}
    (hq : owner ≠ .rreq q) :
    (runAlarm s owner).rreq_queue.find? (fun e => e.self = q) =
      s.rreq_queue.find? (fun e => e.self = q) := by
  cases owner with
  | route p => rw [(runAlarm_route_queues s p).1]
  | rreq p =>
    have hne : q ≠ p := fun heq => hq (congrArg _ heq.symm)
    have hdelete : (rreqFifoEntryDelete s p).rreq_queue.find? (fun e => e.self = q) =
        s.rreq_queue.find? (fun e => e.self = q) := by
      rw [rreqFifoEntryDelete_rreq_queue, List.find?_filter]
      congr 1
      funext e
      by_cases he : e.self = q
      · simp [he, hne]
      · simp [he]
    cases rreqAlarm h p with
    | absent _ ht => rw [ht]
    | forgotten e _ hself _ ht => rw [ht, hself, hdelete]
    | gaveUp e _ hself _ _ ht =>
      rw [ht, rreqFifoGiveUp, hself]
      exact hdelete
    | retried e _ hself _ hret =>
      obtain ⟨rank, hqueue⟩ := hret.rreq_queue
      have hkey : ∀ x : RreqFifo,
          (if x.self = e.self then retriedEntry s e rank else x).self = x.self := by
        intro x
        split
        · rename_i hx
          exact hx.symm
        · rfl
      rw [hqueue, KeyedList.find_key_map hkey]
      cases hx : s.rreq_queue.find? (fun e => e.self = q) with
      | none => rfl
      | some x =>
        have hxq := ((KeyedList.find_key_some h.rreq_nodup).1 hx).2
        rw [Option.map_some, if_neg (by rw [hxq, hself]; exact hne)]

theorem ringsLast_runAlarm (h : Wf s) {owner owner' : AlarmOwner} (hne : owner ≠ owner') :
    (runAlarm s owner).ringsLast owner' = s.ringsLast owner' := by
  cases owner' with
  | route q => rfl
  | rreq q => rw [MshData.ringsLast, MshData.ringsLast, find_rreq_queue_runAlarm h owner hne]

theorem givesUp_runAlarm (h : Wf s) {owner owner' : AlarmOwner} (hne : owner ≠ owner') :
    (runAlarm s owner).givesUp owner' = s.givesUp owner' := by
  cases owner' with
  | route q => rfl
  | rreq q => rw [MshData.givesUp, MshData.givesUp, find_rreq_queue_runAlarm h owner hne]

/-- The alarms behind it in the run give up what they would have given up before. -/
theorem givesUp_rest (h : Wf s) {a b : PendingAlarm} {l : List PendingAlarm}
    (hnew : a.owner ∉ l.map (·.owner)) (hb : b ∈ l) :
    (runAlarm s a.owner).givesUp b.owner = s.givesUp b.owner := by
  have hne : a.owner ≠ b.owner := fun heq => hnew (List.mem_map.2 ⟨b, hb, heq.symm⟩)
  exact givesUp_runAlarm h hne

/-- The own requests whose last timeout is over. -/
def MshData.lastTimeouts (s : MshData) (now : Nat) : List RreqFifo :=
  s.rreq_queue.filter (fun e => e.alarm.pending ∧ e.alarm.tv ≤ now ∧ e.AtLastTry)

theorem mem_lastTimeouts {now : Nat} {e : RreqFifo} :
    e ∈ s.lastTimeouts now ↔
      e ∈ s.rreq_queue ∧ e.alarm.pending = true ∧ e.alarm.tv ≤ now ∧ e.AtLastTry := by
  rw [MshData.lastTimeouts, List.mem_filter, decide_eq_true_eq]

/-- The requests that a turn gives up. -/
def givenUp (s : MshData) (i : Input) : List RreqFifo :=
  match i.event with
  | .alarms => s.lastTimeouts i.now
  | _ => []

theorem givenUp_alarms {i : Input} (h : i.event = .alarms) :
    givenUp s i = (s.arrive i).lastTimeouts (s.arrive i).os.now := by
  rw [givenUp, h]
  rfl

theorem givenUp_of_ne {i : Input} (h : i.event ≠ .alarms) : givenUp s i = [] := by
  unfold givenUp
  split
  · rename_i hev
    exact absurd hev h
  · rfl

/-- They are the ones that the alarms of the run give up. -/
theorem exists_givesUp_iff (h : Wf s) {e : RreqFifo} :
    (∃ a ∈ alarmRunQueue s, s.givesUp a.owner = some e) ↔ e ∈ s.lastTimeouts s.os.now := by
  rw [mem_lastTimeouts]
  constructor
  · rintro ⟨a, ha, hgives⟩
    obtain ⟨he, hlast, howner⟩ := (givesUp_eq_some h).1 hgives
    obtain ⟨htree, hdue⟩ := mem_alarmRunQueue.1 ha
    rw [tv_of_mem_alarmTree_rreq h htree he howner] at hdue
    refine ⟨he, ?_, hdue, hlast⟩
    rw [alarmTree, List.mem_append, List.mem_filterMap, List.mem_filterMap] at htree
    rcases htree with ⟨r, -, hr⟩ | ⟨x, hx, hxa⟩
    · obtain ⟨rank, -, rfl⟩ := Option.map_eq_some_iff.1 hr
      cases howner
    · obtain ⟨rank, hrank, rfl⟩ := Option.map_eq_some_iff.1 hxa
      obtain rfl := KeyedList.eq_of_key h.rreq_nodup hx he (AlarmOwner.rreq.inj howner)
      rw [AlarmBlock.pending, hrank]
      rfl
  · rintro ⟨he, hpend, hdue, hlast⟩
    obtain ⟨a, ha, howner, htv⟩ := mem_alarmTree_rreq he hpend
    exact ⟨a, mem_alarmRunQueue.2 ⟨ha, by rwa [htv]⟩, (givesUp_eq_some h).2 ⟨he, hlast, howner⟩⟩

theorem forall_givesUp_iff (h : Wf s) {P : RreqFifo → Prop} :
    (∀ a ∈ alarmRunQueue s, ∀ e ∈ s.givesUp a.owner, P e) ↔ ∀ e ∈ s.lastTimeouts s.os.now, P e := by
  simp only [← exists_givesUp_iff h]
  constructor
  · rintro hall e ⟨a, ha, hgives⟩
    exact hall a ha e hgives
  · exact fun hall a ha e hgives => hall e ⟨a, ha, hgives⟩

/-! ## The packets dropped -/

theorem os_routingTableUpdateRoute (s : MshData) (dst orig : InAddr) :
    (routingTableUpdateRoute s dst orig).1.os = s.os := by
  have hrefresh : ∀ t r addr, (routingTableRefresh t r addr).os = t.os := by
    intro t r addr
    unfold routingTableRefresh
    dsimp only
    repeat' split
    all_goals rfl
  have horig : ∀ t, (routingTableUpdateOrig t orig).os = t.os := by
    intro t
    unfold routingTableUpdateOrig
    split
    · rfl
    · split
      · exact hrefresh _ _ _
      · rfl
  unfold routingTableUpdateRoute
  split
  · split
    · rfl
    · split
      · rfl
      · rw [horig, hrefresh]
  · rw [horig]

theorem freed_aodvFindRoute (s : MshData) (dest : InAddr) (prev_tries : Int) :
    (aodvFindRoute s dest none prev_tries).os.freed = s.os.freed := by
  unfold aodvFindRoute
  dsimp only
  split <;> rfl

/-- The callbacks do not decide what freed memory holds. -/
theorem freed_runAlarm (s : MshData) (owner : AlarmOwner) :
    (runAlarm s owner).os.freed = s.os.freed := by
  cases owner with
  | route p =>
    unfold runAlarm mshRouteAlarmCb mshRouteDestroy rtnlRouteDel
    dsimp only
    repeat' split
    all_goals rfl
  | rreq p =>
    unfold runAlarm rreqFifoAlarmCb rreqFifoRetry
    dsimp only
    repeat' split
    case h_2.isFalse.isFalse =>
      refine (freed_aodvFindRoute _ _ _).trans ?_
      exact congrArg Os.freed (os_routingTableUpdateRoute _ _ _)
    all_goals rfl

theorem freed_runAlarms (l : List PendingAlarm) (s : MshData) :
    (l.foldl (fun s a => runAlarm s a.owner) s).os.freed = s.os.freed := by
  induction l generalizing s with
  | nil => rfl
  | cons a l ih => exact (ih _).trans (freed_runAlarm s a.owner)

theorem freedDst_congr {os os' : Os} (h : os'.freed = os.freed) (p : Nat) :
    os'.freedDst p = os.freedDst p := by
  rw [Os.freedDst, h]
  rfl

/-- The packets for what is read go, each with a verdict. -/
theorem packets_rreqFifoGiveUp (s : MshData) (e : RreqFifo) :
    (rreqFifoGiveUp s e).packets_queue =
        s.packets_queue.filter (fun x => x.dest ≠ s.os.freedDst e.self) ∧
      (rreqFifoGiveUp s e).os.verdicts = s.os.verdicts ++
        (s.packets_queue.filter (fun x => x.dest = s.os.freedDst e.self)).map
          (fun x => (x.id, .NF_DROP)) := by
  refine ⟨?_, rfl⟩
  change s.packets_queue.filter (fun x => !decide (x.dest = s.os.freedDst e.self)) = _
  simp only [decide_not]

/-- The destinations that a turn reads from the requests it has given up. -/
def dropsFor (s : MshData) (i : Input) : List InAddr :=
  (givenUp s i).map (fun e => (s.arrive i).os.freedDst e.self)

/-- **One alarm** drops packets only if it is the last one of a request. -/
theorem packets_runAlarm (h : Wf s) (owner : AlarmOwner) :
    (runAlarm s owner).packets_queue =
      s.packets_queue.filter
        (fun x => (s.givesUp owner).all (fun e => x.dest ≠ s.os.freedDst e.self)) := by
  have hsame : s.givesUp owner = none → (runAlarm s owner).packets_queue = s.packets_queue →
      (runAlarm s owner).packets_queue =
        s.packets_queue.filter
          (fun x => (s.givesUp owner).all (fun e => x.dest ≠ s.os.freedDst e.self)) := by
    intro hnone hp
    rw [hp, hnone]
    simp
  cases owner with
  | route p =>
    refine hsame rfl ?_
    unfold runAlarm mshRouteAlarmCb mshRouteDestroy rtnlRouteDel
    dsimp only
    repeat' split
    all_goals rfl
  | rreq p =>
    cases rreqAlarm h p with
    | absent habsent ht =>
      exact hsame (givesUp_eq_none h habsent) (by rw [ht])
    | forgotten e he hself hext ht =>
      exact hsame (givesUp_eq_none_of_mem h he hself fun hlast => absurd hlast.1 (not_le.2 hext))
        (by rw [ht]; rfl)
    | gaveUp e he hself hown hlast ht =>
      rw [ht, (givesUp_eq_some h).2 ⟨he, ⟨hown, hlast⟩, congrArg _ hself.symm⟩,
        (packets_rreqFifoGiveUp s e).1]
      simp
    | retried e he hself htries hret =>
      exact hsame (givesUp_eq_none_of_mem h he hself htries.not_atLastTry) hret.packets_queue

theorem packets_runAlarms {l : List PendingAlarm} (hl : (l.map (·.owner)).Nodup) (h : Wf s) :
    (l.foldl (fun s a => runAlarm s a.owner) s).packets_queue =
      s.packets_queue.filter
        (fun x => l.all (fun a =>
          (s.givesUp a.owner).all (fun e => x.dest ≠ s.os.freedDst e.self))) := by
  induction l generalizing s with
  | nil => simp
  | cons a l ih =>
    obtain ⟨hnew, hrest⟩ := List.nodup_cons.1 hl
    rw [List.foldl_cons, ih hrest ((runAlarm_cases h a.owner).wf h), packets_runAlarm h,
      List.filter_filter]
    refine List.filter_congr fun x _ => ?_
    rw [List.all_cons, Bool.and_comm, Bool.eq_iff_iff, Bool.and_eq_true, Bool.and_eq_true,
      List.all_eq_true, List.all_eq_true]
    refine and_congr_right fun _ => forall₂_congr fun b hb => ?_
    simp only [givesUp_rest h hnew hb, freedDst_congr (freed_runAlarm s a.owner)]

/-- **A run of the alarms** drops the packets for the destinations that its last timeouts read. -/
theorem packets_doAlarmRun (h : Wf s) {i : Input} (hev : i.event = .alarms) :
    (doAlarmRun (s.arrive i)).packets_queue =
      s.packets_queue.filter (fun x => x.dest ∉ dropsFor s i) := by
  have hwf := h.arrive i
  rw [doAlarmRun, packets_runAlarms (owners_alarmRunQueue_nodup hwf) hwf]
  refine List.filter_congr fun x _ => ?_
  rw [Bool.eq_iff_iff, decide_eq_true_iff]
  simp only [List.all_eq_true, Option.all_eq_true, decide_eq_true_eq]
  refine (forall_givesUp_iff hwf).trans ?_
  rw [dropsFor, givenUp_alarms hev, List.mem_map]
  simp only [not_exists, not_and, ne_eq, eq_comm]

end Meshias
