import Meshias.AlarmRuns
import Meshias.Traffic

/-!
# The daemon's alarms in memory

In the model of the daemon a pending alarm is a time and a rank; `alarmTree` lists them and
`alarmRunQueue` sorts what has expired.

* `Linked` — a timetable holds exactly the alarms of a daemon's state, at the addresses of their
  blocks.

Principal results: `alarmRunQueue_refines` — the first loop of `do_alarm_run` on the tree in memory
collects the daemon's `alarmRunQueue` — and `setAlarm_refines`, `release_refines` — what the daemon
does to an alarm, `add_alarm` and `del_alarm` do to the tree.
-/

set_option autoImplicit false

namespace Meshias

open Timers (Queue Stamped)

variable {s : MshData} {place : AlarmOwner → Ptr} {T : Timetable} {m : AlarmMem}
variable {fuel rounds : Nat} {now : Timeval}

/-- The objects with an alarm block. -/
def alarmOwners (s : MshData) : List AlarmOwner :=
  (s.routing_table ++ s.lost_routes).map (fun r => .route r.self) ++
    s.rreq_queue.map (fun e => .rreq e.self)

def stamp (place : AlarmOwner → Ptr) (a : PendingAlarm) : Ptr × Int × ℕ :=
  (place a.owner, (a.tv : Int), a.rank)

structure Linked (place : AlarmOwner → Ptr) (s : MshData) (T : Timetable) : Prop where
  inj : ∀ o ∈ alarmOwners s, ∀ o' ∈ alarmOwners s, place o = place o' → o = o'
  blocks : ∀ o ∈ alarmOwners s, place o ∈ T.blocks
  stamped : Stamped T.queue ((alarmTree s).map (stamp place))
  fresh : ∀ a ∈ alarmTree s, a.rank < s.alarms

/-! ## The alarms that have expired -/

theorem alarmRunQueue_sorted (s : MshData) :
    (alarmRunQueue s).Pairwise (fun a b => b.tv < a.tv ∨ b.tv = a.tv ∧ b.rank ≤ a.rank) := by
  have : Std.Total (fun a b : PendingAlarm => b.tv < a.tv ∨ b.tv = a.tv ∧ b.rank ≤ a.rank) :=
    ⟨fun a b => by omega⟩
  have : IsTrans PendingAlarm (fun a b => b.tv < a.tv ∨ b.tv = a.tv ∧ b.rank ≤ a.rank) :=
    ⟨fun a b c => by omega⟩
  exact List.pairwise_insertionSort _ _

theorem Linked.due_eq (h : Linked place s T) :
    T.queue.due (s.os.now : Int) = (alarmRunQueue s).map (fun a => place a.owner) := by
  have hperm : ((alarmRunQueue s).map (stamp place)).Perm
      (((alarmTree s).map (stamp place)).filter (fun x => x.2.1 ≤ (s.os.now : Int))) := by
    rw [List.filter_map]
    refine ((List.perm_insertionSort _ _).map _).trans (.of_eq ?_)
    congr 1
    refine List.filter_congr fun a _ => ?_
    simp [stamp]
  have hsorted : ((alarmRunQueue s).map (stamp place)).Pairwise
      (fun x y => y.2.1 < x.2.1 ∨ y.2.1 = x.2.1 ∧ y.2.2 ≤ x.2.2) := by
    rw [List.pairwise_map]
    refine (alarmRunQueue_sorted s).imp fun {a b} hab => ?_
    simpa [stamp] using hab
  rw [h.stamped.due_eq hperm hsorted, List.map_map]
  rfl

theorem Linked.length (h : Linked place s T) :
    T.queue.entries.length = (alarmTree s).length := by
  obtain ⟨o, ho, -, hmap⟩ := h.stamped
  rw [← hmap, List.length_map, ho.length_eq, List.length_map]

theorem Linked.mem_entries (h : Linked place s T) {x : Ptr × Int} :
    x ∈ T.queue.entries ↔ ∃ a ∈ alarmTree s, (place a.owner, (a.tv : Int)) = x := by
  obtain ⟨o, ho, -, hmap⟩ := h.stamped
  rw [← hmap, (ho.map _).mem_iff, List.map_map, List.mem_map]
  rfl

def smallRoute : MshRoute where
  self := 0
  dst_ip := 0x0A000002
  flags := RTFLAG_VALID_ENTRY
  updated_cb := true
  nlroute := some ⟨0, inAddr2nlAddr 0x0A000002 0, none⟩
  alarm := ⟨1000000, some 0⟩

/-- A route and a request whose alarms are those of the small timetable. -/
def smallDaemon : MshData :=
  { mshDataInit 0x0A000001 0x0A0000FF 0 with
    routing_table := [smallRoute]
    rreq_queue := [⟨1, 1, 0x0A000003, 0, ⟨2000000, some 1⟩⟩]
    objects := 2
    alarms := 2
    os := { now := 1500000 } }

/-- Their addresses. -/
def smallPlace : AlarmOwner → Ptr
  | .route _ => node8
  | .rreq _ => node16

theorem linked_small : Linked smallPlace smallDaemon smallTimetable where
  inj := by decide
  blocks o ho := by
    cases o with
    | route p => simp [smallPlace, smallTimetable]
    | rreq p => simp [smallPlace, smallTimetable]
  stamped := by
    refine ⟨[(node8, 1000000, 0), (node16, 2000000, 1)], by decide, ?_, by decide⟩
    simp [Timers.Earlier]
  fresh := by decide

theorem wf_smallDaemon : Wf smallDaemon where
  dst_nodup := by decide
  self_nodup := by decide
  self_lt := by decide
  entry_ok r hr := by
    obtain rfl := List.mem_singleton.1 hr
    exact ⟨rfl, rfl, by decide, _, rfl, rfl⟩
  lost_ok := by decide
  rreq_nodup := by decide
  rreq_lt := by decide

/-- **The daemon's run queue** is what the first loop of `do_alarm_run` collects from the tree in
    memory. -/
theorem alarmRunQueue_refines (h : m.ShowsTable T) (hlink : Linked place s T) (hnow : now.Normal)
    (hclock : now.micros = s.os.now) (hfuel : depthBound (alarmTree s).length ≤ fuel)
    (hrounds : (alarmTree s).length < rounds) :
    ∃ node, rbFirst fuel m.rb = some node ∧
      m.collectExpired fuel now rounds node [] =
        some ((alarmRunQueue s).map (fun a => place a.owner)) := by
  obtain ⟨node, hnode, hcollect⟩ :=
    collectExpired_spec h hnow (hlink.length.symm ▸ hfuel) (hlink.length.symm ▸ hrounds)
  exact ⟨node, hnode, by rw [hcollect, hclock, hlink.due_eq]⟩

/-! ## What happens to one alarm -/

theorem owner_mem {a : PendingAlarm} (ha : a ∈ alarmTree s) : a.owner ∈ alarmOwners s := by
  rw [alarmTree, List.mem_append, List.mem_filterMap, List.mem_filterMap] at ha
  rw [alarmOwners, List.mem_append, List.mem_map, List.mem_map]
  rcases ha with ⟨r, hr, h⟩ | ⟨e, he, h⟩
  · obtain ⟨rank, -, rfl⟩ := Option.map_eq_some_iff.1 h
    exact .inl ⟨r, hr, rfl⟩
  · obtain ⟨rank, -, rfl⟩ := Option.map_eq_some_iff.1 h
    exact .inr ⟨e, he, rfl⟩

/-- The other alarms, as stamps and as alarms. -/
theorem Linked.filter_stamp (h : Linked place s T) {o : AlarmOwner} (ho : o ∈ alarmOwners s) :
    ((alarmTree s).map (stamp place)).filter (fun x => x.1 ≠ place o) =
      ((alarmTree s).filter (fun a => a.owner ≠ o)).map (stamp place) := by
  rw [List.filter_map]
  congr 1
  refine List.filter_congr fun a ha => ?_
  have hiff : place a.owner = place o ↔ a.owner = o :=
    ⟨h.inj _ (owner_mem ha) _ ho, fun heq => by rw [heq]⟩
  simp [stamp, hiff]

/-- **An alarm is set.**  Nothing else changes in the daemon's list of alarms. -/
theorem Linked.set {s' : MshData} {o : AlarmOwner} {time : Nat} (h : Linked place s T)
    (ho : o ∈ alarmOwners s) (howners : alarmOwners s' = alarmOwners s)
    (hperm : (alarmTree s').Perm
      (⟨time, s.alarms, o⟩ :: (alarmTree s).filter (fun a => a.owner ≠ o)))
    (hrank : s'.alarms = s.alarms + 1) :
    Linked place s' (T.add (place o) (h.blocks o ho) time) where
  inj := howners ▸ h.inj
  blocks := howners ▸ h.blocks
  stamped := by
    have hlt : ∀ x ∈ (alarmTree s).map (stamp place), x.2.2 < s.alarms := by
      intro x hx
      obtain ⟨a, ha, rfl⟩ := List.mem_map.1 hx
      exact h.fresh a ha
    refine (h.stamped.add hlt (place o) (time : Int)).perm ?_
    rw [h.filter_stamp ho]
    exact (hperm.map (stamp place)).symm
  fresh a ha := by
    rw [hrank]
    rcases List.mem_cons.1 (hperm.mem_iff.1 ha) with rfl | ha
    · exact Nat.lt_succ_self _
    · exact Nat.lt_succ_of_lt (h.fresh a (List.mem_filter.1 ha).1)

/-- **A new object**, with its alarm set. -/
theorem Linked.create {s' : MshData} {o : AlarmOwner} {p : Ptr} {time : Nat} (h : Linked place s T)
    (hp : p ∉ T.blocks) (ho : o ∉ alarmOwners s)
    (howners : (alarmOwners s').Perm (o :: alarmOwners s))
    (hperm : (alarmTree s').Perm (⟨time, s.alarms, o⟩ :: alarmTree s))
    (hrank : s'.alarms = s.alarms + 1) :
    Linked (Function.update place o p) s' ((T.create p).add p (.inl rfl) time) := by
  have hplace : ∀ o' ∈ alarmOwners s, Function.update place o p o' = place o' := by
    intro o' ho'
    have hoo : o' ≠ o := fun heq => ho (heq ▸ ho')
    rw [Function.update_of_ne hoo]
  have hne : ∀ o' ∈ alarmOwners s, place o' ≠ p := fun o' ho' heq => hp (heq ▸ h.blocks o' ho')
  refine ⟨?_, ?_, ?_, ?_⟩
  · intro o₁ h₁ o₂ h₂ heq
    rcases List.mem_cons.1 (howners.mem_iff.1 h₁) with rfl | h₁ <;>
      rcases List.mem_cons.1 (howners.mem_iff.1 h₂) with rfl | h₂
    · rfl
    · rw [Function.update_self, hplace o₂ h₂] at heq
      exact absurd heq.symm (hne o₂ h₂)
    · rw [Function.update_self, hplace o₁ h₁] at heq
      exact absurd heq (hne o₁ h₁)
    · rw [hplace o₁ h₁, hplace o₂ h₂] at heq
      exact h.inj o₁ h₁ o₂ h₂ heq
  · intro o' ho'
    rcases List.mem_cons.1 (howners.mem_iff.1 ho') with rfl | ho'
    · rw [Function.update_self]
      exact .inl rfl
    · rw [hplace o' ho']
      exact .inr (h.blocks o' ho')
  · have hlt : ∀ x ∈ (alarmTree s).map (stamp place), x.2.2 < s.alarms := by
      intro x hx
      obtain ⟨a, ha, rfl⟩ := List.mem_map.1 hx
      exact h.fresh a ha
    have hmap : (alarmTree s).map (stamp (Function.update place o p)) =
        (alarmTree s).map (stamp place) :=
      List.map_congr_left fun a ha => by simp only [stamp, hplace a.owner (owner_mem ha)]
    have hkeep : ((alarmTree s).map (stamp place)).filter (fun x => x.1 ≠ p) =
        (alarmTree s).map (stamp place) := by
      refine List.filter_eq_self.2 fun x hx => ?_
      obtain ⟨a, ha, rfl⟩ := List.mem_map.1 hx
      exact decide_eq_true (hne a.owner (owner_mem ha))
    have hadd := h.stamped.add hlt p (time : Int)
    rw [hkeep] at hadd
    refine hadd.perm ?_
    have hnew : stamp (Function.update place o p) ⟨time, s.alarms, o⟩ =
        (p, (time : Int), s.alarms) := by simp [stamp]
    have hall := (hperm.map (stamp (Function.update place o p))).symm
    rwa [List.map_cons, hnew, hmap] at hall
  · intro a ha
    rw [hrank]
    rcases List.mem_cons.1 (hperm.mem_iff.1 ha) with rfl | ha
    · exact Nat.lt_succ_self _
    · exact Nat.lt_succ_of_lt (h.fresh a ha)

/-- **An alarm is stopped.** -/
theorem Linked.stop {s' : MshData} {o : AlarmOwner} (h : Linked place s T)
    (ho : o ∈ alarmOwners s) (howners : alarmOwners s' = alarmOwners s)
    (htree : alarmTree s' = (alarmTree s).filter (fun a => a.owner ≠ o))
    (hrank : s'.alarms = s.alarms) : Linked place s' (T.del (place o)) where
  inj := howners ▸ h.inj
  blocks := howners ▸ h.blocks
  stamped := by
    rw [htree, ← h.filter_stamp ho]
    exact h.stamped.del (place o)
  fresh a ha := by
    rw [htree] at ha
    rw [hrank]
    exact h.fresh a (List.mem_filter.1 ha).1

/-- **An object goes**, and its alarm with it. -/
theorem Linked.release {s' : MshData} {o : AlarmOwner} (h : Linked place s T)
    (ho : o ∈ alarmOwners s)
    (howners : alarmOwners s' = (alarmOwners s).filter (fun o' => o' ≠ o))
    (htree : alarmTree s' = (alarmTree s).filter (fun a => a.owner ≠ o))
    (hrank : s'.alarms = s.alarms) : Linked place s' (T.free (place o)) where
  inj o₁ h₁ o₂ h₂ := by
    rw [howners] at h₁ h₂
    exact h.inj o₁ (List.mem_filter.1 h₁).1 o₂ (List.mem_filter.1 h₂).1
  blocks o' ho' := by
    rw [howners] at ho'
    obtain ⟨hmem, hne⟩ := List.mem_filter.1 ho'
    have hne' : o' ≠ o := by simpa using hne
    exact ⟨h.blocks o' hmem, fun heq => hne' (h.inj o' hmem o ho heq)⟩
  stamped := by
    rw [htree, ← h.filter_stamp ho]
    exact h.stamped.del (place o)
  fresh a ha := by
    rw [htree] at ha
    rw [hrank]
    exact h.fresh a (List.mem_filter.1 ha).1

theorem owner_pendingAlarm {a : AlarmBlock} {o : AlarmOwner} {c : PendingAlarm}
    (h : pendingAlarm a o = some c) : c.owner = o := by
  obtain ⟨rank, -, rfl⟩ := Option.map_eq_some_iff.1 h
  rfl

/-- The alarms without those of a route. -/
theorem filter_alarmTree_route (s : MshData) (p : Nat) :
    (alarmTree s).filter (fun a => a.owner ≠ .route p) =
      ((s.routing_table ++ s.lost_routes).filter (fun r => r.self ≠ p)).filterMap
          (fun r => pendingAlarm r.alarm (.route r.self)) ++
        s.rreq_queue.filterMap (fun e => pendingAlarm e.alarm (.rreq e.self)) := by
  rw [alarmTree, List.filter_append]
  congr 1
  · refine KeyedList.filter_filterMap_eq fun r c hc => ?_
    simp [owner_pendingAlarm hc]
  · refine List.filter_eq_self.2 fun c hc => ?_
    obtain ⟨e, -, he⟩ := List.mem_filterMap.1 hc
    simp [owner_pendingAlarm he]

/-- The alarms without those of a buffered request. -/
theorem filter_alarmTree_rreq (s : MshData) (p : Nat) :
    (alarmTree s).filter (fun a => a.owner ≠ .rreq p) =
      (s.routing_table ++ s.lost_routes).filterMap
          (fun r => pendingAlarm r.alarm (.route r.self)) ++
        (s.rreq_queue.filter (fun e => e.self ≠ p)).filterMap
          (fun e => pendingAlarm e.alarm (.rreq e.self)) := by
  rw [alarmTree, List.filter_append]
  congr 1
  · refine List.filter_eq_self.2 fun c hc => ?_
    obtain ⟨r, -, hr⟩ := List.mem_filterMap.1 hc
    simp [owner_pendingAlarm hr]
  · refine KeyedList.filter_filterMap_eq fun e c hc => ?_
    simp [owner_pendingAlarm hc]

theorem owner_route_mem {r : MshRoute} (hr : r ∈ s.routing_table ++ s.lost_routes) :
    .route r.self ∈ alarmOwners s :=
  List.mem_append_left _ (List.mem_map_of_mem (f := fun r : MshRoute => AlarmOwner.route r.self) hr)

theorem owner_rreq_mem {e : RreqFifo} (he : e ∈ s.rreq_queue) : .rreq e.self ∈ alarmOwners s :=
  List.mem_append_right _ (List.mem_map_of_mem (f := fun e : RreqFifo => AlarmOwner.rreq e.self) he)

/-! ## Objects of which one is changed -/

section OneObject

variable {r : MshRoute} {e : RreqFifo} {f : MshRoute → MshRoute} {g : RreqFifo → RreqFifo}
variable {p tv rank : Nat}

theorem alarmOwners_modifyRoute (hf : ∀ r, (f r).self = r.self) :
    alarmOwners (s.modifyRoute p f) = alarmOwners s := by
  have hselves : ∀ l : List MshRoute,
      (l.map (fun r => if r.self = p then f r else r)).map (fun r => AlarmOwner.route r.self) =
        l.map (fun r => .route r.self) := by
    refine fun l => KeyedList.map_key_map (fun r => ?_) l
    split
    · rw [hf]
    · rfl
  simp only [alarmOwners, MshData.modifyRoute_routing_table, MshData.modifyRoute_lost_routes,
    MshData.modifyRoute_rreq_queue, List.map_append, hselves]

theorem alarmOwners_modifyRreq (hg : ∀ e, (g e).self = e.self) :
    alarmOwners (s.modifyRreq p g) = alarmOwners s := by
  have hselves : (s.rreq_queue.map (fun e => if e.self = p then g e else e)).map
      (fun e => AlarmOwner.rreq e.self) = s.rreq_queue.map (fun e => .rreq e.self) := by
    refine KeyedList.map_key_map (fun e => ?_) _
    split
    · rw [hg]
    · rfl
  simp only [alarmOwners, MshData.modifyRreq_routing_table, MshData.modifyRreq_lost_routes,
    MshData.modifyRreq_rreq_queue, hselves]

/-- The alarm of a route is set. -/
theorem alarmTree_setRoute (h : ((s.routing_table ++ s.lost_routes).map (·.self)).Nodup)
    (hr : r ∈ s.routing_table ++ s.lost_routes) (hf : (f r).self = r.self)
    (halarm : (f r).alarm = ⟨tv, some rank⟩) :
    (alarmTree (s.modifyRoute r.self f)).Perm
      (⟨tv, rank, .route r.self⟩ :: (alarmTree s).filter (fun a => a.owner ≠ .route r.self)) := by
  rw [filter_alarmTree_route, alarmTree, ← List.cons_append]
  refine List.Perm.append ?_ (.refl _)
  rw [MshData.modifyRoute_routing_table, MshData.modifyRoute_lost_routes, ← List.map_append]
  refine KeyedList.perm_filterMap_update h hr ?_
  rw [halarm, hf]
  rfl

/-- The alarm of a request is set. -/
theorem alarmTree_setRreq (h : (s.rreq_queue.map (·.self)).Nodup) (he : e ∈ s.rreq_queue)
    (hg : (g e).self = e.self) (halarm : (g e).alarm = ⟨tv, some rank⟩) :
    (alarmTree (s.modifyRreq e.self g)).Perm
      (⟨tv, rank, .rreq e.self⟩ :: (alarmTree s).filter (fun a => a.owner ≠ .rreq e.self)) := by
  rw [filter_alarmTree_rreq, alarmTree]
  refine List.Perm.trans ?_ List.perm_middle
  refine List.Perm.append (.refl _) ?_
  rw [MshData.modifyRreq_rreq_queue]
  refine KeyedList.perm_filterMap_update h he ?_
  rw [halarm, hg]
  rfl

/-- The alarm of a route is stopped. -/
theorem alarmTree_clearRoute (s : MshData) (p : Nat) :
    alarmTree (s.modifyRoute p clearNode) =
      (alarmTree s).filter (fun a => a.owner ≠ .route p) := by
  rw [filter_alarmTree_route, alarmTree, MshData.modifyRoute_routing_table,
    MshData.modifyRoute_lost_routes, ← List.map_append]
  congr 1
  exact KeyedList.filterMap_update_none (fun _ => rfl) _ _

def clearRreq (e : RreqFifo) : RreqFifo := { e with alarm := { e.alarm with node := none } }

/-- The alarm of a request is stopped. -/
theorem alarmTree_clearRreq (s : MshData) (p : Nat) :
    alarmTree (s.modifyRreq p clearRreq) = (alarmTree s).filter (fun a => a.owner ≠ .rreq p) := by
  rw [filter_alarmTree_rreq, alarmTree, MshData.modifyRreq_rreq_queue]
  congr 1
  exact KeyedList.filterMap_update_none (fun _ => rfl) _ _

/-- What else is written into a request. -/
theorem alarmTree_modifyRreq (hg : ∀ e, (g e).self = e.self) (halarm : ∀ e, (g e).alarm = e.alarm) :
    alarmTree (s.modifyRreq p g) = alarmTree s := by
  rw [alarmTree, alarmTree, MshData.modifyRreq_rreq_queue, List.filterMap_map]
  congr 1
  refine List.filterMap_congr fun e _ => ?_
  simp only [Function.comp_apply]
  split
  · rw [hg, halarm]
  · rfl

end OneObject

/-! ## The same on the tree in memory -/

/-- **`add_alarm`** with the time that `set_alarm_time` makes of milliseconds. -/
theorem setAlarm_refines {s' : MshData} {o : AlarmOwner} (h : m.ShowsTable T)
    (hlink : Linked place s T) (ho : o ∈ alarmOwners s) (ms : U32) (hnow : now.Normal)
    (hclock : now.micros = s.os.now) (howners : alarmOwners s' = alarmOwners s)
    (hperm : (alarmTree s').Perm
      (⟨s.os.now + ms.toNat * 1000, s.alarms, o⟩ :: (alarmTree s).filter (fun a => a.owner ≠ o)))
    (hrank : s'.alarms = s.alarms + 1) (hfuel : depthBound (alarmTree s).length + 1 < fuel) :
    ∃ m' T', m.addAlarm fuel now (place o) (setAlarmTime ms).1 (setAlarmTime ms).2 = some m' ∧
      m'.ShowsTable T' ∧ Linked place s' T' := by
  have husc : (setAlarmTime ms).2 < 1000000 := by
    simp only [setAlarmTime]
    omega
  obtain ⟨rb, hrb, h'⟩ := addAlarm_spec (setAlarmTime ms).1 h (hlink.blocks _ ho) hnow husc
    (hlink.length.symm ▸ hfuel)
  have htime : now.micros + (((setAlarmTime ms).1 : Int) * 1000000 + (setAlarmTime ms).2) =
      ((s.os.now + ms.toNat * 1000 : Nat) : Int) := by
    rw [hclock, ← setAlarmTime_usec]
    push_cast
    ring
  rw [htime] at h'
  exact ⟨_, T.add (place o) (hlink.blocks _ ho) _, hrb, h', hlink.set ho howners hperm hrank⟩

/-- **`del_alarm` before an object is freed.** -/
theorem release_refines {s' : MshData} {o : AlarmOwner} (h : m.ShowsTable T)
    (hlink : Linked place s T) (ho : o ∈ alarmOwners s)
    (howners : alarmOwners s' = (alarmOwners s).filter (fun o' => o' ≠ o))
    (htree : alarmTree s' = (alarmTree s).filter (fun a => a.owner ≠ o))
    (hrank : s'.alarms = s.alarms) (hfuel : depthBound (alarmTree s).length + 1 < fuel) :
    ∃ m' T', m.execAll fuel [.del (place o), .free (place o)] = some m' ∧ m'.ShowsTable T' ∧
      Linked place s' T' := by
  have hknown := hlink.blocks _ ho
  have hlen : depthBound T.queue.entries.length + 1 < fuel := hlink.length.symm ▸ hfuel
  obtain ⟨m₁, hm₁, h₁⟩ := legal_refines h (.del hknown) hlen
  have hshort := depthBound_mono (Queue.length_del_le (q := T.queue) (a := place o))
  have hfree : Legal (T.del (place o)) (.free (place o)) _ :=
    .free hknown (by simp [Timetable.del])
  obtain ⟨m₂, hm₂, h₂⟩ := legal_refines h₁ hfree
    (show depthBound (T.queue.del _).entries.length + 1 < fuel by omega)
  rw [Timetable.free_del] at h₂
  exact ⟨m₂, _, by simp [AlarmMem.execAll, hm₁, hm₂], h₂, hlink.release ho howners htree hrank⟩

/-- The owners without a buffered request. -/
theorem filter_alarmOwners_rreq (s : MshData) (p : Nat) :
    (alarmOwners s).filter (fun o => o ≠ .rreq p) =
      (s.routing_table ++ s.lost_routes).map (fun r => .route r.self) ++
        (s.rreq_queue.filter (fun e => e.self ≠ p)).map (fun e => .rreq e.self) := by
  rw [alarmOwners, List.filter_append, List.filter_eq_self.2, List.filter_map]
  · congr 2
    refine List.filter_congr fun x _ => ?_
    simp
  · intro o ho
    obtain ⟨r, -, rfl⟩ := List.mem_map.1 ho
    simp

/-- The owners without a route. -/
theorem filter_alarmOwners_route (s : MshData) (p : Nat) :
    (alarmOwners s).filter (fun o => o ≠ .route p) =
      ((s.routing_table ++ s.lost_routes).filter (fun r => r.self ≠ p)).map (fun r => .route r.self) ++
        s.rreq_queue.map (fun e => .rreq e.self) := by
  rw [alarmOwners, List.filter_append, List.filter_map]
  congr 1
  · congr 1
    refine List.filter_congr fun x _ => ?_
    simp
  · refine List.filter_eq_self.2 fun o ho => ?_
    obtain ⟨e, -, rfl⟩ := List.mem_map.1 ho
    simp

/-- **`__rreq_fifo_entry_delete`** on the tree in memory: the alarm is stopped before the entry is
    freed. -/
theorem rreqFifoEntryDelete_refines (h : m.ShowsTable T) (hlink : Linked place s T)
    {e : RreqFifo} (he : e ∈ s.rreq_queue) (hfuel : depthBound (alarmTree s).length + 1 < fuel) :
    ∃ m' T', m.execAll fuel [.del (place (.rreq e.self)), .free (place (.rreq e.self))] = some m' ∧
      m'.ShowsTable T' ∧ Linked place (rreqFifoEntryDelete s e.self) T' := by
  refine release_refines h hlink (owner_rreq_mem he) ?_ ?_ rfl hfuel
  · rw [filter_alarmOwners_rreq]
    rfl
  · rw [filter_alarmTree_rreq]
    rfl

end Meshias
