import Meshias.Lib.Liveness
import Meshias.AlarmLinks
import Meshias.Lifecycle
import Meshias.Retries
import Meshias.Verdicts

/-!
# When nothing is received

* `routeObjects` — the routes in memory: the entries, and those that were never inserted.
* `Pending` — the alarm of an object is in the tree.
* `callbacksLeft` — how often the functions of the alarms can still be called before something is
  received: a route in use expires and is destroyed, a request of the node is tried again.

Principal results: `pending_runAlarm` and `callbacksLeft_runAlarm` — an alarm stops no other one, and
leaves less to do; `alarmRun_meets_objects`, `callbacks_bounded` and `silence_drains`.
-/

set_option autoImplicit false

namespace Meshias

open Machine (run recording)

variable {s t u : MshData} {o o' : AlarmOwner} {p : Nat}

/-! ## Objects with an alarm -/

def routeObjects (s : MshData) : List MshRoute := s.routing_table ++ s.lost_routes

theorem routeObjects_modifyRoute (s : MshData) (p : Nat) (f : MshRoute → MshRoute) :
    routeObjects (s.modifyRoute p f) =
      (routeObjects s).map (fun r => if r.self = p then f r else r) := by
  rw [routeObjects, MshData.modifyRoute_routing_table, MshData.modifyRoute_lost_routes,
    ← List.map_append]
  rfl

def Pending (s : MshData) (o : AlarmOwner) : Prop := ∃ a ∈ alarmTree s, a.owner = o

theorem pendingAlarm_isSome {a : AlarmBlock} {o : AlarmOwner} :
    (∃ c, pendingAlarm a o = some c) ↔ a.pending = true := by
  unfold pendingAlarm AlarmBlock.pending
  cases a.node <;> simp

theorem pending_route : Pending s (.route p) ↔
    ∃ r ∈ routeObjects s, r.self = p ∧ r.alarm.pending = true := by
  constructor
  · rintro ⟨a, ha, howner⟩
    rcases List.mem_append.1 ha with ha | ha
    · obtain ⟨r, hr, hc⟩ := List.mem_filterMap.1 ha
      have hself := (owner_pendingAlarm hc).symm.trans howner
      exact ⟨r, hr, AlarmOwner.route.inj hself, pendingAlarm_isSome.1 ⟨a, hc⟩⟩
    · obtain ⟨e, -, hc⟩ := List.mem_filterMap.1 ha
      cases (owner_pendingAlarm hc).symm.trans howner
  · rintro ⟨r, hr, rfl, hp⟩
    obtain ⟨c, hc⟩ := pendingAlarm_isSome.2 hp
    exact ⟨c, List.mem_append_left _ (List.mem_filterMap.2 ⟨r, hr, hc⟩), owner_pendingAlarm hc⟩

theorem pending_rreq : Pending s (.rreq p) ↔
    ∃ e ∈ s.rreq_queue, e.self = p ∧ e.alarm.pending = true := by
  constructor
  · rintro ⟨a, ha, howner⟩
    rcases List.mem_append.1 ha with ha | ha
    · obtain ⟨r, -, hc⟩ := List.mem_filterMap.1 ha
      cases (owner_pendingAlarm hc).symm.trans howner
    · obtain ⟨e, he, hc⟩ := List.mem_filterMap.1 ha
      have hself := (owner_pendingAlarm hc).symm.trans howner
      exact ⟨e, he, AlarmOwner.rreq.inj hself, pendingAlarm_isSome.1 ⟨a, hc⟩⟩
  · rintro ⟨e, he, rfl, hp⟩
    obtain ⟨c, hc⟩ := pendingAlarm_isSome.2 hp
    exact ⟨c, List.mem_append_right _ (List.mem_filterMap.2 ⟨e, he, hc⟩), owner_pendingAlarm hc⟩

/-! ## What is left to do -/

/-- A route in use expires first, and is destroyed later. -/
def MshRoute.callbacksLeft (r : MshRoute) : Nat :=
  if r.alarm.pending then (if r.alarm_action = RTACTION_UNSET_VALID_ENTRY then 2 else 1) else 0

/-- A try may put two routes back into use. -/
def RreqFifo.callbacksLeft (e : RreqFifo) : Nat :=
  if e.alarm.pending then
    1 + (if e.prev_tries < 0 then 0 else 5 * (RREQ_RETRIES.toNat - e.prev_tries.toNat))
  else 0

def callbacksLeft (s : MshData) : Nat :=
  ((routeObjects s).map MshRoute.callbacksLeft).sum + (s.rreq_queue.map RreqFifo.callbacksLeft).sum

theorem MshRoute.callbacksLeft_le (r : MshRoute) : r.callbacksLeft ≤ 2 := by
  unfold MshRoute.callbacksLeft
  split
  · split <;> omega
  · omega

theorem callbacksLeft_mshRouteExpire (now rank : Nat) (r : MshRoute) :
    (mshRouteExpire now rank r).callbacksLeft = 1 := by
  rw [mshRouteExpire_eq]
  rfl

/-! ## Routes that are put back into use -/

/-- At most `k` of the routes are set again, and none is stopped. -/
structure Renews (k : Nat) (s t : MshData) : Prop where
  selves : (routeObjects t).map (·.self) = (routeObjects s).map (·.self)
  pending : ∀ p, Pending s (.route p) → Pending t (.route p)
  left : ((routeObjects t).map MshRoute.callbacksLeft).sum ≤
    ((routeObjects s).map MshRoute.callbacksLeft).sum + 2 * k

theorem Renews.of_eq (h : routeObjects t = routeObjects s) : Renews 0 s t where
  selves := by rw [h]
  pending p hp := by rw [pending_route] at hp ⊢; rwa [h]
  left := by rw [h]; omega

theorem Renews.trans {k k' : Nat} (h : Renews k s t) (h' : Renews k' t u) : Renews (k + k') s u where
  selves := h'.selves.trans h.selves
  pending p hp := h'.pending p (h.pending p hp)
  left := by
    have := h.left
    have := h'.left
    omega

theorem Renews.mono {k k' : Nat} (h : Renews k s t) (hk : k ≤ k') : Renews k' s t where
  selves := h.selves
  pending := h.pending
  left := by
    have := h.left
    omega

theorem pending_mshRouteSetLifetime (now rank : Nat) {r : MshRoute} (h : r.alarm.pending = true)
    (lifetime : U32) : (mshRouteSetLifetime now rank r lifetime).alarm.pending = true := by
  unfold mshRouteSetLifetime
  split
  · exact h
  · rfl

/-- `msh_route_set_lifetime`. -/
theorem renews_routeSetLifetime (hnodup : ((routeObjects s).map (·.self)).Nodup) (p : Nat)
    (lifetime : U32) : Renews 1 s (s.routeSetLifetime p lifetime) := by
  have hobjs : routeObjects (s.routeSetLifetime p lifetime) = (routeObjects s).map
      (fun r => if r.self = p then mshRouteSetLifetime s.os.now s.alarms r lifetime else r) :=
    routeObjects_modifyRoute s p _
  have hself := fun r : MshRoute => (keeps_setLifetime s.os.now s.alarms lifetime).self r
  refine ⟨?_, fun q hq => ?_, ?_⟩
  · rw [hobjs]
    refine KeyedList.map_key_map (fun r => ?_) _
    split
    · exact hself r
    · rfl
  · obtain ⟨r, hr, rfl, hp⟩ := pending_route.1 hq
    rw [pending_route, hobjs]
    refine ⟨_, List.mem_map_of_mem hr, ?_, ?_⟩
    · split
      · exact hself r
      · rfl
    · split
      · exact pending_mshRouteSetLifetime _ _ hp lifetime
      · exact hp
  · rw [hobjs]
    by_cases hp : ∃ r ∈ routeObjects s, r.self = p
    · obtain ⟨r, hr, rfl⟩ := hp
      have hsum := KeyedList.sum_map_update hnodup hr
        (fun r => mshRouteSetLifetime s.os.now s.alarms r lifetime) MshRoute.callbacksLeft
      have hle := (mshRouteSetLifetime s.os.now s.alarms r lifetime).callbacksLeft_le
      omega
    · have hsame : (routeObjects s).map (fun r => if r.self = p then
          mshRouteSetLifetime s.os.now s.alarms r lifetime else r) = routeObjects s := by
        refine (List.map_congr_left fun r hr => ?_).trans (List.map_id _)
        exact if_neg fun he => hp ⟨r, hr, he⟩
      rw [hsame]
      omega

theorem renews_routingTableRefresh (hnodup : ((routeObjects s).map (·.self)).Nodup) (r : MshRoute)
    (addr : InAddr) : Renews 2 s (routingTableRefresh s r addr) := by
  have hfirst := renews_routeSetLifetime hnodup r.self ACTIVE_ROUTE_TIMEOUT
  unfold routingTableRefresh
  dsimp only
  split
  · split
    · exact hfirst.trans (renews_routeSetLifetime (hfirst.selves ▸ hnodup) _ _)
    · exact hfirst.mono (by omega)
  · exact hfirst.mono (by omega)

/-- The refresh of a retry. -/
theorem renews_updateRoute (hnodup : ((routeObjects s).map (·.self)).Nodup) (dst : InAddr) :
    Renews 2 s (routingTableUpdateRoute s dst 0).1 := by
  have hnone : ∀ s : MshData, routingTableUpdateOrig s 0 = s := fun s => if_pos rfl
  unfold routingTableUpdateRoute
  split
  · split
    · exact Renews.mono (k := 0) (.of_eq rfl) (by omega)
    · split
      · exact Renews.mono (k := 0) (.of_eq rfl) (by omega)
      · rw [hnone]
        exact renews_routingTableRefresh hnodup _ _
  · rw [hnone]
    exact Renews.mono (k := 0) (.of_eq rfl) (by omega)

theorem routeObjects_aodvFindRoute (s : MshData) (dest : InAddr) (prev_tries : Int) :
    routeObjects (aodvFindRoute s dest none prev_tries) = routeObjects s := by
  unfold aodvFindRoute
  dsimp only
  split <;> rfl

theorem renews_rreqFifoRetry (hnodup : ((routeObjects s).map (·.self)).Nodup) (e : RreqFifo)
    (prev_tries : Int) : Renews 2 s (rreqFifoRetry s e prev_tries) := by
  have hfirst : Renews 0 s (s.modifyRreq e.self ({ · with prev_tries })) := .of_eq rfl
  have hsecond := renews_updateRoute (s := s.modifyRreq e.self ({ · with prev_tries })) hnodup e.dst
  have hobjs : routeObjects (rreqFifoRetry s e prev_tries) = routeObjects
      (routingTableUpdateRoute (s.modifyRreq e.self ({ · with prev_tries })) e.dst 0).1 := by
    unfold rreqFifoRetry
    exact routeObjects_aodvFindRoute _ _ _
  have hall := (hfirst.trans hsecond).trans (.of_eq hobjs)
  exact hall.mono (by omega)

/-! ## One alarm -/

/-- The objects after the alarm of a route: it expires, it is destroyed, or it is only stopped. -/
inductive RouteRung (s : MshData) (p : Nat) (objs : List MshRoute) : Prop where
  | absent (habsent : ∀ r ∈ routeObjects s, r.self ≠ p) (hobjs : objs = routeObjects s)
  | changed (r : MshRoute) (hr : r ∈ routeObjects s) (hself : r.self = p) (f : MshRoute → MshRoute)
      (hf : ∀ x, (f x).self = x.self)
      (hless : r.alarm.pending = true → (f r).callbacksLeft < r.callbacksLeft)
      (hobjs : objs = (routeObjects s).map (fun x => if x.self = p then f x else x))
  | destroyed (r : MshRoute) (hr : r ∈ routeObjects s) (hself : r.self = p)
      (hobjs : objs = (routeObjects s).filter (fun x => x.self ≠ p))

theorem routeObjects_mshRouteDestroy (h : Wf s) {r x : MshRoute} (hx : x ∈ routeObjects s)
    (hself : x.self = r.self) (hcb : x.updated_cb = r.updated_cb) :
    routeObjects (mshRouteDestroy s r) =
      (routeObjects s).filter (fun x => x.self ≠ r.self) := by
  unfold mshRouteDestroy
  rw [routeObjects, routeObjects, List.filter_append]
  cases hup : r.updated_cb with
  | true =>
    cases r.nlroute <;> rfl
  | false =>
    -- a route without the callback is not in the table
    have hlost : x ∈ s.lost_routes := by
      rcases List.mem_append.1 hx with hmem | hmem
      · have htrue := (h.entry_ok x hmem).updated_cb
        rw [hcb, hup] at htrue
        cases htrue
      · exact hmem
    have hkeep : s.routing_table.filter (fun x => x.self ≠ r.self) = s.routing_table := by
      refine List.filter_eq_self.2 fun y hy => ?_
      have hnodup := h.self_nodup
      rw [List.map_append] at hnodup
      have hdisj := List.disjoint_of_nodup_append hnodup (List.mem_map_of_mem hy)
      have hne : y.self ≠ r.self := by
        intro heq
        refine hdisj ?_
        rw [heq, ← hself]
        exact List.mem_map_of_mem hlost
      simpa using hne
    rw [hkeep]
    rfl

theorem routeRung (h : Wf s) (p : Nat) :
    RouteRung s p (routeObjects (runAlarm s (.route p))) := by
  unfold runAlarm
  dsimp only
  cases hr : (s.routing_table ++ s.lost_routes).find? (fun r => r.self = p) with
  | none =>
    have habsent := List.find?_eq_none.1 hr
    exact .absent (fun r hmem => by simpa using habsent r hmem) rfl
  | some r =>
    have hmem : r ∈ routeObjects s := List.mem_of_find?_eq_some hr
    have hself : r.self = p := by simpa using List.find?_some hr
    subst hself
    have hclear := routeObjects_modifyRoute s r.self clearNode
    have hcleared : (clearNode r).callbacksLeft = 0 := rfl
    have hpos : r.alarm.pending = true → 0 < r.callbacksLeft := by
      intro hp
      rw [MshRoute.callbacksLeft, if_pos hp]
      split <;> omega
    dsimp only [mshRouteAlarmCb]
    split
    · rename_i hact
      refine .changed r hmem rfl (fun x => mshRouteExpire s.os.now s.alarms (clearNode x))
        (fun x => (keeps_expire _ _).self _) (fun hp => ?_) ?_
      · rw [callbacksLeft_mshRouteExpire, MshRoute.callbacksLeft, if_pos hp, if_pos hact]
        omega
      · change routeObjects ((s.modifyRoute r.self clearNode).modifyRoute r.self
          (mshRouteExpire s.os.now s.alarms)) = _
        rw [routeObjects_modifyRoute, hclear, List.map_map]
        refine List.map_congr_left fun x _ => ?_
        by_cases hx : x.self = r.self
        · simp [hx, clearNode]
        · simp [hx]
    · split
      · refine .destroyed r hmem rfl ?_
        change routeObjects (mshRouteDestroy (s.modifyRoute r.self clearNode) r) = _
        rw [routeObjects_mshRouteDestroy (h.modifyRoute r.self keeps_clear)
          (r := r) (x := clearNode r) ?_ rfl rfl, hclear]
        · have hself : ∀ x : MshRoute, (clearNode x).self = x.self := fun _ => rfl
          exact KeyedList.filter_map_update hself _ _
        · rw [hclear]
          exact List.mem_map.2 ⟨r, hmem, by simp⟩
      · exact .changed r hmem rfl clearNode (fun _ => rfl) (fun hp => by rw [hcleared]; exact hpos hp)
          hclear

theorem renews_runAlarm_rreq (h : Wf s) (p : Nat) : Renews 2 s (runAlarm s (.rreq p)) := by
  unfold runAlarm
  dsimp only
  split
  · exact Renews.mono (k := 0) (.of_eq rfl) (by omega)
  · rename_i entry _
    dsimp only [rreqFifoAlarmCb]
    split
    · exact Renews.mono (k := 0) (.of_eq rfl) (by omega)
    · split
      · exact Renews.mono (k := 0) (.of_eq rfl) (by omega)
      · let cleared := s.modifyRreq p (fun e => { e with alarm := { e.alarm with node := none } })
        have hfirst : Renews 0 s cleared := .of_eq rfl
        have hsecond := renews_rreqFifoRetry (s := cleared) h.self_nodup entry (entry.prev_tries + 1)
        have hall := hfirst.trans hsecond
        exact hall.mono (by omega)

/-- **An alarm stops no other one.** -/
theorem pending_runAlarm (h : Wf s) (hne : o' ≠ o) (hp : Pending s o') : Pending (runAlarm s o) o' := by
  cases o with
  | route p =>
    cases o' with
    | rreq q =>
      rw [pending_rreq] at hp ⊢
      rwa [(runAlarm_route_queues s p).1]
    | route q =>
      have hqp : q ≠ p := fun heq => hne (heq ▸ rfl)
      obtain ⟨r, hr, rfl, hpend⟩ := pending_route.1 hp
      rw [pending_route]
      refine ⟨r, ?_, rfl, hpend⟩
      cases routeRung h p with
      | absent _ hobjs => rwa [hobjs]
      | changed _ _ _ f _ _ hobjs =>
        rw [hobjs]
        exact List.mem_map.2 ⟨r, hr, if_neg hqp⟩
      | destroyed _ _ _ hobjs =>
        rw [hobjs]
        exact List.mem_filter.2 ⟨hr, by simpa using hqp⟩
  | rreq p =>
    cases o' with
    | route q => exact (renews_runAlarm_rreq h p).pending q hp
    | rreq q =>
      have hqp : q ≠ p := fun heq => hne (heq ▸ rfl)
      obtain ⟨e, he, rfl, hpend⟩ := pending_rreq.1 hp
      rw [pending_rreq]
      refine ⟨e, ?_, rfl, hpend⟩
      cases rreqAlarm h p with
      | absent _ ht => rwa [ht]
      | forgotten x _ hself _ ht =>
        rw [ht]
        exact List.mem_filter.2 ⟨he, by simpa [hself] using hqp⟩
      | gaveUp x _ hself _ _ ht =>
        rw [ht]
        exact List.mem_filter.2 ⟨he, by simpa [hself] using hqp⟩
      | retried x _ hself _ hret =>
        obtain ⟨rank, hqueue⟩ := hret.rreq_queue
        rw [hqueue]
        exact List.mem_map.2 ⟨e, he, if_neg (by rwa [hself])⟩

/-- **An alarm leaves less to do.** -/
theorem callbacksLeft_runAlarm (h : Wf s) (hp : Pending s o) :
    callbacksLeft (runAlarm s o) < callbacksLeft s := by
  cases o with
  | route p =>
    obtain ⟨r, hr, rfl, hpend⟩ := pending_route.1 hp
    have hpos : 0 < r.callbacksLeft := by
      rw [MshRoute.callbacksLeft, if_pos hpend]
      split <;> omega
    rw [callbacksLeft, callbacksLeft, (runAlarm_route_queues s r.self).1]
    cases routeRung h r.self with
    | absent habsent _ => exact absurd rfl (habsent r hr)
    | changed x hx hself f _ hless hobjs =>
      obtain rfl : x = r := KeyedList.eq_of_key h.self_nodup hx hr hself
      have hsum := KeyedList.sum_map_update h.self_nodup hr f MshRoute.callbacksLeft
      have hlt := hless hpend
      rw [hobjs]
      unfold routeObjects at *
      omega
    | destroyed x hx hself hobjs =>
      have hsum := KeyedList.sum_filter h.self_nodup hr MshRoute.callbacksLeft
      rw [hobjs]
      unfold routeObjects at *
      omega
  | rreq p =>
    obtain ⟨e, he, rfl, hpend⟩ := pending_rreq.1 hp
    have hpos : 0 < e.callbacksLeft := by
      rw [RreqFifo.callbacksLeft, if_pos hpend]
      omega
    have hsum := KeyedList.sum_filter h.rreq_nodup he RreqFifo.callbacksLeft
    have hroutes := (renews_runAlarm_rreq h e.self).left
    rw [callbacksLeft, callbacksLeft]
    cases rreqAlarm h e.self with
    | absent habsent _ => exact absurd rfl (habsent e he)
    | forgotten x _ hself _ ht =>
      rw [ht, hself]
      simp only [routeObjects, rreqFifoEntryDelete_routing_table, rreqFifoEntryDelete_lost_routes,
        rreqFifoEntryDelete_rreq_queue]
      omega
    | gaveUp x _ hself _ _ ht =>
      have hobjs : routeObjects (rreqFifoGiveUp s x) = routeObjects s := rfl
      have hqueue : (rreqFifoGiveUp s x).rreq_queue =
          s.rreq_queue.filter (fun y => y.self ≠ x.self) := rfl
      rw [ht, hobjs, hqueue, hself]
      omega
    | retried x hx hself htries hret =>
      obtain rfl : x = e := KeyedList.eq_of_key h.rreq_nodup hx he hself
      obtain ⟨rank, hqueue⟩ := hret.rreq_queue
      have hone := KeyedList.sum_map_update h.rreq_nodup he (fun _ => retriedEntry s x rank)
        RreqFifo.callbacksLeft
      -- the try is worth five, and puts back no more than two routes
      have hold : x.callbacksLeft = 1 + 5 * (RREQ_RETRIES.toNat - x.prev_tries.toNat) := by
        rw [RreqFifo.callbacksLeft, if_pos hpend, if_neg (not_lt.2 htries.1)]
      have hnew : (retriedEntry s x rank).callbacksLeft =
          1 + 5 * (RREQ_RETRIES.toNat - (x.prev_tries + 1).toNat) := by
        have hnot : ¬ x.prev_tries + 1 < 0 := by
          have := htries.1
          omega
        simp [RreqFifo.callbacksLeft, retriedEntry, AlarmBlock.pending, hnot]
      have hfirst := htries.1
      have hlast := htries.2
      rw [hqueue]
      omega

/-! ## A run of the alarms -/

/-- The callbacks that have run. -/
abbrev rung (s : MshData) (l : List PendingAlarm) : MshData :=
  l.foldl (fun s a => runAlarm s a.owner) s

/-- Each alarm is still there when its turn comes. -/
theorem rung_spec {l : List PendingAlarm} (h : Wf s) (hnodup : (l.map (·.owner)).Nodup)
    (hp : ∀ a ∈ l, Pending s a.owner) :
    callbacksLeft (rung s l) + l.length ≤ callbacksLeft s ∧
      ∀ j : Fin l.length, Pending (rung s (l.take j)) (l.get j).owner := by
  induction l generalizing s with
  | nil => exact ⟨le_rfl, fun j => j.elim0⟩
  | cons a l ih =>
    rw [List.map_cons, List.nodup_cons] at hnodup
    have hfirst := hp a List.mem_cons_self
    have hless := callbacksLeft_runAlarm h hfirst
    have hrest : ∀ b ∈ l, Pending (runAlarm s a.owner) b.owner := by
      intro b hb
      have hne : b.owner ≠ a.owner := fun heq => hnodup.1 (heq ▸ List.mem_map_of_mem hb)
      exact pending_runAlarm h hne (hp b (List.mem_cons_of_mem a hb))
    obtain ⟨hsum, hall⟩ := ih ((runAlarm_cases h a.owner).wf h) hnodup.2 hrest
    refine ⟨?_, fun j => ?_⟩
    · simp only [rung, List.foldl_cons, List.length_cons] at hsum ⊢
      omega
    · cases j using Fin.cases with
      | zero => exact hfirst
      | succ j => exact hall j

theorem pending_of_mem_alarmRunQueue {a : PendingAlarm} (ha : a ∈ alarmRunQueue s) :
    Pending s a.owner := ⟨a, (mem_alarmRunQueue.1 ha).1, rfl⟩

/-- **A run of the alarms** takes one from what is left to do for every callback. -/
theorem callbacksLeft_doAlarmRun (h : Wf s) :
    callbacksLeft (doAlarmRun s) + (alarmRunQueue s).length ≤ callbacksLeft s :=
  (rung_spec h (owners_alarmRunQueue_nodup h) (fun _ ha => pending_of_mem_alarmRunQueue ha)).1

/-- **No callback is called for an object that is gone.**  In every alarm run of every reachable
    state, the alarm of each object is still pending when its turn comes, whatever the callbacks
    before it have done. -/
theorem alarmRun_meets_objects (ip bcast : InAddr) (iface : U32) (is : List Input) (i : Input) :
    let s := (run step (mshDataInit ip bcast iface) is).arrive i
    ∀ j : Fin (alarmRunQueue s).length,
      Pending (rung s ((alarmRunQueue s).take j)) ((alarmRunQueue s).get j).owner := by
  intro s
  have h : Wf s := (wf_run ip bcast iface is).arrive i
  exact (rung_spec h (owners_alarmRunQueue_nodup h) (fun _ ha => pending_of_mem_alarmRunQueue ha)).2

/-! ## Runs without input -/

/-- The callbacks of a run. -/
def callbacksRun : MshData → List Input → Nat
  | _, [] => 0
  | s, i :: is => (alarmRunQueue (s.arrive i)).length + callbacksRun (step s i) is

theorem step_alarms {i : Input} (h : i.event = .alarms) : step s i = doAlarmRun (s.arrive i) := by
  rw [step, h]
  rfl

theorem callbacksLeft_le (s : MshData) :
    callbacksLeft s ≤ 2 * (routeObjects s).length + 11 * s.rreq_queue.length := by
  have hsum : ∀ {β : Type} (l : List β) (w : β → Nat) (c : Nat), (∀ x, w x ≤ c) →
      (l.map w).sum ≤ c * l.length := by
    intro β l w c hw
    induction l with
    | nil => simp
    | cons x l ih =>
      have := hw x
      simp only [List.map_cons, List.sum_cons, List.length_cons, Nat.mul_add]
      omega
  have hroutes := hsum (routeObjects s) MshRoute.callbacksLeft 2 MshRoute.callbacksLeft_le
  have hrreqs := hsum s.rreq_queue RreqFifo.callbacksLeft 11 fun e => by
    have hretries : RREQ_RETRIES.toNat = 2 := rfl
    unfold RreqFifo.callbacksLeft
    split
    · split <;> omega
    · omega
  rw [callbacksLeft]
  omega

/-- **The callbacks are bounded.**  While nothing is received, the alarms of all runs together make no
    more calls than two times the number of routes and eleven times the number of requests. -/
theorem callbacks_bounded (ip bcast : InAddr) (iface : U32) (is : List Input) (js : List Input)
    (hjs : ∀ i ∈ js, i.event = .alarms) :
    let s := run step (mshDataInit ip bcast iface) is
    callbacksRun s js + callbacksLeft (run step s js) ≤ callbacksLeft s ∧
      callbacksLeft s ≤ 2 * (routeObjects s).length + 11 * s.rreq_queue.length := by
  intro s
  refine ⟨?_, callbacksLeft_le s⟩
  have h : Wf s := wf_run ip bcast iface is
  clear_value s
  induction js generalizing s with
  | nil => simp [callbacksRun]
  | cons i js ih =>
    have hevent := hjs i List.mem_cons_self
    have hrest := ih (fun j hj => hjs j (List.mem_cons_of_mem i hj)) (step s i) (h.step i)
    have hone := callbacksLeft_doAlarmRun (h.arrive i)
    rw [← step_alarms hevent] at hone
    have hsame : callbacksLeft (s.arrive i) = callbacksLeft s := rfl
    rw [callbacksRun, Machine.run_cons]
    omega

/-- A packet for 10.0.0.9, whom nobody knows. -/
def packetForNobody : Input := ⟨0, [], [], .packet (capturedPacket 1 3 1 0x0A000001 0x0A000009)⟩

/-- The alarms run once an hour; the freed request keeps its destination. -/
def hourly (n : Nat) : Input := ⟨3600000000 * n, [], [(0, 0x0A000009)], .alarms⟩

theorem callbacks_bounded_unanswered :
    callbacksRun (run step (mshDataInit 0x0A000001 0x0A0000FF 0) [packetForNobody])
      ((List.range 100).map hourly) ≤ 11 := by
  have h := callbacks_bounded 0x0A000001 0x0A0000FF 0 [packetForNobody] ((List.range 100).map hourly)
    (by simp [hourly])
  have hobjs : (routeObjects (run step (mshDataInit 0x0A000001 0x0A0000FF 0)
      [packetForNobody])).length = 0 := by decide +kernel
  have hqueue : (run step (mshDataInit 0x0A000001 0x0A0000FF 0)
      [packetForNobody]).rreq_queue.length = 1 := by decide +kernel
  omega

/-! ## The end of it -/

/-- Everything in a reachable state has a pending alarm. -/
structure Ticking (s : MshData) : Prop where
  wf : Wf s
  timers : TimersOk s
  own : OwnOk s.rreq_queue
  pending : ∀ e ∈ s.rreq_queue, e.alarm.pending = true

theorem ticking (ip bcast : InAddr) (iface : U32) (is : List Input) :
    Ticking (run step (mshDataInit ip bcast iface) is) := by
  have hhist := historyOk ip bcast iface (ticks (mshDataInit ip bcast iface) is)
  have hfst : (run (recording tick originated) (startMoment ip bcast iface, [])
      (ticks (mshDataInit ip bcast iface) is)).1 = ⟨run step (mshDataInit ip bcast iface) is, []⟩ :=
    (Machine.run_recording_fst originated _ _).trans (run_ticks _ is)
  have hmoment := hhist.moment
  have hpending := hhist.retries.pending
  have hone := hhist.retries.one
  rw [hfst] at hmoment hpending hone
  exact ⟨hmoment.wf, hmoment.timers, ⟨fun e he _ => hpending e he, hone⟩, hpending⟩

/-- Without a pending alarm there is nothing. -/
theorem Ticking.empty (h : Ticking s) (htree : alarmTree s = []) :
    s.routing_table = [] ∧ s.rreq_queue = [] := by
  have hnone : ∀ o, ¬ Pending s o := by
    rintro o ⟨a, ha, -⟩
    rw [htree] at ha
    cases ha
  refine ⟨List.eq_nil_iff_forall_not_mem.2 fun r hr => hnone (.route r.self) ?_,
    List.eq_nil_iff_forall_not_mem.2 fun e he => hnone (.rreq e.self) ?_⟩
  · exact pending_route.2 ⟨r, List.mem_append_left _ hr, rfl, (h.timers r hr).pending⟩
  · exact pending_rreq.2 ⟨e, he, rfl, h.pending e he⟩

/-- A packet waits, or has been dropped. -/
def WaitsOrDropped (e : PacketsFifo) (s : MshData) : Prop :=
  e ∈ s.packets_queue ∨ (e.id, .NF_DROP) ∈ s.os.verdicts

theorem AlarmRun.waitsOrDropped {e : PacketsFifo} (hrun : AlarmRun s t) (h : WaitsOrDropped e s) :
    WaitsOrDropped e t := by
  have hcongr : ∀ u : MshData, u.packets_queue = s.packets_queue → u.os.verdicts = s.os.verdicts →
      WaitsOrDropped e u := by
    intro u hq hv
    rwa [WaitsOrDropped, hq, hv]
  cases hrun with
  | idle hsame => exact hcongr t hsame.packets_queue hsame.verdicts
  | expired _ hexp => exact hcongr t hexp.same.packets_queue hexp.same.verdicts
  | destroyed _ _ _ _ hdel => exact hcongr t hdel.packets_queue hdel.verdicts
  | forgotten _ _ _ ht => exact hcongr t (by rw [ht]; rfl) (by rw [ht]; rfl)
  | retried _ _ _ hret => exact hcongr t hret.packets_queue hret.verdicts
  | gaveUp x _ _ ht =>
    obtain ⟨hq, hv⟩ := packets_rreqFifoGiveUp s x
    rw [WaitsOrDropped, ht, hq, hv]
    rcases h with hwait | hdrop
    · by_cases hdest : e.dest = s.os.freedDst x.self
      · have hmem : e ∈ s.packets_queue.filter (fun y => y.dest = s.os.freedDst x.self) :=
          List.mem_filter.2 ⟨hwait, by simpa using hdest⟩
        exact .inr (List.mem_append_right _
          (List.mem_map_of_mem (f := fun y : PacketsFifo => (y.id, Verdict.NF_DROP)) hmem))
      · exact .inl (List.mem_filter.2 ⟨hwait, by simpa using hdest⟩)
    · exact .inr (List.mem_append_left _ hdrop)

theorem waitsOrDropped_doAlarmRun {e : PacketsFifo} (hwf : Wf s) (h : WaitsOrDropped e s) :
    WaitsOrDropped e (doAlarmRun s) := by
  have hinv := doAlarmRun_invariant (s := s) (I := fun t => Wf t ∧ WaitsOrDropped e t)
    (fun t owner ht => ⟨(runAlarm_cases ht.1 owner).wf ht.1,
      (runAlarm_cases ht.1 owner).waitsOrDropped ht.2⟩) ⟨hwf, h⟩
  exact hinv.2

/-- Alarms that are not due stay as they are. -/
theorem alarmTree_doAlarmRun_of_none (h : alarmRunQueue s = []) :
    doAlarmRun s = s := by
  rw [doAlarmRun, h]
  rfl

section Silent

variable {ω : Nat → Input} {st : Nat → MshData}

/-- An alarm that is pending comes due, and then there is less to do. -/
theorem callbacksLeft_decreases (hstep : ∀ n, st (n + 1) = doAlarmRun ((st n).arrive (ω n)))
    (hok : ∀ n, Ticking (st n)) (hclock : ∀ time n, ∃ m, n ≤ m ∧ time ≤ (ω m).now) {n : Nat}
    (hpending : alarmTree (st n) ≠ []) :
    ∃ m, callbacksLeft (st m) < callbacksLeft (st n) := by
  obtain ⟨a, ha⟩ := List.exists_mem_of_ne_nil _ hpending
  have hless : ∀ k, alarmRunQueue ((st k).arrive (ω k)) ≠ [] →
      callbacksLeft (st (k + 1)) < callbacksLeft (st k) := by
    intro k hne
    have hsum := callbacksLeft_doAlarmRun ((hok k).wf.arrive (ω k))
    have hlen := List.length_pos_of_ne_nil hne
    have hsame : callbacksLeft ((st k).arrive (ω k)) = callbacksLeft (st k) := rfl
    rw [hstep k]
    omega
  have hlasts : ∀ k, a ∈ alarmTree (st k) ∧ callbacksLeft (st k) = callbacksLeft (st n) →
      (a ∈ alarmTree (st (k + 1)) ∧ callbacksLeft (st (k + 1)) = callbacksLeft (st n)) ∨
        callbacksLeft (st (k + 1)) < callbacksLeft (st n) := by
    rintro k ⟨hmem, heq⟩
    by_cases hnone : alarmRunQueue ((st k).arrive (ω k)) = []
    · left
      rw [hstep k, alarmTree_doAlarmRun_of_none hnone]
      exact ⟨hmem, heq⟩
    · right
      rw [← heq]
      exact hless k hnone
  have hhelps : ∀ k, a ∈ alarmTree (st k) ∧ callbacksLeft (st k) = callbacksLeft (st n) →
      a.tv ≤ (ω k).now → callbacksLeft (st (k + 1)) < callbacksLeft (st n) := by
    rintro k ⟨hmem, heq⟩ hdue
    rw [← heq]
    apply hless k
    exact List.ne_nil_of_mem (a := a) (mem_alarmRunQueue.2 ⟨hmem, hdue⟩)
  exact Liveness.leadsTo_of_helpful
    (P := fun s => a ∈ alarmTree s ∧ callbacksLeft s = callbacksLeft (st n))
    (Q := fun s => callbacksLeft s < callbacksLeft (st n)) (H := fun i : Input => a.tv ≤ i.now)
    hlasts hhelps (hclock a.tv) ⟨ha, rfl⟩

/-- Where no alarm is pending, nothing happens any more. -/
theorem alarmTree_stays_empty (hstep : ∀ n, st (n + 1) = doAlarmRun ((st n).arrive (ω n)))
    {n : Nat} (hempty : alarmTree (st n) = []) {m : Nat} (hm : n ≤ m) : alarmTree (st m) = [] := by
  induction m, hm using Nat.le_induction with
  | base => exact hempty
  | succ m _ ih =>
    have hnone : alarmRunQueue ((st m).arrive (ω m)) = [] := by
      refine List.eq_nil_iff_forall_not_mem.2 fun a ha => ?_
      have hmem : a ∈ alarmTree (st m) := (mem_alarmRunQueue.1 ha).1
      rw [ih] at hmem
      cases hmem
    rw [hstep m, alarmTree_doAlarmRun_of_none hnone]
    exact ih

end Silent

section Silent

variable (ip bcast : InAddr) (iface : U32) (is : List Input) (ω : Nat → Input)

theorem ticking_silent (n : Nat) :
    Ticking (Liveness.states step (run step (mshDataInit ip bcast iface) is) ω n) := by
  have hrun := ticking ip bcast iface (is ++ (List.range n).map ω)
  rwa [Machine.run_append, ← Liveness.states_eq_run] at hrun

theorem states_silent (hsilent : ∀ n, (ω n).event = .alarms) (s : MshData) (n : Nat) :
    Liveness.states step s ω (n + 1) = doAlarmRun ((Liveness.states step s ω n).arrive (ω n)) :=
  step_alarms (hsilent n)

/-- The packets that are left. -/
theorem packets_silent {st : Nat → MshData} {ω : Nat → Input}
    (hstep : ∀ n, st (n + 1) = doAlarmRun ((st n).arrive (ω n))) (hok : ∀ n, Ticking (st n))
    (hsilent : ∀ n, (ω n).event = .alarms) (m : Nat) :
    (st m).packets_queue =
      (st 0).packets_queue.filter (fun e => ∀ k < m, e.dest ∉ dropsFor (st k) (ω k)) := by
  induction m with
  | zero => simp
  | succ m ih =>
    rw [hstep m, packets_doAlarmRun (hok m).wf (hsilent m), ih, List.filter_filter]
    refine List.filter_congr fun e _ => ?_
    rw [← Bool.decide_and, decide_eq_decide, Nat.forall_lt_succ_right, and_comm]

/-- From some time on no alarm is pending. -/
theorem alarmTree_silent (hsilent : ∀ n, (ω n).event = .alarms)
    (hclock : ∀ time n, ∃ m, n ≤ m ∧ time ≤ (ω m).now) :
    ∃ n, ∀ m, n ≤ m →
      alarmTree (Liveness.states step (run step (mshDataInit ip bcast iface) is) ω m) = [] := by
  let s := run step (mshDataInit ip bcast iface) is
  have hstep := states_silent ω hsilent s
  have hok : ∀ n, Ticking (Liveness.states step s ω n) := ticking_silent ip bcast iface is ω
  have hnext : ∀ (k n : Nat), callbacksLeft (Liveness.states step s ω n) = k →
      ∃ m, alarmTree (Liveness.states step s ω m) = [] ∨
        ∃ b, b < k ∧ callbacksLeft (Liveness.states step s ω m) = b := by
    intro k n hk
    by_cases hpending : alarmTree (Liveness.states step s ω n) = []
    · exact ⟨n, .inl hpending⟩
    · obtain ⟨m, hm⟩ := callbacksLeft_decreases hstep hok hclock hpending
      exact ⟨m, .inr ⟨_, hk ▸ hm, rfl⟩⟩
  obtain ⟨n, hn⟩ := @Liveness.eventually_of_decreasing MshData Nat (Liveness.states step s ω)
    (· < ·) wellFounded_lt (fun k t => callbacksLeft t = k) (fun t => alarmTree t = [])
    hnext _ 0 rfl
  exact ⟨n, fun m hm => alarmTree_stays_empty hstep hn hm⟩

end Silent

/-- **When nothing is received any more**, and the clock goes on, there comes a time from which on the
    routing table and the buffer are empty and no alarm is pending.  Of the packets that waited those
    are left whose destination has been read from no freed request; the others have been dropped.  If
    no packet was stranded, and no request is given up that strands one, none waits. -/
theorem silence_drains (ip bcast : InAddr) (iface : U32) (is : List Input) (ω : Nat → Input)
    (hsilent : ∀ n, (ω n).event = .alarms) (hclock : ∀ time n, ∃ m, n ≤ m ∧ time ≤ (ω m).now) :
    let s := run step (mshDataInit ip bcast iface) is
    let st := Liveness.states step s ω
    ∃ n, ∀ m, n ≤ m →
      (st m).routing_table = [] ∧ (st m).rreq_queue = [] ∧ alarmTree (st m) = [] ∧
        (st m).packets_queue =
          s.packets_queue.filter (fun e => ∀ k < m, e.dest ∉ dropsFor (st k) (ω k)) ∧
        (∀ e ∈ s.packets_queue,
          e ∈ (st m).packets_queue ∨ (e.id, .NF_DROP) ∈ (st m).os.verdicts) ∧
        (NoStranded s → (∀ k, StrandsNone (st k) (ω k)) → (st m).packets_queue = []) := by
  intro s st
  have hstep : ∀ n, st (n + 1) = doAlarmRun ((st n).arrive (ω n)) := states_silent ω hsilent s
  have hok : ∀ n, Ticking (st n) := ticking_silent ip bcast iface is ω
  have hwf := fun n => (hok n).wf.arrive (ω n)
  obtain ⟨n, hn⟩ := alarmTree_silent ip bcast iface is ω hsilent hclock
  refine ⟨n, fun m hm => ?_⟩
  have hempty := hn m hm
  obtain ⟨htable, hqueue⟩ := (hok m).empty hempty
  refine ⟨htable, hqueue, hempty, ?_, ?_, fun hno hnone => ?_⟩
  · exact packets_silent hstep hok hsilent m
  · intro e he
    have hkept : ∀ k, WaitsOrDropped e (st k) := by
      intro k
      induction k with
      | zero => exact .inl he
      | succ k ih => rw [hstep k]; exact waitsOrDropped_doAlarmRun (hwf k) ih
    exact hkept m
  · have hkept : ∀ k, NoStranded (st k) := by
      intro k
      induction k with
      | zero => exact hno
      | succ k ih => exact (noStranded_step_iff (hok k).wf (hok k).own ih (ω k)).2 (hnone k)
    refine List.eq_nil_iff_forall_not_mem.2 fun e he => ?_
    obtain ⟨x, hx, -⟩ := hkept m e he
    rw [hqueue] at hx
    cases hx

theorem silence_drains_unanswered : ∃ n, ∀ m, n ≤ m →
    let t := Liveness.states step (run step (mshDataInit 0x0A000001 0x0A0000FF 0) [packetForNobody])
      hourly m
    t.packets_queue = [] ∧ (1, .NF_DROP) ∈ t.os.verdicts := by
  obtain ⟨n, hn⟩ := silence_drains 0x0A000001 0x0A0000FF 0 [packetForNobody] hourly (fun _ => rfl)
    (fun time n => ⟨max n time, le_max_left _ _, by
      have hle := le_max_right n time
      show time ≤ 3600000000 * max n time
      omega⟩)
  refine ⟨max n 4, fun m hm => ?_⟩
  obtain ⟨-, -, -, hleft, hall, -⟩ := hn m ((le_max_left n 4).trans hm)
  -- the third of the runs that find an alarm is the last timeout
  have hread : (0x0A000009 : InAddr) ∈ dropsFor (Liveness.states step
      (run step (mshDataInit 0x0A000001 0x0A0000FF 0) [packetForNobody]) hourly 3) (hourly 3) := by
    decide +kernel
  have hqueue : (run step (mshDataInit 0x0A000001 0x0A0000FF 0)
      [packetForNobody]).packets_queue = [⟨1, 0x0A000009⟩] := by decide +kernel
  have hnone : (Liveness.states step (run step (mshDataInit 0x0A000001 0x0A0000FF 0)
      [packetForNobody]) hourly m).packets_queue = [] := by
    rw [hleft, hqueue]
    refine List.filter_eq_nil_iff.2 fun e he hkept => ?_
    obtain rfl := List.mem_singleton.1 he
    exact of_decide_eq_true hkept 3 ((le_max_right n 4).trans hm) hread
  refine ⟨hnone, (hall ⟨1, 0x0A000009⟩ (by rw [hqueue]; exact List.mem_singleton_self _)).resolve_left
    fun hwait => ?_⟩
  rw [hnone] at hwait
  cases hwait

end Meshias
