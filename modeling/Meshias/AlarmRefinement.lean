import Meshias.AlarmCallbacks
import Meshias.DropAccounting

/-!
# A run of the alarms in memory

`do_alarm_run` on the tree of the alarms and on the objects of the buffer, with the callbacks of the
daemon.

* `Layout.call` — a function and its data, as `init_alarm` has stored them.
* `Layout.doAlarmRun` — the two loops.

Principal results: `ring_refines` and `ring_eq_none` — one callback does in memory what `runAlarm` does
to the state, or reads memory that has been freed — and from these `doAlarmRun_meets_memory`, for a
whole run.
-/

set_option autoImplicit false

namespace Meshias

open RedBlack
open RedBlack.RBTree

/-! ## The code -/

def RreqMem.setTree (m : RreqMem) (rb : RbMem) : RreqMem := ⟨{ m.alarms with rb }, m.entries⟩

namespace Layout

variable (fuel : Nat) (L : Layout)

/-- `this->function(this, this->data)`; what is in the other fields of an object, and in the other
    objects, is in the state. -/
def call (s : MshData) (function data : Ptr) (m : RreqMem) : Option (MshData × RreqMem) :=
  if function = L.route_alarm_cb then do
    let route ← (routeObjects s).find? (fun r => L.routeAt r.self = data)
    let alarms ← m.alarms.mshRouteAlarmCb fuel L s route
    return (runAlarm s (.route route.self), { m with alarms })
  else if function = L.rreq_fifo_alarm_cb then do
    let entry ← s.rreq_queue.find? (fun e => L.entryAt e.self = data)
    let m ← m.rreqFifoAlarmCb fuel L s data
    return (runAlarm s (.rreq entry.self), m)
  else none

/-- One turn of the second loop of `do_alarm_run`. -/
def ring (this : Ptr) (s : MshData) (m : RreqMem) : Option (MshData × RreqMem) := do
  let rb ← rbErase fuel m.alarms.rb this
  let rb ← rb.clearNode this
  L.call fuel s (m.alarms.function this) (m.alarms.data this) (m.setTree rb)

def ringAll : List Ptr → MshData → RreqMem → Option (MshData × RreqMem)
  | [], s, m => some (s, m)
  | this :: alarm_run_queue, s, m => do
    let (s, m) ← L.ring fuel this s m
    ringAll alarm_run_queue s m

/-- `do_alarm_run`, up to the time it returns. -/
def doAlarmRun (rounds : Nat) (s : MshData) (m : RreqMem) : Option (MshData × RreqMem) := do
  let node ← rbFirst fuel m.alarms.rb
  let alarm_run_queue ← m.alarms.collectExpired fuel (timevalOf s.os.now) rounds node []
  L.ringAll fuel alarm_run_queue s m

end Layout

/-! ## One alarm -/

/-- The node of an alarm is cleared. -/
def MshData.stopped (s : MshData) : AlarmOwner → MshData
  | .route p => s.modifyRoute p clearNode
  | .rreq p => s.modifyRreq p clearRreq

section Turn

variable {L : Layout} {m : RreqMem} {s : MshData} {o : AlarmOwner} {r : MshRoute} {e : RreqFifo}
variable {fuel : Nat}

theorem Linked.pending {place : AlarmOwner → Ptr} {T : Timetable} (h : Linked place s T)
    (hp : Pending s o) : T.queue.Pending (place o) := by
  obtain ⟨a, ha, rfl⟩ := hp
  rw [h.stamped.pending_iff, List.map_map]
  exact List.mem_map_of_mem (f := Prod.fst ∘ stamp place) ha

theorem Pending.mem_alarmOwners (h : Pending s o) : o ∈ alarmOwners s := by
  obtain ⟨a, ha, rfl⟩ := h
  exact owner_mem ha

theorem alarmOwners_stopped (s : MshData) (o : AlarmOwner) :
    alarmOwners (s.stopped o) = alarmOwners s := by
  cases o with
  | route p => exact alarmOwners_modifyRoute fun _ => rfl
  | rreq p => exact alarmOwners_modifyRreq fun _ => rfl

theorem alarmTree_stopped (s : MshData) (o : AlarmOwner) :
    alarmTree (s.stopped o) = (alarmTree s).filter (fun a => a.owner ≠ o) := by
  cases o with
  | route p => exact alarmTree_clearRoute s p
  | rreq p => exact alarmTree_clearRreq s p

theorem list_stopped (s : MshData) (o : AlarmOwner) :
    (s.stopped o).rreq_queue.map (fun e => (L.entryAt e.self, e.data)) =
      s.rreq_queue.map (fun e => (L.entryAt e.self, e.data)) := by
  cases o with
  | route p => rfl
  | rreq p => exact rreqData_modifyRreq (f := clearRreq) (fun _ => rfl) (fun _ => rfl) s p

/-- The alarm is taken from the tree, and then its function is called with its object. -/
theorem ring_eq_call (h : L.Shows m s) (hp : Pending s o)
    (hfuel : depthBound (alarmOwners s).length + 1 < fuel) :
    ∃ m₁, L.ring fuel (L.place o) s m = L.call fuel s (L.function o) (L.data o) m₁ ∧
      L.Shows m₁ (s.stopped o) := by
  obtain ⟨T, ⟨t, htable⟩, hlink⟩ := h.alarms.table
  have hdepth := enough_rounds hfuel
  rw [← hlink.length] at hdepth
  obtain ⟨rb, rb', hrb, hrb', h'⟩ :=
    rbErase_shows htable (hlink.pending hp) (show _ < fuel by omega)
  have hstop : Linked L.place (s.stopped o) (T.del (L.place o)) :=
    hlink.stop hp.mem_alarmOwners (alarmOwners_stopped s o) (alarmTree_stopped s o)
      (by cases o <;> rfl)
  have hknown : ∀ o' ∈ alarmOwners (s.stopped o), o' ∈ alarmOwners s := by
    rw [alarmOwners_stopped]
    exact fun _ ho' => ho'
  have hshows : L.ShowsAlarms { m.alarms with rb := rb' } (s.stopped o) :=
    h.alarms.to ⟨rfl, rfl⟩ ⟨T.del (L.place o), h', hstop⟩ hknown
  refine ⟨m.setTree rb', ?_, hshows, ?_⟩
  · unfold Layout.ring
    simp only [hrb, hrb', Option.bind_eq_bind, Option.bind_some]
    rw [h.alarms.function o hp.mem_alarmOwners, h.alarms.data o hp.mem_alarmOwners]
  · rw [list_stopped]
    exact h.list

/-- A route is found by its address. -/
theorem find_routeAt (hwf : Wf s) (h : L.Shows m s) (hr : r ∈ routeObjects s) :
    (routeObjects s).find? (fun x => L.routeAt x.self = L.routeAt r.self) = some r := by
  obtain ⟨T, -, hlink⟩ := h.alarms.table
  refine KeyedList.find_place hwf.self_nodup (fun x hx heq => ?_) hr
  exact AlarmOwner.route.inj (hlink.inj _ (owner_route_mem hx) _ (owner_route_mem hr) heq)

/-- An entry of the buffer is found by its address. -/
theorem find_entryAt (hwf : Wf s) (h : L.Shows m s) (he : e ∈ s.rreq_queue) :
    s.rreq_queue.find? (fun x => L.entryAt x.self = L.entryAt e.self) = some e := by
  obtain ⟨T, -, hlink⟩ := h.alarms.table
  refine KeyedList.find_place hwf.rreq_nodup (fun x hx heq => ?_) he
  have hsame := hlink.inj _ (owner_rreq_mem hx) _ (owner_rreq_mem he) (congrArg L.alarmOf heq)
  exact AlarmOwner.rreq.inj hsame

/-- The callback of a route that is in memory. -/
theorem runAlarm_route (hwf : Wf s) (hr : r ∈ routeObjects s) :
    runAlarm s (.route r.self) = mshRouteAlarmCb (s.modifyRoute r.self clearNode) r := by
  have hfind : (s.routing_table ++ s.lost_routes).find? (fun x => x.self = r.self) = some r :=
    (KeyedList.find_key_some hwf.self_nodup).2 ⟨hr, rfl⟩
  rw [runAlarm, hfind]
  rfl

theorem runAlarm_rreq (hwf : Wf s) (he : e ∈ s.rreq_queue) :
    runAlarm s (.rreq e.self) = rreqFifoAlarmCb (s.modifyRreq e.self clearRreq) e := by
  have hfind : s.rreq_queue.find? (fun x => x.self = e.self) = some e :=
    (KeyedList.find_key_some hwf.rreq_nodup).2 ⟨he, rfl⟩
  rw [runAlarm, hfind]
  rfl

/-- **One turn of the loop**, unless a request is given up. -/
theorem ring_refines (hwf : Wf s) (h : L.Shows m s) (hp : Pending s o)
    (hlast : s.ringsLast o = false) (hfuel : depthBound (alarmOwners s).length + 1 < fuel) :
    ∃ m', L.ring fuel (L.place o) s m = some (runAlarm s o, m') ∧ L.Shows m' (runAlarm s o) := by
  obtain ⟨m₁, hring, hstopped⟩ := ring_eq_call h hp hfuel
  rw [hring]
  cases o with
  | route p =>
    obtain ⟨r, hr, rfl, -⟩ := pending_route.1 hp
    obtain ⟨alarms', hcall, hshows⟩ := mshRouteAlarmCb_refines hwf hr hstopped.alarms hfuel
    have hqueue := (runAlarm_route_queues s r.self).1
    rw [← runAlarm_route hwf hr] at hshows
    refine ⟨{ m₁ with alarms := alarms' }, ?_, hshows, ?_⟩
    · unfold Layout.call Layout.function Layout.data
      rw [if_pos rfl, find_routeAt hwf h hr]
      simp only [hcall, Option.bind_eq_bind, Option.bind_some]
      rfl
    · rw [hqueue]
      exact hstopped.list
  | rreq p =>
    obtain ⟨e, he, rfl, -⟩ := pending_rreq.1 hp
    have htries : e.prev_tries < RREQ_RETRIES.toNat := by
      rw [ringsLast_of_mem hwf he, decide_eq_false_iff_not, RreqFifo.AtLastTry] at hlast
      omega
    obtain ⟨m', hcall, hshows⟩ := rreqFifoAlarmCb_refines hwf he hstopped htries hfuel
    rw [← runAlarm_rreq hwf he] at hshows
    refine ⟨m', ?_, hshows⟩
    unfold Layout.call Layout.function Layout.data
    rw [if_neg L.cb_ne.symm, if_pos rfl, find_entryAt hwf h he]
    simp only [hcall, Option.bind_eq_bind, Option.bind_some]
    rfl

/-- **A request that is given up** is read after it has been freed. -/
theorem ring_eq_none (hwf : Wf s) (h : L.Shows m s) (hp : Pending s o)
    (hlast : s.ringsLast o = true) (hfuel : depthBound (alarmOwners s).length + 1 < fuel) :
    L.ring fuel (L.place o) s m = none := by
  obtain ⟨m₁, hring, hstopped⟩ := ring_eq_call h hp hfuel
  rw [hring]
  cases o with
  | route p => cases hlast
  | rreq p =>
    obtain ⟨e, he, rfl, -⟩ := pending_rreq.1 hp
    have htries : RREQ_RETRIES.toNat ≤ e.prev_tries := by
      rw [ringsLast_of_mem hwf he, decide_eq_true_iff, RreqFifo.AtLastTry] at hlast
      omega
    have he' : clearRreq e ∈ (s.stopped (.rreq e.self)).rreq_queue :=
      List.mem_map.2 ⟨e, he, if_pos rfl⟩
    have hcall : RreqMem.rreqFifoAlarmCb fuel L s (L.entryAt e.self) m₁ = none :=
      rreqFifoAlarmCb_eq_none (e := clearRreq e) hstopped he' htries
    unfold Layout.call Layout.function Layout.data
    rw [if_neg L.cb_ne.symm, if_pos rfl, find_entryAt hwf h he, Option.bind_eq_bind,
      Option.bind_some]
    exact congrArg (fun x : Option RreqMem => x.bind _) hcall

/-- No object comes into being. -/
theorem length_alarmOwners_runAlarm (hwf : Wf s) (o : AlarmOwner) :
    (alarmOwners (runAlarm s o)).length ≤ (alarmOwners s).length := by
  have hlen : ∀ t : MshData,
      (alarmOwners t).length = (routeObjects t).length + t.rreq_queue.length := by
    intro t
    rw [alarmOwners, List.length_append, List.length_map, List.length_map]
    rfl
  rw [hlen, hlen]
  cases o with
  | route p =>
    rw [(runAlarm_route_queues s p).1]
    refine Nat.add_le_add_right ?_ _
    cases routeRung hwf p with
    | absent _ hobjs => rw [hobjs]
    | changed _ _ _ f _ _ hobjs => rw [hobjs, List.length_map]
    | destroyed _ _ _ hobjs =>
      rw [hobjs]
      exact List.length_filter_le _ _
  | rreq p =>
    have hselves := congrArg List.length (renews_runAlarm_rreq hwf p).selves
    rw [List.length_map, List.length_map] at hselves
    rw [hselves]
    refine Nat.add_le_add_left ?_ _
    cases rreqAlarm hwf p with
    | absent _ ht => rw [ht]
    | forgotten _ _ _ _ ht =>
      rw [ht]
      exact List.length_filter_le _ _
    | gaveUp _ _ _ _ _ ht =>
      rw [ht]
      exact List.length_filter_le _ _
    | retried _ _ _ _ hret =>
      obtain ⟨rank, hqueue⟩ := hret.rreq_queue
      rw [hqueue, List.length_map]

end Turn

/-! ## A run -/

section Runs

variable {L : Layout} {m : RreqMem} {s : MshData} {o : AlarmOwner} {l : List PendingAlarm}
variable {fuel rounds : Nat}

/-- **The second loop.**  Every alarm is still pending when its turn comes. -/
theorem ringAll_refines (hwf : Wf s) (h : L.Shows m s) (hnodup : (l.map (·.owner)).Nodup)
    (hp : ∀ a ∈ l, Pending s a.owner) (hfuel : depthBound (alarmOwners s).length + 1 < fuel) :
    ((∀ a ∈ l, s.ringsLast a.owner = false) →
      ∃ m', L.ringAll fuel (l.map (fun a => L.place a.owner)) s m = some (rung s l, m') ∧
        L.Shows m' (rung s l)) ∧
    ((∃ a ∈ l, s.ringsLast a.owner = true) →
      L.ringAll fuel (l.map (fun a => L.place a.owner)) s m = none) := by
  induction l generalizing s m with
  | nil => exact ⟨fun _ => ⟨m, rfl, h⟩, fun ⟨_, ha, _⟩ => absurd ha List.not_mem_nil⟩
  | cons a l ih =>
    rw [List.map_cons, List.nodup_cons] at hnodup
    have hfirst := hp a List.mem_cons_self
    have hne : ∀ b ∈ l, b.owner ≠ a.owner :=
      fun b hb heq => hnodup.1 (heq ▸ List.mem_map_of_mem hb)
    cases hlast : s.ringsLast a.owner with
    | true =>
      have hnone := ring_eq_none hwf h hfirst hlast hfuel
      refine ⟨fun hall => ?_, fun _ => ?_⟩
      · rw [hall a List.mem_cons_self] at hlast
        cases hlast
      · rw [List.map_cons, Layout.ringAll, hnone]
        rfl
    | false =>
      obtain ⟨m₁, hring, h₁⟩ := ring_refines hwf h hfirst hlast hfuel
      have hdepth := depthBound_mono (length_alarmOwners_runAlarm hwf a.owner)
      obtain ⟨hall, hany⟩ := ih ((runAlarm_cases hwf a.owner).wf hwf) h₁ hnodup.2
        (fun b hb => pending_runAlarm hwf (hne b hb) (hp b (List.mem_cons_of_mem a hb)))
        (show _ < fuel by omega)
      have hsame : ∀ b ∈ l, (runAlarm s a.owner).ringsLast b.owner = s.ringsLast b.owner :=
        fun b hb => ringsLast_runAlarm hwf (hne b hb).symm
      have hrest : L.ringAll fuel ((a :: l).map (fun a => L.place a.owner)) s m =
          L.ringAll fuel (l.map (fun a => L.place a.owner)) (runAlarm s a.owner) m₁ := by
        rw [List.map_cons, Layout.ringAll, hring]
        rfl
      rw [hrest]
      refine ⟨fun hnone => hall fun b hb => ?_, fun ⟨b, hb, hgiven⟩ => hany ?_⟩
      · rw [hsame b hb]
        exact hnone b (List.mem_cons_of_mem a hb)
      · rcases List.mem_cons.1 hb with rfl | hb
        · rw [hlast] at hgiven
          cases hgiven
        · exact ⟨b, hb, (hsame b hb).trans hgiven⟩

theorem lastTimeouts_eq_nil_iff (hwf : Wf s) :
    s.lastTimeouts s.os.now = [] ↔ ∀ a ∈ alarmRunQueue s, s.ringsLast a.owner = false := by
  rw [← List.length_eq_zero_iff, ← countP_alarmRunQueue hwf, List.countP_eq_zero]
  simp

/-- **`do_alarm_run`** meets the daemon's model exactly if no request is given up. -/
theorem doAlarmRun_meets_memory (hwf : Wf s) (h : L.Shows m s)
    (hfuel : depthBound (alarmOwners s).length + 1 < fuel)
    (hrounds : (alarmOwners s).length < rounds) :
    (s.lastTimeouts s.os.now = [] →
      ∃ m', L.doAlarmRun fuel rounds s m = some (doAlarmRun s, m') ∧ L.Shows m' (doAlarmRun s)) ∧
    (s.lastTimeouts s.os.now ≠ [] → L.doAlarmRun fuel rounds s m = none) := by
  obtain ⟨T, htable, hlink⟩ := h.alarms.table
  have hlen := length_alarmTree_le s
  have hdepth := enough_rounds hfuel
  have hdepth' : depthBound (alarmTree s).length ≤ fuel := by omega
  have hrounds' : (alarmTree s).length < rounds := by omega
  obtain ⟨node, hnode, hqueue⟩ := alarmRunQueue_refines htable hlink (normal_timevalOf s.os.now)
    (micros_timevalOf s.os.now) hdepth' hrounds'
  have hrun : L.doAlarmRun fuel rounds s m =
      L.ringAll fuel ((alarmRunQueue s).map (fun a => L.place a.owner)) s m := by
    unfold Layout.doAlarmRun
    simp only [hnode, hqueue, Option.bind_eq_bind, Option.bind_some]
  obtain ⟨hall, hany⟩ := ringAll_refines hwf h (owners_alarmRunQueue_nodup hwf)
    (fun _ ha => pending_of_mem_alarmRunQueue ha) hfuel
  rw [hrun]
  refine ⟨fun hnone => hall ((lastTimeouts_eq_nil_iff hwf).1 hnone), fun hsome => hany ?_⟩
  by_contra hno
  refine hsome ((lastTimeouts_eq_nil_iff hwf).2 fun a ha => ?_)
  cases hlast : s.ringsLast a.owner with
  | false => rfl
  | true => exact absurd ⟨a, ha, hlast⟩ hno

theorem length_alarmOwners_doAlarmRun (hwf : Wf s) :
    (alarmOwners (doAlarmRun s)).length ≤ (alarmOwners s).length :=
  (doAlarmRun_invariant (I := fun t => Wf t ∧ (alarmOwners t).length ≤ (alarmOwners s).length)
    (fun _ o ht => ⟨(runAlarm_cases ht.1 o).wf ht.1,
      (length_alarmOwners_runAlarm ht.1 o).trans ht.2⟩) ⟨hwf, le_rfl⟩).2

theorem Layout.Shows.arrive (h : L.Shows m s) (i : Input) : L.Shows m (s.arrive i) :=
  ⟨h.alarms.congr rfl rfl rfl, h.list⟩

end Runs

end Meshias
