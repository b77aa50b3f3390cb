import Meshias.RreqMemory
import Meshias.Silence

/-!
# The functions of the alarms in memory

`__msh_route_alarm_cb` and `__rreq_fifo_alarm_cb` on the tree of the alarms and on the objects of the
buffer.  What is in the other objects they read in the state of the daemon.

* `Layout` — where the objects are, and the functions of their alarms.
* `AlarmMem.routingTableUpdateRoute`, `AlarmMem.mshRouteAlarmCb`, `RreqMem.rreqFifoAlarmCb` — the
  source, with every write to an alarm block.
* `Layout.Shows` — the memory shows the alarms and the buffer of a state, and every alarm block has
  its object and its function.

Principal results: `mshRouteAlarmCb_refines`, and for a request `rreqFifoAlarmCb_refines`, as long as
it is not given up, and `rreqFifoAlarmCb_eq_none`: then the entry is read after it has been freed.
-/

set_option autoImplicit false

namespace Meshias

open Pointers (Heap)
open Timers (Queue)

/-! ## The code -/

/-- What `gettimeofday` reads. -/
def timevalOf (now : Nat) : Timeval := ⟨tvSec now, tvUsec now⟩

/-- A route stands at the address of its alarm; an entry of the buffer has its alarm elsewhere. -/
structure Layout where
  routeAt : Nat → Ptr
  entryAt : Nat → Ptr
  alarmOf : Ptr → Ptr
  queue : Ptr
  route_alarm_cb : Ptr
  rreq_fifo_alarm_cb : Ptr
  cb_ne : route_alarm_cb ≠ rreq_fifo_alarm_cb

namespace Layout

variable (L : Layout)

def place : AlarmOwner → Ptr
  | .route p => L.routeAt p
  | .rreq p => L.alarmOf (L.entryAt p)

/-- What `init_alarm` is called with. -/
def data : AlarmOwner → Ptr
  | .route p => L.routeAt p
  | .rreq p => L.entryAt p

def function : AlarmOwner → Ptr
  | .route _ => L.route_alarm_cb
  | .rreq _ => L.rreq_fifo_alarm_cb

end Layout

namespace AlarmMem

variable (fuel : Nat) (L : Layout)

def setAlarm (s : MshData) (alarm : Ptr) (miliseconds : U32) (m : AlarmMem) : Option AlarmMem :=
  let (sc, usc) := setAlarmTime miliseconds
  m.addAlarm fuel (timevalOf s.os.now) alarm sc usc

/-- `msh_route_set_lifetime`. -/
def routeSetLifetime (s : MshData) (route : MshRoute) (lifetime : U32) (m : AlarmMem) :
    Option AlarmMem :=
  if route.hasFlag RTFLAG_UNMANAGED then some m
  else m.setAlarm fuel s (L.routeAt route.self) lifetime

def routingTableRefresh (s : MshData) (route : MshRoute) (addr : InAddr) (m : AlarmMem) :
    Option AlarmMem := do
  let m ← m.routeSetLifetime fuel L s route ACTIVE_ROUTE_TIMEOUT
  let s := s.routeSetLifetime route.self ACTIVE_ROUTE_TIMEOUT
  let next_hop := route.next_hop
  if next_hop ≠ addr then
    match routingTableFindByIp s.routing_table next_hop with
    | some next_hop_route => m.routeSetLifetime fuel L s next_hop_route ACTIVE_ROUTE_TIMEOUT
    | none => return m
  else return m

def routingTableUpdateOrig (s : MshData) (orig_ip : InAddr) (m : AlarmMem) : Option AlarmMem :=
  if orig_ip = 0 then some m else
  match routingTableFindByIp s.routing_table orig_ip with
  | some orig_route => m.routingTableRefresh fuel L s orig_route orig_ip
  | none => some m

/-- `routing_table_update_route`. -/
def routingTableUpdateRoute (s : MshData) (dst_ip orig_ip : InAddr) (m : AlarmMem) :
    Option AlarmMem :=
  if dst_ip ≠ s.ip_addr then
    match routingTableFindByIp s.routing_table dst_ip with
    | none => some m
    | some dst_route =>
      if ¬ dst_route.hasFlag RTFLAG_VALID_ENTRY then some m
      else do
        let m ← m.routingTableRefresh fuel L s dst_route dst_ip
        m.routingTableUpdateOrig fuel L (Meshias.routingTableRefresh s dst_route dst_ip) orig_ip
  else m.routingTableUpdateOrig fuel L s orig_ip

/-- `__msh_route_alarm_cb`; `msh_route_destroy` stops the alarm before it frees the route. -/
def mshRouteAlarmCb (s : MshData) (route : MshRoute) (m : AlarmMem) : Option AlarmMem :=
  if route.alarm_action = RTACTION_UNSET_VALID_ENTRY then
    m.setAlarm fuel s (L.routeAt route.self) DELETE_PERIOD
  else if route.alarm_action = RTACTION_DESTROY then
    m.execAll fuel [.del (L.routeAt route.self), .free (L.routeAt route.self)]
  else some m

end AlarmMem

namespace RreqMem

variable (fuel : Nat) (L : Layout)

/-- `__rreq_fifo_alarm_cb`.  `packets_fifo_drop_packets` is called with the destination of the entry,
    which has been freed. -/
def rreqFifoAlarmCb (s : MshData) (entry : Ptr) (m : RreqMem) : Option RreqMem := do
  let e ← m.entries.cell entry
  let dst := e.data.dst
  if e.data.prev_tries < 0 then m.rreqFifoEntryDelete fuel L.alarmOf entry
  else
    let prev_tries := e.data.prev_tries + 1
    let entries ← m.entries.update entry (Entry.setData ({ · with prev_tries }))
    if prev_tries > RREQ_RETRIES.toNat then
      let m ← rreqFifoEntryDelete fuel L.alarmOf entry { m with entries }
      let _ ← m.entries.cell entry
      return m
    else
      let alarms ← m.alarms.routingTableUpdateRoute fuel L s dst 0
      let alarms ← alarms.setAlarm fuel s (L.alarmOf entry) (binaryExponentialBackoffTime prev_tries)
      -- a request that is repeated is not put into the buffer again
      let s := aodvFindRoute s dst none prev_tries
      let entries ← entries.update entry (Entry.setData ({ · with rreq_id := s.rreq_id }))
      return ⟨alarms, entries⟩

end RreqMem

/-! ## What the memory shows -/

/-- The alarm blocks show the alarms of a state, each with its object and its function. -/
structure Layout.ShowsAlarms (L : Layout) (m : AlarmMem) (s : MshData) : Prop where
  table : ∃ T, m.ShowsTable T ∧ Linked L.place s T
  data : ∀ o ∈ alarmOwners s, m.data (L.place o) = L.data o
  function : ∀ o ∈ alarmOwners s, m.function (L.place o) = L.function o

structure Layout.Shows (L : Layout) (m : RreqMem) (s : MshData) : Prop where
  alarms : L.ShowsAlarms m.alarms s
  list : HoldsList (fun _ => none) m.entries L.queue
    (s.rreq_queue.map (fun e => (L.entryAt e.self, e.data)))

/-- What `init_alarm` has stored is never written again. -/
structure AlarmMem.SameCalls (m m' : AlarmMem) : Prop where
  data : m'.data = m.data
  function : m'.function = m.function

/-- The objects are those from before, the buffer is the same, and no time has passed. -/
structure SameObjects (s t : MshData) : Prop where
  owners : alarmOwners t = alarmOwners s
  rreq_queue : t.rreq_queue = s.rreq_queue
  rreq_id : t.rreq_id = s.rreq_id
  now : t.os.now = s.os.now
  wf : Wf s → Wf t

theorem SameObjects.refl (s : MshData) : SameObjects s s := ⟨rfl, rfl, rfl, rfl, id⟩

theorem SameObjects.trans {s t u : MshData} (h : SameObjects s t) (h' : SameObjects t u) :
    SameObjects s u where
  owners := h'.owners.trans h.owners
  rreq_queue := h'.rreq_queue.trans h.rreq_queue
  rreq_id := h'.rreq_id.trans h.rreq_id
  now := h'.now.trans h.now
  wf hwf := h'.wf (h.wf hwf)

section Blocks

variable {m m' m'' : AlarmMem} {a : Ptr} {fuel : Nat} {now : Timeval}

theorem AlarmMem.SameCalls.trans (h : m.SameCalls m') (h' : m'.SameCalls m'') : m.SameCalls m'' :=
  ⟨h'.data.trans h.data, h'.function.trans h.function⟩

theorem sameCalls_delAlarm (h : m.delAlarm fuel a = some m') : m.SameCalls m' := by
  unfold AlarmMem.delAlarm at h
  obtain ⟨empty, -, h⟩ := Option.bind_eq_some_iff.1 h
  split at h
  · obtain ⟨rb, -, h⟩ := Option.bind_eq_some_iff.1 h
    obtain ⟨rb', -, h⟩ := Option.bind_eq_some_iff.1 h
    cases h
    exact ⟨rfl, rfl⟩
  · cases h
    exact ⟨rfl, rfl⟩

theorem sameCalls_insertAlarm (h : m.insertAlarm fuel a = some m') : m.SameCalls m' := by
  unfold AlarmMem.insertAlarm at h
  obtain ⟨place, -, h⟩ := Option.bind_eq_some_iff.1 h
  obtain ⟨rb, -, h⟩ := Option.bind_eq_some_iff.1 h
  obtain ⟨rb', -, h⟩ := Option.bind_eq_some_iff.1 h
  cases h
  exact ⟨rfl, rfl⟩

theorem sameCalls_addAlarm {sc usc : Nat} (h : m.addAlarm fuel now a sc usc = some m') :
    m.SameCalls m' := by
  unfold AlarmMem.addAlarm at h
  obtain ⟨m₁, hdel, hinsert⟩ := Option.bind_eq_some_iff.1 h
  have hfirst := sameCalls_delAlarm hdel
  have hsecond := sameCalls_insertAlarm hinsert
  exact ⟨hsecond.data.trans hfirst.data, hsecond.function.trans hfirst.function⟩

theorem sameCalls_free (h : m.exec fuel (.free a) = some m') : m.SameCalls m' := by
  obtain ⟨nodes, -, rfl⟩ := Option.map_eq_some_iff.1 h
  exact ⟨rfl, rfl⟩

theorem sameCalls_release (h : m.execAll fuel [.del a, .free a] = some m') : m.SameCalls m' := by
  obtain ⟨m₁, hdel, h⟩ := Option.bind_eq_some_iff.1 h
  obtain ⟨m₂, hfree, h⟩ := Option.bind_eq_some_iff.1 h
  cases h
  exact (sameCalls_delAlarm hdel).trans (sameCalls_free hfree)

end Blocks

theorem normal_timevalOf (now : Nat) : (timevalOf now).Normal := by
  show 0 ≤ (now : Int) % 1000000 ∧ (now : Int) % 1000000 < 1000000
  omega

theorem micros_timevalOf (now : Nat) : (timevalOf now).micros = now := by
  show (now : Int) / 1000000 * 1000000 + (now : Int) % 1000000 = now
  omega

/-- There are no more pending alarms than objects with an alarm. -/
theorem length_alarmTree_le (s : MshData) : (alarmTree s).length ≤ (alarmOwners s).length := by
  rw [alarmTree, alarmOwners, List.length_append, List.length_append, List.length_map,
    List.length_map]
  exact Nat.add_le_add (List.length_filterMap_le _ _) (List.length_filterMap_le _ _)

section Alarms

variable {L : Layout} {m m' : AlarmMem} {s s' : MshData} {o : AlarmOwner} {fuel : Nat}

theorem enough_rounds (hfuel : depthBound (alarmOwners s).length + 1 < fuel) :
    depthBound (alarmTree s).length + 1 < fuel := by
  have hdepth := depthBound_mono (length_alarmTree_le s)
  omega

theorem Layout.ShowsAlarms.to (h : L.ShowsAlarms m s) (hsame : m.SameCalls m')
    (htable : ∃ T, m'.ShowsTable T ∧ Linked L.place s' T)
    (howners : ∀ o ∈ alarmOwners s', o ∈ alarmOwners s) : L.ShowsAlarms m' s' where
  table := htable
  data o ho := by rw [hsame.data, h.data o (howners o ho)]
  function o ho := by rw [hsame.function, h.function o (howners o ho)]

/-- The alarms do not show what else a state says. -/
theorem Layout.ShowsAlarms.congr (h : L.ShowsAlarms m s) (howners : alarmOwners s' = alarmOwners s)
    (htree : alarmTree s' = alarmTree s) (hrank : s'.alarms = s.alarms) : L.ShowsAlarms m s' := by
  obtain ⟨T, htable, hlink⟩ := h.table
  refine h.to ⟨rfl, rfl⟩ ⟨T, htable, howners ▸ hlink.inj, howners ▸ hlink.blocks, ?_, ?_⟩ ?_
  · rw [htree]
    exact hlink.stamped
  · rw [htree, hrank]
    exact hlink.fresh
  · exact fun o ho => howners ▸ ho

/-- **An alarm is set.** -/
theorem Layout.ShowsAlarms.set (h : L.ShowsAlarms m s) (ho : o ∈ alarmOwners s) (ms : U32)
    (howners : alarmOwners s' = alarmOwners s)
    (hperm : (alarmTree s').Perm
      (⟨s.os.now + ms.toNat * 1000, s.alarms, o⟩ :: (alarmTree s).filter (fun a => a.owner ≠ o)))
    (hrank : s'.alarms = s.alarms + 1) (hfuel : depthBound (alarmOwners s).length + 1 < fuel) :
    ∃ m', m.setAlarm fuel s (L.place o) ms = some m' ∧ L.ShowsAlarms m' s' := by
  obtain ⟨T, htable, hlink⟩ := h.table
  obtain ⟨m', T', hm', htable', hlink'⟩ := setAlarm_refines htable hlink ho ms
    (normal_timevalOf s.os.now) (micros_timevalOf s.os.now) howners hperm hrank (enough_rounds hfuel)
  exact ⟨m', hm', h.to (sameCalls_addAlarm hm') ⟨T', htable', hlink'⟩ fun o ho => howners ▸ ho⟩

/-- **An object goes.** -/
theorem Layout.ShowsAlarms.release (h : L.ShowsAlarms m s) (ho : o ∈ alarmOwners s)
    (howners : alarmOwners s' = (alarmOwners s).filter (fun o' => o' ≠ o))
    (htree : alarmTree s' = (alarmTree s).filter (fun a => a.owner ≠ o))
    (hrank : s'.alarms = s.alarms) (hfuel : depthBound (alarmOwners s).length + 1 < fuel) :
    ∃ m', m.execAll fuel [.del (L.place o), .free (L.place o)] = some m' ∧ L.ShowsAlarms m' s' := by
  obtain ⟨T, htable, hlink⟩ := h.table
  obtain ⟨m', T', hm', htable', hlink'⟩ :=
    release_refines htable hlink ho howners htree hrank (enough_rounds hfuel)
  refine ⟨m', hm', h.to (sameCalls_release hm') ⟨T', htable', hlink'⟩ fun o' ho' => ?_⟩
  rw [howners] at ho'
  exact (List.mem_filter.1 ho').1

/-! ## The lifetimes of routes -/

variable {r : MshRoute}

theorem sameObjects_routeSetLifetime (s : MshData) (p : Nat) (lifetime : U32) :
    SameObjects s (s.routeSetLifetime p lifetime) where
  owners := alarmOwners_modifyRoute (keeps_setLifetime s.os.now s.alarms lifetime).self
  rreq_queue := rfl
  rreq_id := rfl
  now := rfl
  wf h := h.routeSetLifetime p lifetime

/-- **`msh_route_set_lifetime`.** -/
theorem routeSetLifetime_refines (hwf : Wf s) (h : L.ShowsAlarms m s) (hr : r ∈ s.routing_table)
    (lifetime : U32) (hfuel : depthBound (alarmOwners s).length + 1 < fuel) :
    ∃ m', m.routeSetLifetime fuel L s r lifetime = some m' ∧
      L.ShowsAlarms m' (s.routeSetLifetime r.self lifetime) := by
  have hmem : r ∈ s.routing_table ++ s.lost_routes := List.mem_append_left _ hr
  have hmanaged := (hwf.entry_ok r hr).managed
  have halarm : (mshRouteSetLifetime s.os.now s.alarms r lifetime).alarm =
      ⟨s.os.now + lifetime.toNat * 1000, some s.alarms⟩ := by
    rw [mshRouteSetLifetime_eq _ _ _ hmanaged]
  have hself := (keeps_setLifetime s.os.now s.alarms lifetime).self r
  rw [AlarmMem.routeSetLifetime, hmanaged]
  exact h.set (owner_route_mem hmem) lifetime (sameObjects_routeSetLifetime s _ _).owners
    (alarmTree_setRoute hwf.self_nodup hmem hself halarm) rfl hfuel

theorem mem_of_findByIp {table : List MshRoute} {addr : InAddr}
    (h : routingTableFindByIp table addr = some r) : r ∈ table :=
  List.mem_of_find?_eq_some h

theorem routingTableRefresh_refines (hwf : Wf s) (h : L.ShowsAlarms m s) (hr : r ∈ s.routing_table)
    (addr : InAddr) (hfuel : depthBound (alarmOwners s).length + 1 < fuel) :
    ∃ m', m.routingTableRefresh fuel L s r addr = some m' ∧
      L.ShowsAlarms m' (routingTableRefresh s r addr) ∧ SameObjects s (routingTableRefresh s r addr) := by
  have hfirst := sameObjects_routeSetLifetime s r.self ACTIVE_ROUTE_TIMEOUT
  obtain ⟨m₁, hm₁, h₁⟩ := routeSetLifetime_refines hwf h hr ACTIVE_ROUTE_TIMEOUT hfuel
  unfold AlarmMem.routingTableRefresh routingTableRefresh
  rw [hm₁, Option.bind_eq_bind, Option.bind_some]
  dsimp only
  by_cases hnext : r.next_hop ≠ addr
  · rw [if_pos hnext, if_pos hnext]
    cases hfind : routingTableFindByIp
        (s.routeSetLifetime r.self ACTIVE_ROUTE_TIMEOUT).routing_table r.next_hop with
    | none => exact ⟨m₁, rfl, h₁, hfirst⟩
    | some q =>
      obtain ⟨m₂, hm₂, h₂⟩ := routeSetLifetime_refines (hfirst.wf hwf) h₁ (mem_of_findByIp hfind)
        ACTIVE_ROUTE_TIMEOUT (hfirst.owners ▸ hfuel)
      exact ⟨m₂, hm₂, h₂, hfirst.trans (sameObjects_routeSetLifetime _ _ _)⟩
  · rw [if_neg hnext, if_neg hnext]
    exact ⟨m₁, rfl, h₁, hfirst⟩

theorem routingTableUpdateOrig_refines (hwf : Wf s) (h : L.ShowsAlarms m s) (orig_ip : InAddr)
    (hfuel : depthBound (alarmOwners s).length + 1 < fuel) :
    ∃ m', m.routingTableUpdateOrig fuel L s orig_ip = some m' ∧
      L.ShowsAlarms m' (routingTableUpdateOrig s orig_ip) ∧
      SameObjects s (routingTableUpdateOrig s orig_ip) := by
  unfold AlarmMem.routingTableUpdateOrig routingTableUpdateOrig
  by_cases hzero : orig_ip = 0
  · rw [if_pos hzero, if_pos hzero]
    exact ⟨m, rfl, h, .refl s⟩
  · rw [if_neg hzero, if_neg hzero]
    cases hfind : routingTableFindByIp s.routing_table orig_ip with
    | none => exact ⟨m, rfl, h, .refl s⟩
    | some r => exact routingTableRefresh_refines hwf h (mem_of_findByIp hfind) orig_ip hfuel

/-- **`routing_table_update_route`.** -/
theorem routingTableUpdateRoute_refines (hwf : Wf s) (h : L.ShowsAlarms m s) (dst_ip orig_ip : InAddr)
    (hfuel : depthBound (alarmOwners s).length + 1 < fuel) :
    ∃ m', m.routingTableUpdateRoute fuel L s dst_ip orig_ip = some m' ∧
      L.ShowsAlarms m' (routingTableUpdateRoute s dst_ip orig_ip).1 ∧
      SameObjects s (routingTableUpdateRoute s dst_ip orig_ip).1 := by
  unfold AlarmMem.routingTableUpdateRoute routingTableUpdateRoute
  by_cases hown : dst_ip ≠ s.ip_addr
  · rw [if_pos hown, if_pos hown]
    cases hfind : routingTableFindByIp s.routing_table dst_ip with
    | none => exact ⟨m, rfl, h, .refl s⟩
    | some r =>
      dsimp only
      by_cases hvalid : ¬ r.hasFlag RTFLAG_VALID_ENTRY
      · rw [if_pos hvalid, if_pos hvalid]
        exact ⟨m, rfl, h.congr rfl rfl rfl, rfl, rfl, rfl, rfl,
          fun hwf => hwf.congr rfl rfl rfl rfl⟩
      · rw [if_neg hvalid, if_neg hvalid]
        obtain ⟨m₁, hm₁, h₁, hfirst⟩ :=
          routingTableRefresh_refines hwf h (mem_of_findByIp hfind) dst_ip hfuel
        obtain ⟨m₂, hm₂, h₂, hsecond⟩ :=
          routingTableUpdateOrig_refines (hfirst.wf hwf) h₁ orig_ip (hfirst.owners ▸ hfuel)
        exact ⟨m₂, by rw [hm₁]; exact hm₂, h₂, hfirst.trans hsecond⟩
  · rw [if_neg hown, if_neg hown]
    exact routingTableUpdateOrig_refines hwf h orig_ip hfuel

/-! ## The alarm of a route -/

/-- **`__msh_route_alarm_cb`**, after the alarm has been taken from the tree. -/
theorem mshRouteAlarmCb_refines (hwf : Wf s) (hr : r ∈ routeObjects s)
    (h : L.ShowsAlarms m (s.modifyRoute r.self clearNode))
    (hfuel : depthBound (alarmOwners s).length + 1 < fuel) :
    ∃ m', m.mshRouteAlarmCb fuel L s r = some m' ∧
      L.ShowsAlarms m' (mshRouteAlarmCb (s.modifyRoute r.self clearNode) r) := by
  have hwf₁ := hwf.modifyRoute r.self keeps_clear
  have howners : alarmOwners (s.modifyRoute r.self clearNode) = alarmOwners s :=
    alarmOwners_modifyRoute fun _ => rfl
  have hmem : clearNode r ∈ routeObjects (s.modifyRoute r.self clearNode) := by
    rw [routeObjects_modifyRoute]
    exact List.mem_map.2 ⟨r, hr, if_pos rfl⟩
  have ho : AlarmOwner.route r.self ∈ alarmOwners (s.modifyRoute r.self clearNode) :=
    owner_route_mem (r := clearNode r) hmem
  unfold AlarmMem.mshRouteAlarmCb mshRouteAlarmCb
  by_cases hunset : r.alarm_action = RTACTION_UNSET_VALID_ENTRY
  · rw [if_pos hunset, if_pos hunset]
    have halarm : (mshRouteExpire s.os.now s.alarms (clearNode r)).alarm =
        ⟨s.os.now + DELETE_PERIOD.toNat * 1000, some s.alarms⟩ := by
      rw [mshRouteExpire_eq]
    have hself := (keeps_expire s.os.now s.alarms).self (clearNode r)
    exact h.set ho DELETE_PERIOD (alarmOwners_modifyRoute (keeps_expire s.os.now s.alarms).self)
      (alarmTree_setRoute (r := clearNode r) hwf₁.self_nodup hmem hself halarm) rfl (howners ▸ hfuel)
  · rw [if_neg hunset, if_neg hunset]
    by_cases hdestroy : r.alarm_action = RTACTION_DESTROY
    · rw [if_pos hdestroy, if_pos hdestroy]
      have hobjs := routeObjects_mshRouteDestroy hwf₁ (r := r) hmem rfl rfl
      have hrest : (mshRouteDestroy (s.modifyRoute r.self clearNode) r).rreq_queue = s.rreq_queue ∧
          (mshRouteDestroy (s.modifyRoute r.self clearNode) r).alarms = s.alarms := by
        unfold mshRouteDestroy
        dsimp only
        split
        · split <;> exact ⟨rfl, rfl⟩
        · exact ⟨rfl, rfl⟩
      refine h.release ho ?_ ?_ hrest.2 (howners ▸ hfuel)
      · rw [filter_alarmOwners_route, alarmOwners, hrest.1]
        exact congrArg (fun l => l.map (fun r : MshRoute => AlarmOwner.route r.self) ++ _) hobjs
      · rw [filter_alarmTree_route, alarmTree, hrest.1]
        exact congrArg (fun l =>
          l.filterMap (fun r : MshRoute => pendingAlarm r.alarm (.route r.self)) ++ _) hobjs
    · rw [if_neg hdestroy, if_neg hdestroy]
      exact ⟨m, rfl, h⟩

end Alarms

/-! ## The alarm of a request -/

section Requests

variable {L : Layout} {m m' : RreqMem} {s t : MshData} {e : RreqFifo} {entry : Ptr} {fuel : Nat}

/-- **A write to one entry**, in memory and in the daemon's buffer. -/
theorem list_modifyRreq {entries : ListMem RreqData} {f : RreqFifo → RreqFifo}
    {g : RreqData → RreqData}
    (h : HoldsList (fun _ => none) entries L.queue
      (s.rreq_queue.map (fun e => (L.entryAt e.self, e.data))))
    (he : e ∈ s.rreq_queue) (hself : ∀ x, (f x).self = x.self) (hdata : ∀ x, (f x).data = g x.data) :
    ∃ entries', entries.update (L.entryAt e.self) (Entry.setData g) = some entries' ∧
      HoldsList (fun _ => none) entries' L.queue
        ((s.modifyRreq e.self f).rreq_queue.map (fun e => (L.entryAt e.self, e.data))) := by
  have hfst : (s.rreq_queue.map (fun e => (L.entryAt e.self, e.data))).map Prod.fst =
      s.rreq_queue.map (fun e => L.entryAt e.self) := by
    rw [List.map_map]
    rfl
  have hnodup := (List.nodup_cons.1 h.ring.nodup).2
  rw [hfst] at hnodup
  have hp : L.entryAt e.self ∈ (s.rreq_queue.map (fun e => (L.entryAt e.self, e.data))).map Prod.fst := by
    rw [hfst]
    exact List.mem_map_of_mem (f := fun e : RreqFifo => L.entryAt e.self) he
  obtain ⟨entries', hupdate, h'⟩ := h.setData hp g
  refine ⟨entries', hupdate, ?_⟩
  rw [MshData.modifyRreq_rreq_queue, List.map_map]
  rw [List.map_map] at h'
  have hsame : s.rreq_queue.map ((fun e => (L.entryAt e.self, e.data)) ∘
        fun x => if x.self = e.self then f x else x) =
      s.rreq_queue.map ((fun x : Ptr × RreqData => if x.1 = L.entryAt e.self then (x.1, g x.2) else x) ∘
        fun e => (L.entryAt e.self, e.data)) := by
    refine List.map_congr_left fun x hx => ?_
    simp only [Function.comp_apply]
    by_cases hxe : x.self = e.self
    · rw [if_pos hxe, if_pos (by rw [hxe]), hself, hdata]
    · have hne : L.entryAt x.self ≠ L.entryAt e.self := by
        intro heq
        exact hxe (congrArg RreqFifo.self (List.inj_on_of_nodup_map hnodup hx he heq))
      rw [if_neg hxe, if_neg hne]
  rw [hsame]
  exact h'

/-- What is not in the entries in memory may be written without them. -/
theorem rreqData_modifyRreq {f : RreqFifo → RreqFifo} (hself : ∀ x, (f x).self = x.self)
    (hdata : ∀ x, (f x).data = x.data) (s : MshData) (p : Nat) :
    (s.modifyRreq p f).rreq_queue.map (fun e => (L.entryAt e.self, e.data)) =
      s.rreq_queue.map (fun e => (L.entryAt e.self, e.data)) := by
  rw [MshData.modifyRreq_rreq_queue, List.map_map]
  refine List.map_congr_left fun x _ => ?_
  simp only [Function.comp_apply]
  split
  · rw [hself, hdata]
  · rfl

theorem sameCalls_entryDelete (h : m.rreqFifoEntryDelete fuel L.alarmOf entry = some m') :
    m.alarms.SameCalls m'.alarms ∧ m'.entries.cell entry = none := by
  unfold RreqMem.rreqFifoEntryDelete at h
  obtain ⟨alarms, hdel, h⟩ := Option.bind_eq_some_iff.1 h
  obtain ⟨entries, -, h⟩ := Option.bind_eq_some_iff.1 h
  obtain ⟨entries', hentries, h⟩ := Option.bind_eq_some_iff.1 h
  obtain ⟨alarms', hfree, h⟩ := Option.bind_eq_some_iff.1 h
  cases h
  refine ⟨(sameCalls_delAlarm hdel).trans (sameCalls_free hfree), ?_⟩
  obtain ⟨x, -, rfl⟩ := Option.map_eq_some_iff.1 hentries
  exact if_pos rfl

/-- **`__rreq_fifo_entry_delete`.** -/
theorem Layout.Shows.entryDelete (hwf : Wf s) (h : L.Shows m s) (he : e ∈ s.rreq_queue)
    (hfuel : depthBound (alarmOwners s).length + 1 < fuel) :
    ∃ m', m.rreqFifoEntryDelete fuel L.alarmOf (L.entryAt e.self) = some m' ∧
      L.Shows m' (rreqFifoEntryDelete s e.self) := by
  obtain ⟨T, htable, hlink⟩ := h.alarms.table
  obtain ⟨u, v, hqueue⟩ := List.append_of_mem he
  obtain ⟨m', T', hm', h', -⟩ := entryDelete_refines hwf
    ⟨htable, hlink, h.list, fun _ _ => rfl⟩ hqueue (enough_rounds hfuel)
  refine ⟨m', hm', h.alarms.to (sameCalls_entryDelete hm').1 ⟨T', h'.alarms, h'.linked⟩ ?_, h'.list⟩
  intro o ho
  have howners : alarmOwners (rreqFifoEntryDelete s e.self) =
      (alarmOwners s).filter (fun o => o ≠ .rreq e.self) := by
    rw [filter_alarmOwners_rreq]
    rfl
  rw [howners] at ho
  exact (List.mem_filter.1 ho).1

theorem setAlarm_congr (hnow : t.os.now = s.os.now) (m : AlarmMem) (alarm : Ptr) (ms : U32) :
    m.setAlarm fuel t alarm ms = m.setAlarm fuel s alarm ms := by
  simp only [AlarmMem.setAlarm, hnow]

/-- What the refresh reads in the state. -/
theorem routingTableRefresh_congr (htable : t.routing_table = s.routing_table)
    (hrank : t.alarms = s.alarms) (hnow : t.os.now = s.os.now) (m : AlarmMem) (r : MshRoute)
    (addr : InAddr) :
    m.routingTableRefresh fuel L t r addr = m.routingTableRefresh fuel L s r addr := by
  have hset : ∀ {s t : MshData} (m : AlarmMem) (r : MshRoute) (lifetime : U32),
      t.os.now = s.os.now →
        m.routeSetLifetime fuel L t r lifetime = m.routeSetLifetime fuel L s r lifetime := by
    intro s t m r lifetime hnow
    simp only [AlarmMem.routeSetLifetime, setAlarm_congr hnow]
  have hnew : (t.routeSetLifetime r.self ACTIVE_ROUTE_TIMEOUT).routing_table =
      (s.routeSetLifetime r.self ACTIVE_ROUTE_TIMEOUT).routing_table := by
    simp only [MshData.routeSetLifetime_routing_table, MshData.modifyRoute_routing_table, htable,
      hrank, hnow]
  have hnow' : (t.routeSetLifetime r.self ACTIVE_ROUTE_TIMEOUT).os.now =
      (s.routeSetLifetime r.self ACTIVE_ROUTE_TIMEOUT).os.now := hnow
  unfold AlarmMem.routingTableRefresh
  simp only [hset m r _ hnow, hnew, hset _ _ _ hnow']

theorem routingTableUpdateRoute_congr (htable : t.routing_table = s.routing_table)
    (hip : t.ip_addr = s.ip_addr) (hrank : t.alarms = s.alarms) (hnow : t.os.now = s.os.now)
    (m : AlarmMem) (dst_ip : InAddr) :
    m.routingTableUpdateRoute fuel L t dst_ip 0 = m.routingTableUpdateRoute fuel L s dst_ip 0 := by
  have hnone : ∀ (s : MshData) (m : AlarmMem), m.routingTableUpdateOrig fuel L s 0 = some m :=
    fun _ _ => if_pos rfl
  unfold AlarmMem.routingTableUpdateRoute
  simp only [htable, hip, routingTableRefresh_congr htable hrank hnow, hnone]

/-- A request of the node that is repeated is not put into the buffer. -/
theorem aodvFindRoute_again (s : MshData) (dest : InAddr) {prev_tries : Int} (h : prev_tries ≠ 0) :
    (aodvFindRoute s dest none prev_tries).rreq_queue = s.rreq_queue ∧
      alarmOwners (aodvFindRoute s dest none prev_tries) = alarmOwners s ∧
      alarmTree (aodvFindRoute s dest none prev_tries) = alarmTree s ∧
      (aodvFindRoute s dest none prev_tries).alarms = s.alarms ∧
      (aodvFindRoute s dest none prev_tries).rreq_id = s.rreq_id + 1 := by
  unfold aodvFindRoute
  simp only [if_neg h, alarmOwners, alarmTree, aodvPktSend_routing_table, aodvPktSend_lost_routes,
    aodvPktSend_rreq_queue, aodvPktSend_alarms, aodvPktSend_rreq_id, MshData.incSeqNum_routing_table,
    MshData.incSeqNum_lost_routes, MshData.incSeqNum_rreq_queue, MshData.incSeqNum_alarms,
    MshData.incSeqNum_rreq_id, and_self]

/-- The alarm of a request is set again. -/
theorem rreqSetAlarm_refines {m : AlarmMem} (hwf : Wf s) (h : L.ShowsAlarms m s)
    (he : e ∈ s.rreq_queue) (ms : U32) (hfuel : depthBound (alarmOwners s).length + 1 < fuel) :
    ∃ m', m.setAlarm fuel s (L.alarmOf (L.entryAt e.self)) ms = some m' ∧
      L.ShowsAlarms m' { s.modifyRreq e.self ({ · with
        alarm := addAlarm s.os.now s.alarms (setAlarmTime ms).1 (setAlarmTime ms).2 }) with
          alarms := s.alarms + 1 } := by
  let reset : RreqFifo → RreqFifo := ({ · with
    alarm := addAlarm s.os.now s.alarms (setAlarmTime ms).1 (setAlarmTime ms).2 })
  have howners : alarmOwners (s.modifyRreq e.self reset) = alarmOwners s :=
    alarmOwners_modifyRreq fun _ => rfl
  have halarm : (reset e).alarm = ⟨s.os.now + ms.toNat * 1000, some s.alarms⟩ :=
    addAlarm_setAlarmTime _ _ _
  exact h.set (owner_rreq_mem he) ms howners (alarmTree_setRreq hwf.rreq_nodup he rfl halarm) rfl
    hfuel

/-- What a try takes from the entry. -/
theorem rreqFifoRetry_congr {e' : RreqFifo} (hself : e'.self = e.self) (hdst : e'.dst = e.dst)
    (s : MshData) (prev_tries : Int) :
    rreqFifoRetry s e' prev_tries = rreqFifoRetry s e prev_tries := by
  unfold rreqFifoRetry
  rw [hself, hdst]

/-- A write to one entry that leaves its alarm as it is. -/
theorem Layout.Shows.write {f : RreqFifo → RreqFifo} {g : RreqData → RreqData} (h : L.Shows m s)
    (he : e ∈ s.rreq_queue) (hself : ∀ x, (f x).self = x.self) (halarm : ∀ x, (f x).alarm = x.alarm)
    (hdata : ∀ x, (f x).data = g x.data) :
    ∃ entries', m.entries.update (L.entryAt e.self) (Entry.setData g) = some entries' ∧
      L.Shows ⟨m.alarms, entries'⟩ (s.modifyRreq e.self f) := by
  obtain ⟨entries', hupdate, hlist⟩ := list_modifyRreq h.list he hself hdata
  exact ⟨entries', hupdate, h.alarms.congr (alarmOwners_modifyRreq hself)
    (alarmTree_modifyRreq hself halarm) rfl, hlist⟩

/-- What a try does to the alarms: what is known about the destination is refreshed, and the alarm of
    the request is set again. -/
def rearmed (s : MshData) (e : RreqFifo) (ms : U32) : MshData :=
  let s := (routingTableUpdateRoute s e.dst 0).1
  { s.modifyRreq e.self ({ · with
    alarm := addAlarm s.os.now s.alarms (setAlarmTime ms).1 (setAlarmTime ms).2 }) with
      alarms := s.alarms + 1 }

theorem rearmed_refines (hwf : Wf s) (h : L.Shows m s) {x : RreqFifo} (hx : x ∈ s.rreq_queue)
    (hself : x.self = e.self) (ms : U32) (hfuel : depthBound (alarmOwners s).length + 1 < fuel) :
    ∃ alarms₁ alarms₂, m.alarms.routingTableUpdateRoute fuel L s e.dst 0 = some alarms₁ ∧
      alarms₁.setAlarm fuel s (L.alarmOf (L.entryAt e.self)) ms = some alarms₂ ∧
      L.Shows ⟨alarms₂, m.entries⟩ (rearmed s e ms) ∧ (rearmed s e ms).rreq_id = s.rreq_id ∧
      ∃ x ∈ (rearmed s e ms).rreq_queue, x.self = e.self := by
  obtain ⟨alarms₁, halarms₁, hshows₁, hobjs⟩ :=
    routingTableUpdateRoute_refines hwf h.alarms e.dst 0 hfuel
  unfold rearmed
  generalize (routingTableUpdateRoute s e.dst 0).1 = t at hshows₁ hobjs ⊢
  rw [← hobjs.rreq_queue] at hx
  obtain ⟨alarms₂, halarms₂, hshows₂⟩ := rreqSetAlarm_refines (hobjs.wf hwf) hshows₁ hx ms
    (hobjs.owners ▸ hfuel)
  rw [setAlarm_congr hobjs.now, hself] at halarms₂
  rw [hself] at hshows₂
  refine ⟨alarms₁, alarms₂, halarms₁, halarms₂, ⟨hshows₂, ?_⟩, hobjs.rreq_id, ?_⟩
  · have hlist : HoldsList (fun _ => none) m.entries L.queue
        (t.rreq_queue.map (fun e => (L.entryAt e.self, e.data))) := by
      rw [hobjs.rreq_queue]
      exact h.list
    rw [← rreqData_modifyRreq (f := ({ · with
      alarm := addAlarm t.os.now t.alarms (setAlarmTime ms).1 (setAlarmTime ms).2 }))
      (fun _ => rfl) (fun _ => by simp only [RreqFifo.data]) t e.self] at hlist
    exact hlist
  · exact ⟨_, List.mem_map.2 ⟨x, hx, if_pos hself⟩, hself⟩

/-- **One more try.** -/
theorem rreqFifoRetry_refines (hwf : Wf s) (h : L.Shows m s) (he : e ∈ s.rreq_queue)
    {prev_tries : Int} (hagain : prev_tries ≠ 0)
    (hfuel : depthBound (alarmOwners s).length + 1 < fuel) :
    ∃ entries₁ alarms₁ alarms₂ entries₂,
      m.entries.update (L.entryAt e.self) (Entry.setData ({ · with prev_tries })) = some entries₁ ∧
      m.alarms.routingTableUpdateRoute fuel L s e.dst 0 = some alarms₁ ∧
      alarms₁.setAlarm fuel s (L.alarmOf (L.entryAt e.self))
        (binaryExponentialBackoffTime prev_tries) = some alarms₂ ∧
      entries₁.update (L.entryAt e.self)
        (Entry.setData ({ · with rreq_id := s.rreq_id + 1 })) = some entries₂ ∧
      L.Shows ⟨alarms₂, entries₂⟩ (rreqFifoRetry s e prev_tries) := by
  let s₁ := s.modifyRreq e.self ({ · with prev_tries })
  let s₂ := rearmed s₁ e (binaryExponentialBackoffTime prev_tries)
  let s₃ := aodvFindRoute s₂ e.dst none prev_tries
  have hretry : rreqFifoRetry s e prev_tries = s₃.modifyRreq e.self ({ · with rreq_id := s₃.rreq_id }) :=
    rfl
  rw [hretry]
  -- the tries are counted
  obtain ⟨entries₁, hentries₁, h₁⟩ := h.write (f := ({ · with prev_tries }))
    (g := ({ · with prev_tries })) he (fun _ => rfl) (fun _ => rfl) (fun _ => rfl)
  have hwf₁ : Wf s₁ := wf_modifyRreq hwf e.self fun _ => rfl
  have howners₁ : alarmOwners s₁ = alarmOwners s := alarmOwners_modifyRreq fun _ => rfl
  have hx₁ : ({ e with prev_tries } : RreqFifo) ∈ s₁.rreq_queue :=
    List.mem_map.2 ⟨e, he, if_pos rfl⟩
  obtain ⟨alarms₁, alarms₂, halarms₁, halarms₂, h₂, hid₂, x, hx, hself⟩ :=
    rearmed_refines (e := e) hwf₁ h₁ hx₁ rfl (binaryExponentialBackoffTime prev_tries) (howners₁ ▸ hfuel)
  rw [routingTableUpdateRoute_congr (t := s₁) (s := s) rfl rfl rfl rfl] at halarms₁
  rw [setAlarm_congr (t := s₁) (s := s) rfl] at halarms₂
  -- the request is sent again
  obtain ⟨hqueue₃, howners₃, htree₃, hrank₃, hid₃⟩ := aodvFindRoute_again s₂ e.dst hagain
  have h₃ : L.Shows ⟨alarms₂, entries₁⟩ s₃ := by
    refine ⟨h₂.alarms.congr howners₃ htree₃ hrank₃, ?_⟩
    rw [hqueue₃]
    exact h₂.list
  rw [← hqueue₃] at hx
  obtain ⟨entries₂, hentries₂, h₄⟩ := h₃.write (f := ({ · with rreq_id := s₃.rreq_id }))
    (g := ({ · with rreq_id := s₃.rreq_id })) hx (fun _ => rfl) (fun _ => rfl) (fun _ => rfl)
  have hid : s₃.rreq_id = s.rreq_id + 1 := by
    rw [hid₃, hid₂]
    rfl
  rw [hself, hid] at hentries₂
  rw [hself] at h₄
  exact ⟨entries₁, alarms₁, alarms₂, entries₂, hentries₁, halarms₁, halarms₂, hentries₂, h₄⟩

/-- An entry is at its address. -/
theorem Layout.Shows.cell (h : L.Shows m s) (he : e ∈ s.rreq_queue) :
    ∃ x, m.entries.cell (L.entryAt e.self) = some x ∧ x.data = e.data := by
  have hmem : (L.entryAt e.self, e.data) ∈ s.rreq_queue.map (fun e => (L.entryAt e.self, e.data)) :=
    List.mem_map_of_mem (f := fun e : RreqFifo => (L.entryAt e.self, e.data)) he
  exact Option.map_eq_some_iff.1 (h.list.data _ hmem)

/-- **`__rreq_fifo_alarm_cb`**, after the alarm has been taken from the tree, as long as the request
    is not given up. -/
theorem rreqFifoAlarmCb_refines (hwf : Wf s) (he : e ∈ s.rreq_queue)
    (h : L.Shows m (s.modifyRreq e.self clearRreq)) (htries : e.prev_tries < RREQ_RETRIES.toNat)
    (hfuel : depthBound (alarmOwners s).length + 1 < fuel) :
    ∃ m', m.rreqFifoAlarmCb fuel L s (L.entryAt e.self) = some m' ∧
      L.Shows m' (rreqFifoAlarmCb (s.modifyRreq e.self clearRreq) e) := by
  let s₁ := s.modifyRreq e.self clearRreq
  have hwf₁ : Wf s₁ := wf_modifyRreq hwf e.self fun _ => rfl
  have howners : alarmOwners s₁ = alarmOwners s := alarmOwners_modifyRreq fun _ => rfl
  have he₁ : clearRreq e ∈ s₁.rreq_queue := List.mem_map.2 ⟨e, he, if_pos rfl⟩
  obtain ⟨x, hcell, hdata⟩ := h.cell he₁
  have hprev : x.data.prev_tries = e.prev_tries := congrArg RreqData.prev_tries hdata
  have hdst : x.data.dst = e.dst := congrArg RreqData.dst hdata
  have hcell' : m.entries.cell (L.entryAt e.self) = some x := hcell
  unfold RreqMem.rreqFifoAlarmCb rreqFifoAlarmCb
  rw [hcell', Option.bind_eq_bind, Option.bind_some, hprev, hdst]
  by_cases hext : e.prev_tries < 0
  · rw [if_pos hext, if_pos hext]
    exact h.entryDelete (e := clearRreq e) hwf₁ he₁ (howners ▸ hfuel)
  · have hlast : ¬ e.prev_tries + 1 > RREQ_RETRIES.toNat := by omega
    have hagain : e.prev_tries + 1 ≠ 0 := by omega
    obtain ⟨entries₁, alarms₁, alarms₂, entries₂, h₁, h₂, h₃, h₄, h'⟩ :=
      rreqFifoRetry_refines (e := clearRreq e) hwf₁ h he₁ hagain (howners ▸ hfuel)
    have hid := (aodvFindRoute_again s e.dst hagain).2.2.2.2
    have hcongr : rreqFifoRetry s₁ (clearRreq e) (e.prev_tries + 1) =
        rreqFifoRetry s₁ e (e.prev_tries + 1) := rreqFifoRetry_congr rfl rfl s₁ _
    rw [hcongr] at h'
    rw [if_neg hext, if_neg hext, if_neg hlast]
    refine ⟨⟨alarms₂, entries₂⟩, ?_, h'⟩
    have hread : m.entries.update (L.entryAt e.self)
        (Entry.setData ({ · with prev_tries := e.prev_tries + 1 })) = some entries₁ := h₁
    rw [routingTableUpdateRoute_congr (t := s₁) (s := s) rfl rfl rfl rfl] at h₂
    have hrefresh : m.alarms.routingTableUpdateRoute fuel L s e.dst 0 = some alarms₁ := h₂
    rw [setAlarm_congr (t := s₁) (s := s) rfl] at h₃
    have hset : alarms₁.setAlarm fuel s (L.alarmOf (L.entryAt e.self))
        (binaryExponentialBackoffTime (e.prev_tries + 1)) = some alarms₂ := h₃
    have hwrite : entries₁.update (L.entryAt e.self)
        (Entry.setData ({ · with rreq_id := s.rreq_id + 1 })) = some entries₂ := h₄
    simp only [hread, hrefresh, hset, hid, hwrite, if_neg hlast, Option.bind_eq_bind,
      Option.bind_some]
    rfl

/-- **A request that is given up** is read after it has been freed. -/
theorem rreqFifoAlarmCb_eq_none (h : L.Shows m s) (he : e ∈ s.rreq_queue)
    (htries : RREQ_RETRIES.toNat ≤ e.prev_tries) :
    m.rreqFifoAlarmCb fuel L t (L.entryAt e.self) = none := by
  obtain ⟨x, hcell, hdata⟩ := h.cell he
  have hprev : x.data.prev_tries = e.prev_tries := congrArg RreqData.prev_tries hdata
  have hext : ¬ e.prev_tries < 0 := by omega
  have hlast : e.prev_tries + 1 > RREQ_RETRIES.toNat := by omega
  unfold RreqMem.rreqFifoAlarmCb
  rw [hcell, Option.bind_eq_bind, Option.bind_some, hprev, if_neg hext]
  refine Option.eq_none_iff_forall_ne_some.2 fun m' hm' => ?_
  obtain ⟨entries, -, hm'⟩ := Option.bind_eq_some_iff.1 hm'
  rw [if_pos hlast] at hm'
  obtain ⟨m₁, hdelete, hm'⟩ := Option.bind_eq_some_iff.1 hm'
  obtain ⟨y, hread, -⟩ := Option.bind_eq_some_iff.1 hm'
  rw [(sameCalls_entryDelete hdelete).2] at hread
  cases hread

end Requests

end Meshias
