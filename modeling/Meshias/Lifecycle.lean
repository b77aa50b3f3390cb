import Meshias.Lifetimes
import Meshias.Reachable

/-!
# The life of an entry

An entry is in use until its lifetime ends; then its alarm marks it invalid and is set again, for
`DELETE_PERIOD`, after which it destroys the entry.

* `TimersOk` — every entry has a pending alarm, which does what the flag says.
* `BatchOk` — the callbacks still to run are of different objects, and those that are going to
  destroy an entry have expired.
* `MarkedInvalid` — when an entry was last marked invalid.

Principal results: `Ticked.momentOk`; `Ticked.invalid` — where an invalid entry comes from;
`route_lifecycle`.
-/

set_option autoImplicit false

namespace Meshias

open Machine (run)

variable {s t : MshData} {m n : Moment} {k : Tick}

/-! ## The timers -/

/-- The alarm is pending, and does what the flag says. -/
structure Timer.Ok (τ : Timer) : Prop where
  pending : τ.alarm.node.isSome = true
  action : τ.action = if τ.valid then RTACTION_UNSET_VALID_ENTRY else RTACTION_DESTROY

def TimersOk (s : MshData) : Prop := ∀ r ∈ s.routing_table, r.timer.Ok

theorem Timer.Renewed.ok {now : Nat} {τ : Timer} (h : τ.Renewed now) : τ.Ok := by
  obtain ⟨_, hfor⟩ := h
  exact ⟨hfor.pending, by rw [hfor.action, hfor.valid]; rfl⟩

theorem Ages.timersOk (h : Ages s t) (hs : TimersOk s) : TimersOk t := by
  intro r' hr'
  rcases h.back r' hr' with ⟨r, hr, hage⟩ | ⟨-, hnew⟩
  · rcases hage.timer with hsame | hnew
    · rw [hsame]; exact hs r hr
    · exact hnew.ok
  · exact hnew.ok

/-- Marked invalid just now. -/
def expiredTimer (now rank : Nat) : Timer :=
  ⟨false, RTACTION_DESTROY, ⟨now + DELETE_PERIOD.toNat * 1000, some rank⟩⟩

theorem timer_mshRouteExpire (now rank : Nat) (r : MshRoute) :
    (mshRouteExpire now rank r).timer = expiredTimer now rank := by
  rw [mshRouteExpire_eq]
  simp +decide [MshRoute.timer, expiredTimer, hasFlag_eq]

/-- **The alarm of a route**: an entry in use is marked invalid, one out of use is destroyed, and
    the alarm of a route that was never inserted leaves the table alone. -/
inductive RouteAlarm (s : MshData) (p : Nat) (t : MshData) : Prop where
  | expired (r : MshRoute) (hr : r ∈ s.routing_table) (hself : r.self = p)
      (hvalid : r.hasFlag RTFLAG_VALID_ENTRY = true)
      (ht : t.routing_table = s.routing_table.map (fun x =>
        if x.self = p then mshRouteExpire s.os.now s.alarms (clearNode x) else x))
  | destroyed (r : MshRoute) (hr : r ∈ s.routing_table) (hself : r.self = p)
      (hinvalid : r.hasFlag RTFLAG_VALID_ENTRY = false)
      (ht : t.routing_table = s.routing_table.filter (fun x => x.self ≠ p))
  | stray (habsent : ∀ x ∈ s.routing_table, x.self ≠ p) (ht : t.routing_table = s.routing_table)

theorem routeAlarm (h : Wf s) (hs : TimersOk s) (p : Nat) :
    RouteAlarm s p (runAlarm s (.route p)) := by
  by_cases hp : ∃ r ∈ s.routing_table, r.self = p
  · obtain ⟨r, hr, rfl⟩ := hp
    have haction := (hs r hr).action
    cases hvalid : r.hasFlag RTFLAG_VALID_ENTRY with
    | true =>
      have hact : r.alarm_action = RTACTION_UNSET_VALID_ENTRY := by
        simpa [MshRoute.timer, hvalid] using haction
      exact .expired r hr rfl hvalid (routing_table_runAlarm_unset h hr hact)
    | false =>
      have hact : r.alarm_action = RTACTION_DESTROY := by
        simpa [MshRoute.timer, hvalid] using haction
      exact .destroyed r hr rfl hvalid (routing_table_runAlarm_destroy h hr hact)
  · have habsent : ∀ x ∈ s.routing_table, x.self ≠ p := fun x hx hxp => hp ⟨x, hx, hxp⟩
    exact .stray habsent (routing_table_runAlarm_absent h habsent)

theorem timersOk_runAlarm (h : Wf s) (hs : TimersOk s) (owner : AlarmOwner) :
    TimersOk (runAlarm s owner) := by
  cases owner with
  | rreq p => exact (ages_runAlarm_rreq h p).timersOk hs
  | route p =>
    intro r' hr'
    cases routeAlarm h hs p with
    | expired r _ _ _ ht =>
      rw [ht] at hr'
      obtain ⟨x, hx, rfl⟩ := List.mem_map.1 hr'
      split
      · rw [timer_mshRouteExpire]; exact ⟨rfl, rfl⟩
      · exact hs x hx
    | destroyed r _ _ _ ht =>
      rw [ht] at hr'
      exact hs r' (List.mem_filter.1 hr').1
    | stray _ ht => rw [ht] at hr'; exact hs r' hr'

/-! ## From moment to moment -/

/-- The entry of the object at `p` is in use; it is out of use. -/
def Moment.ValidAt (m : Moment) (p : Nat) : Prop :=
  ∃ r ∈ m.data.routing_table, r.self = p ∧ r.hasFlag RTFLAG_VALID_ENTRY = true

def Moment.InvalidAt (m : Moment) (p : Nat) : Prop :=
  ∃ r ∈ m.data.routing_table, r.self = p ∧ r.hasFlag RTFLAG_VALID_ENTRY = false

/-- The next callback is the one of the entry at `p`. -/
def Moment.Rings (m : Moment) (p : Nat) : Prop :=
  ∃ a rest, m.batch = a :: rest ∧ a.owner = .route p

/-- The callbacks still to run are of different objects, and those that are going to destroy an
    entry have expired. -/
structure BatchOk (m : Moment) : Prop where
  owners : (m.batch.map (·.owner)).Nodup
  expired : ∀ a ∈ m.batch, ∀ r ∈ m.data.routing_table, a.owner = .route r.self →
    r.hasFlag RTFLAG_VALID_ENTRY = false → r.alarm.tv ≤ m.data.os.now

structure MomentOk (m : Moment) : Prop where
  wf : Wf m.data
  timers : TimersOk m.data
  batch : BatchOk m

/-- An entry that only aged into an invalid one is the invalid one it was. -/
theorem Ages.invalid (h : Ages s t) {r' : MshRoute} (hr' : r' ∈ t.routing_table)
    (hinv : r'.hasFlag RTFLAG_VALID_ENTRY = false) :
    ∃ r ∈ s.routing_table, r.self = r'.self ∧ r.timer = r'.timer := by
  have hnot : ¬ r'.timer.Renewed s.os.now := by
    rintro ⟨_, hfor⟩
    have hvalid : r'.hasFlag RTFLAG_VALID_ENTRY = true := hfor.valid
    rw [hinv] at hvalid
    cases hvalid
  rcases h.back r' hr' with ⟨r, hr, hage⟩ | ⟨-, hnew⟩
  · rcases hage.timer with hsame | hnew
    · exact ⟨r, hr, hage.self.symm, hsame.symm⟩
    · exact absurd hnew hnot
  · exact absurd hnew hnot

/-- **What a tick does to the entries**: they age, or the alarm of one of them runs. -/
inductive TableTicked (m : Moment) (k : Tick) (n : Moment) : Prop where
  | aged (s : MshData) (hs : s.routing_table = m.data.routing_table) (h : Ages s n.data)
  | rang (p : Nat) (hk : k = .callback) (hrings : m.Rings p) (h : RouteAlarm m.data p n.data)

theorem Ticked.table (hok : MomentOk m) (hk : Ticked m k n) : TableTicked m k n := by
  cases hk with
  | waiting => exact .aged m.data rfl (.refl _)
  | begun i => exact .aged (m.data.arrive i) rfl (.refl _)
  | turned i _ hev => exact .aged (m.data.arrive i) rfl (ages_step hok.wf hev)
  | called a rest hbatch =>
    cases howner : a.owner with
    | rreq p => exact .aged m.data rfl (ages_runAlarm_rreq hok.wf p)
    | route p =>
      exact .rang p rfl ⟨a, rest, hbatch, howner⟩ (routeAlarm hok.wf hok.timers p)

/-- **Where an invalid entry comes from**: it was there before, or its alarm has just run. -/
theorem Ticked.invalid (hok : MomentOk m) (hk : Ticked m k n) {r' : MshRoute}
    (hr' : r' ∈ n.data.routing_table) (hinv : r'.hasFlag RTFLAG_VALID_ENTRY = false) :
    (∃ r ∈ m.data.routing_table, r.self = r'.self ∧ r.timer = r'.timer) ∨
      k = .callback ∧ (∃ a rest, m.batch = a :: rest ∧ a.owner = .route r'.self) ∧
        m.ValidAt r'.self ∧ r'.alarm.tv = m.data.os.now + DELETE_PERIOD.toNat * 1000 := by
  cases hk.table hok with
  | aged s hs hage => exact .inl (hs ▸ hage.invalid hr' hinv)
  | rang p hcallback hrings hroute =>
    cases hroute with
    | expired r hr hself hvalid ht =>
      rw [ht] at hr'
      obtain ⟨x, hx, rfl⟩ := List.mem_map.1 hr'
      by_cases hxp : x.self = p
      · rw [if_pos hxp] at hinv ⊢
        have hxself : (mshRouteExpire m.data.os.now m.data.alarms (clearNode x)).self = p := hxp
        rw [hxself]
        refine .inr ⟨hcallback, hrings, ⟨r, hr, hself, hvalid⟩, ?_⟩
        rw [mshRouteExpire_eq]
      · rw [if_neg hxp]
        exact .inl ⟨x, hx, rfl, rfl⟩
    | destroyed r _ _ _ ht =>
      rw [ht] at hr'
      exact .inl ⟨r', (List.mem_filter.1 hr').1, rfl, rfl⟩
    | stray _ ht =>
      rw [ht] at hr'
      exact .inl ⟨r', hr', rfl, rfl⟩

theorem valid_of_timer {r r' : MshRoute} (h : r.timer = r'.timer) :
    r.hasFlag RTFLAG_VALID_ENTRY = r'.hasFlag RTFLAG_VALID_ENTRY ∧ r.alarm = r'.alarm :=
  ⟨congrArg Timer.valid h, congrArg Timer.alarm h⟩

theorem now_called (h : Wf m.data) (a : PendingAlarm) :
    (runAlarm m.data a.owner).os.now = m.data.os.now := (runAlarm_cases h a.owner).now

theorem Ticked.batchOk (hok : MomentOk m) (hk : Ticked m k n) : BatchOk n := by
  have hinvalid : ∀ r' ∈ n.data.routing_table, r'.hasFlag RTFLAG_VALID_ENTRY = false → _ :=
    fun r' => hk.invalid hok
  cases hk with
  | waiting => exact hok.batch
  | begun i =>
    have hwf := hok.wf.arrive i
    refine ⟨owners_alarmRunQueue_nodup hwf, fun a ha r hr howner _ => ?_⟩
    obtain ⟨htree, htv⟩ := mem_alarmRunQueue.1 ha
    rw [← tv_of_mem_alarmTree hwf htree hr howner]
    exact htv
  | turned i => exact ⟨List.nodup_nil, fun a ha => absurd ha List.not_mem_nil⟩
  | called a rest hbatch =>
    have howners := hok.batch.owners
    rw [hbatch, List.map_cons, List.nodup_cons] at howners
    refine ⟨howners.2, fun b hb r' hr' howner hinv => ?_⟩
    rw [now_called hok.wf]
    rcases hinvalid r' hr' hinv with ⟨r, hr, hself, htimer⟩ | ⟨-, ⟨a', rest', hbatch', howner'⟩, -, -⟩
    · obtain ⟨hval, halarm⟩ := valid_of_timer htimer
      rw [← halarm]
      refine hok.batch.expired b ?_ r hr (by rw [howner, hself]) (hval.trans hinv)
      rw [hbatch]
      exact List.mem_cons_of_mem _ hb
    · -- the callback that has just run is not in the rest of the batch
      rw [hbatch] at hbatch'
      obtain ⟨rfl, -⟩ := List.cons.inj hbatch'
      refine absurd (List.mem_map_of_mem (f := PendingAlarm.owner) hb) ?_
      rw [howner, ← howner']
      exact howners.1

theorem Ticked.momentOk (hok : MomentOk m) (hk : Ticked m k n) : MomentOk n := by
  refine ⟨hk.wf hok.wf, ?_, hk.batchOk hok⟩
  cases hk with
  | waiting => exact hok.timers
  | begun i => exact hok.timers
  | turned i _ hev => exact (ages_step hok.wf hev).timersOk hok.timers
  | called a rest => exact timersOk_runAlarm hok.wf hok.timers a.owner

theorem momentOk (ip bcast : InAddr) (iface : U32) (ks : List Tick) :
    MomentOk (run tick (startMoment ip bcast iface) ks) := by
  have hstart : MomentOk (startMoment ip bcast iface) :=
    ⟨Wf.init ip bcast iface, fun r hr => absurd hr List.not_mem_nil,
      List.nodup_nil, fun a ha => absurd ha List.not_mem_nil⟩
  exact Machine.run_invariant_always (fun _ k h => (ticked _ k).momentOk h) hstart ks

/-- **How an entry leaves**: by its own alarm, which has expired, while it is out of use. -/
theorem Ticked.leaves (hok : MomentOk m) (hk : Ticked m k n) {r : MshRoute}
    (hr : r ∈ m.data.routing_table) (hgone : ∀ r' ∈ n.data.routing_table, r'.self ≠ r.self) :
    k = .callback ∧ (∃ a rest, m.batch = a :: rest ∧ a.owner = .route r.self) ∧
      r.hasFlag RTFLAG_VALID_ENTRY = false := by
  cases hk.table hok with
  | aged s hs hage =>
    obtain ⟨r', hr', hto⟩ := hage.forth r (hs ▸ hr)
    exact absurd hto.self (hgone r' hr')
  | rang p hcallback hrings hroute =>
    cases hroute with
    | expired x _ _ _ ht =>
      have hmem := List.mem_map_of_mem (f := fun x => if x.self = p then
        mshRouteExpire m.data.os.now m.data.alarms (clearNode x) else x) hr
      refine absurd ?_ (hgone _ (by rw [ht]; exact hmem))
      split
      · exact (keeps_expire _ _).self _
      · rfl
    | destroyed x hx hself hinv ht =>
      by_cases hrp : r.self = p
      · obtain rfl := KeyedList.eq_of_key hok.wf.table_self_nodup hr hx (hrp.trans hself.symm)
        exact ⟨hcallback, hrp ▸ hrings, hinv⟩
      · refine absurd rfl (hgone r ?_)
        rw [ht]
        exact List.mem_filter.2 ⟨hr, by simpa using hrp⟩
    | stray _ ht => exact absurd rfl (hgone r (by rw [ht]; exact hr))

/-! ## When an entry was marked invalid -/

/-- The entry at `p` was in use when a callback ran at `time`, and has been out of use, but in the
    table, ever since. -/
def MarkedInvalid (m₀ : Moment) (ks : List Tick) (p time : Nat) : Prop :=
  ∃ pre post, ks = pre ++ .callback :: post ∧ (run tick m₀ pre).ValidAt p ∧
    (run tick m₀ pre).data.os.now = time ∧
    ∀ mid, mid <+: post → (run tick m₀ (pre ++ .callback :: mid)).InvalidAt p

variable {m₀ : Moment} {ks : List Tick} {p time : Nat}

theorem MarkedInvalid.snoc (h : MarkedInvalid m₀ ks p time)
    (hinv : (run tick m₀ (ks ++ [k])).InvalidAt p) : MarkedInvalid m₀ (ks ++ [k]) p time := by
  obtain ⟨pre, post, rfl, hvalid, htime, hsince⟩ := h
  refine ⟨pre, post ++ [k], by simp, hvalid, htime, fun mid hmid => ?_⟩
  rcases List.prefix_concat_iff.1 (by simpa using hmid) with rfl | hpre
  · simpa using hinv
  · exact hsince mid hpre

/-- The alarm of an invalid entry fires `DELETE_PERIOD` after it was marked. -/
def DeletePeriods (m₀ : Moment) (ks : List Tick) : Prop :=
  ∀ r ∈ (run tick m₀ ks).data.routing_table, r.hasFlag RTFLAG_VALID_ENTRY = false →
    ∃ time, MarkedInvalid m₀ ks r.self time ∧
      r.alarm.tv = time + DELETE_PERIOD.toNat * 1000

theorem deletePeriods (ip bcast : InAddr) (iface : U32) (ks : List Tick) :
    DeletePeriods (startMoment ip bcast iface) ks := by
  induction ks using List.reverseRecOn with
  | nil => exact fun r hr => absurd hr List.not_mem_nil
  | append_singleton ks k ih =>
    intro r' hr' hinv
    have hinvalid : (run tick (startMoment ip bcast iface) (ks ++ [k])).InvalidAt r'.self :=
      ⟨r', hr', rfl, hinv⟩
    have hrun : run tick (startMoment ip bcast iface) (ks ++ [k]) =
        tick (run tick (startMoment ip bcast iface) ks) k := by rw [Machine.run_append]; rfl
    rw [hrun] at hr'
    rcases (ticked _ k).invalid (momentOk ip bcast iface ks) hr' hinv with
      ⟨r, hr, hself, htimer⟩ | ⟨rfl, -, hvalid, htv⟩
    · obtain ⟨hval, halarm⟩ := valid_of_timer htimer
      obtain ⟨time, hmarked, htv⟩ := ih r hr (hval.trans hinv)
      rw [hself] at hmarked
      exact ⟨time, hmarked.snoc hinvalid, by rw [← halarm]; exact htv⟩
    · refine ⟨_, ⟨ks, [], rfl, hvalid, rfl, fun mid hmid => ?_⟩, htv⟩
      rw [List.prefix_nil.1 hmid]
      exact hinvalid

/-! ## The lifecycle -/

/-- Every entry has one pending alarm, and it does what the flag says. -/
structure AlarmsOk (s : MshData) : Prop where
  one : ∀ r ∈ s.routing_table, (alarmTree s).countP (fun a => a.owner = .route r.self) = 1
  unset : ∀ r ∈ s.routing_table,
    r.alarm_action = RTACTION_UNSET_VALID_ENTRY ↔ r.hasFlag RTFLAG_VALID_ENTRY = true
  destroy : ∀ r ∈ s.routing_table,
    r.alarm_action = RTACTION_DESTROY ↔ r.hasFlag RTFLAG_VALID_ENTRY = false

theorem alarmsOk (h : Wf s) (hs : TimersOk s) : AlarmsOk s := by
  have haction : ∀ r ∈ s.routing_table, r.alarm_action =
      if r.hasFlag RTFLAG_VALID_ENTRY then RTACTION_UNSET_VALID_ENTRY else RTACTION_DESTROY :=
    fun r hr => (hs r hr).action
  constructor
  case one =>
    intro r hr
    obtain ⟨a, ha, howner, -⟩ := mem_alarmTree_route hr (hs r hr).pending
    have hcount := List.count_eq_one_of_mem (owners_alarmTree_nodup h)
      (List.mem_map_of_mem (f := PendingAlarm.owner) ha)
    rw [howner, List.count_eq_countP, List.countP_map] at hcount
    rw [← hcount]
    congr 1
  case unset =>
    intro r hr
    rw [haction r hr]
    cases r.hasFlag RTFLAG_VALID_ENTRY <;> decide
  case destroy =>
    intro r hr
    rw [haction r hr]
    cases r.hasFlag RTFLAG_VALID_ENTRY <;> decide

/-- What the alarm of an entry does to it: it is marked invalid and its alarm is set again, or it
    leaves the table. -/
theorem rings_spec (hok : MomentOk m) {r : MshRoute} (hr : r ∈ m.data.routing_table)
    (hrings : m.Rings r.self) :
    if r.hasFlag RTFLAG_VALID_ENTRY then
      ∃ r' ∈ (tick m .callback).data.routing_table, r'.self = r.self ∧
        r'.hasFlag RTFLAG_VALID_ENTRY = false ∧
        r'.alarm.tv = m.data.os.now + DELETE_PERIOD.toNat * 1000
    else ∀ r' ∈ (tick m .callback).data.routing_table, r'.self ≠ r.self := by
  obtain ⟨a, rest, hbatch, howner⟩ := hrings
  rw [tick_callback hbatch, howner]
  cases routeAlarm hok.wf hok.timers r.self with
  | expired x hx hself hvalid ht =>
    obtain rfl := KeyedList.eq_of_key hok.wf.table_self_nodup hx hr hself
    rw [if_pos hvalid, ht]
    refine ⟨_, List.mem_map_of_mem hr, ?_⟩
    have htimer := timer_mshRouteExpire m.data.os.now m.data.alarms (clearNode x)
    rw [if_pos rfl]
    exact ⟨(keeps_expire _ _).self _, congrArg Timer.valid htimer,
      congrArg (fun τ => τ.alarm.tv) htimer⟩
  | destroyed x hx hself hinv ht =>
    obtain rfl := KeyedList.eq_of_key hok.wf.table_self_nodup hx hr hself
    rw [if_neg (by rw [hinv]; exact Bool.false_ne_true), ht]
    intro r' hr'
    simpa using (List.mem_filter.1 hr').2
  | stray habsent _ => exact absurd rfl (habsent r hr)

/-- **The life of an entry.**  At every moment every entry has exactly one pending alarm, which
    marks it invalid if it is in use and destroys it if it is not; it leaves the table only by that
    alarm, out of use for at least `DELETE_PERIOD`; and an alarm run whose time has come runs it. -/
theorem route_lifecycle (ip bcast : InAddr) (iface : U32) (ks : List Tick) :
    let m₀ := startMoment ip bcast iface
    let m := run tick m₀ ks
    AlarmsOk m.data ∧
      (∀ k, ∀ r ∈ m.data.routing_table,
        (∀ r' ∈ (tick m k).data.routing_table, r'.self ≠ r.self) →
          k = .callback ∧ m.Rings r.self ∧ r.alarm_action = RTACTION_DESTROY ∧
            r.hasFlag RTFLAG_VALID_ENTRY = false ∧
            ∃ time, MarkedInvalid m₀ ks r.self time ∧
              time + DELETE_PERIOD.toNat * 1000 ≤ m.data.os.now) ∧
      (∀ r ∈ m.data.routing_table, m.Rings r.self →
        if r.hasFlag RTFLAG_VALID_ENTRY then
          ∃ r' ∈ (tick m .callback).data.routing_table, r'.self = r.self ∧
            r'.hasFlag RTFLAG_VALID_ENTRY = false ∧
            r'.alarm.tv = m.data.os.now + DELETE_PERIOD.toNat * 1000
        else ∀ r' ∈ (tick m .callback).data.routing_table, r'.self ≠ r.self) ∧
      (m.batch = [] → ∀ i : Input, i.event = .alarms → ∀ r ∈ m.data.routing_table,
        r.alarm.tv ≤ i.now → ∃ a ∈ (tick m (.turn i)).batch, a.owner = .route r.self) := by
  intro m₀ m
  have hok : MomentOk m := momentOk ip bcast iface ks
  have halarms := alarmsOk hok.wf hok.timers
  refine ⟨halarms, fun k r hr hgone => ?_, fun r hr hrings => rings_spec hok hr hrings,
    fun hbatch i hev r hr htv => ?_⟩
  · obtain ⟨rfl, hrings, hinv⟩ := (ticked m k).leaves hok hr hgone
    obtain ⟨time, hmarked, htv⟩ := deletePeriods ip bcast iface ks r hr hinv
    obtain ⟨a, rest, hbatch, howner⟩ := hrings
    have hexp := hok.batch.expired a (by rw [hbatch]; exact List.mem_cons_self) r hr howner hinv
    exact ⟨rfl, ⟨a, rest, hbatch, howner⟩, (halarms.destroy r hr).2 hinv, hinv, time, hmarked,
      htv ▸ hexp⟩
  · obtain ⟨a, ha, howner, hatv⟩ := mem_alarmTree_route (s := m.data.arrive i) hr
      (hok.timers r hr).pending
    refine ⟨a, ?_, howner⟩
    rw [tick_alarms hbatch hev]
    exact mem_alarmRunQueue.2 ⟨ha, by rw [hatv]; exact htv⟩

end Meshias
