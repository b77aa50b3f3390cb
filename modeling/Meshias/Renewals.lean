import Meshias.GivingUp
import Meshias.Lifecycle

/-!
# Lifetimes that are renewed inside an alarm run

`do_alarm_run` collects the expired alarms before it runs their callbacks, the latest first.  The
callback of a request that is tried again calls `routing_table_update_route`, which renews the
lifetime of a usable route; if the alarm of that route is in the same batch, its callback still
runs, and marks the route invalid.

* `SetsLifetime` — a tick sets the lifetime of an entry.
* `LifetimesHonoured` — an entry whose lifetime was set, and not set again, is in use until its end.
* `RenewsWaiting` — the next callback is that of a retry, and renews an entry whose own callback is
  still to run.
* `LifetimesKept` — the same as `LifetimesHonoured` for one tick: no entry goes out of use before
  the time of its alarm.

Principal results: `lifetimesHonoured_iff`; `renewed_route_expires`.
-/

set_option autoImplicit false

namespace Meshias

open Machine (run StepsMeet)

variable {s t : MshData} {m n : Moment} {k : Tick}

/-! ## The property -/

/-- The tick sets the lifetime of the entry at `p`; its timer is not the one it had. -/
def SetsLifetime (m : Moment) (k : Tick) (p : Nat) (lifetime : U32) : Prop :=
  ∃ r' ∈ (tick m k).data.routing_table, r'.self = p ∧
    r'.timer.RenewedFor (tick m k).data.os.now lifetime ∧
    ∀ r ∈ m.data.routing_table, r.self = p → r.timer ≠ r'.timer

/-- The ticks `mid` do not set the lifetime of the entry at `p`. -/
def NotSetAgain (m : Moment) (mid : List Tick) (p : Nat) : Prop :=
  ∀ later k, later ++ [k] <+: mid → ∀ lifetime, ¬ SetsLifetime (run tick m later) k p lifetime

/-- The clock stays before `time`. -/
def ClockBefore (m : Moment) (mid : List Tick) (time : Nat) : Prop :=
  ∀ later, later <+: mid → (run tick m later).data.os.now < time

/-- **A lifetime that was set is honoured**: if a tick `k` sets the lifetime of an entry, no tick of
    `mid` sets it again and the clock stays before its end, the entry is in use after `mid`. -/
def LifetimesHonoured (m₀ : Moment) (ks : List Tick) : Prop :=
  ∀ pre k mid, pre ++ k :: mid <+: ks → ∀ p lifetime,
    SetsLifetime (run tick m₀ pre) k p lifetime →
    let m := tick (run tick m₀ pre) k
    NotSetAgain m mid p → ClockBefore m mid (m.data.os.now + lifetime.toNat * 1000) →
    (run tick m mid).ValidAt p

/-- No entry goes out of use before the time of its alarm. -/
def LifetimesKept (m : Moment) (k : Tick) : Prop :=
  ∀ r ∈ m.data.routing_table, r.hasFlag RTFLAG_VALID_ENTRY = true →
    (tick m k).data.os.now < r.alarm.tv → (tick m k).ValidAt r.self

instance (m : Moment) (p : Nat) : Decidable (m.ValidAt p) := by
  unfold Moment.ValidAt; infer_instance

instance (m : Moment) (k : Tick) : Decidable (LifetimesKept m k) := by
  unfold LifetimesKept; infer_instance

/-- A retry finds a route in use and renews an entry whose own callback is still to run. -/
def RenewsWaiting (m : Moment) (k : Tick) : Prop :=
  k = .callback ∧ ∃ a rest, m.batch = a :: rest ∧
    ∃ e ∈ m.data.rreq_queue, a.owner = .rreq e.self ∧ e.Retries ∧
      e.dst ≠ m.data.ip_addr ∧ m.data.active e.dst = true ∧
      ∃ r ∈ m.data.routing_table, refreshes m.data e.dst r.dst_ip = true ∧
        ∃ b ∈ rest, b.owner = .route r.self

/-! ## One callback -/

/-- What a callback does to the entries. -/
inductive Called (s : MshData) (t : MshData) : AlarmOwner → Prop where
  | route (p : Nat) (h : RouteAlarm s p t) : Called s t (.route p)
  | retried (e : RreqFifo) (he : e ∈ s.rreq_queue) (htries : e.Retries)
      (h : Refreshed s t
        (fun b => routeUsable s e.dst && decide (e.dst ≠ s.ip_addr) && refreshes s e.dst b)) :
      Called s t (.rreq e.self)
  | quiet (p : Nat) (hno : ∀ e ∈ s.rreq_queue, e.self = p → ¬ e.Retries)
      (ht : t.routing_table = s.routing_table) : Called s t (.rreq p)

theorem called (h : Wf s) (hs : TimersOk s) (owner : AlarmOwner) :
    Called s (runAlarm s owner) owner := by
  cases owner with
  | route p => exact .route p (routeAlarm h hs p)
  | rreq p =>
    cases he : s.rreq_queue.find? (fun e => e.self = p) with
    | none =>
      have habsent := List.find?_eq_none.1 he
      refine .quiet p (fun e hmem hself => absurd hself (by simpa using habsent e hmem)) ?_
      simp only [runAlarm, he]
    | some e =>
      obtain ⟨hmem, rfl⟩ := (KeyedList.find_key_some h.rreq_nodup).1 he
      have hquiet : ¬ e.Retries → ∀ x ∈ s.rreq_queue, x.self = e.self → ¬ x.Retries := by
        intro hno x hx hself
        rw [KeyedList.eq_of_key h.rreq_nodup hx hmem hself]
        exact hno
      by_cases hext : e.prev_tries < 0
      · refine .quiet _ (hquiet fun hc => ?_) ?_
        · exact absurd hc.1 (by omega)
        · simp only [runAlarm, he, rreqFifoAlarmCb, if_pos hext]
          rfl
      · by_cases hlast : e.prev_tries + 1 > RREQ_RETRIES.toNat
        · refine .quiet _ (hquiet fun hc => ?_) ?_
          · exact absurd hc.2 (by omega)
          · simp only [runAlarm, he, rreqFifoAlarmCb, if_neg hext, if_pos hlast]
            rfl
        · refine .retried e hmem ⟨by omega, by omega⟩ ?_
          simp only [runAlarm, he, rreqFifoAlarmCb, if_neg hext, if_neg hlast]
          exact refreshed_rreqFifoRetry h (by omega) (fun _ => rfl)

/-! ## What a tick does to an entry in use -/

/-- **Where an entry in use comes from**: its timer is the one it had, or the tick has set its
    lifetime. -/
theorem Ticked.valid (hok : MomentOk m) (hk : Ticked m k n) {r' : MshRoute}
    (hr' : r' ∈ n.data.routing_table) (hvalid : r'.hasFlag RTFLAG_VALID_ENTRY = true) :
    (∃ r ∈ m.data.routing_table, r.self = r'.self ∧ r.timer = r'.timer) ∨
      r'.timer.Renewed n.data.os.now := by
  cases hk.table hok with
  | aged s hs hage =>
    rw [hage.now, ← hs]
    rcases hage.back r' hr' with ⟨r, hr, hto⟩ | ⟨-, hnew⟩
    · rcases hto.timer with hsame | hnew
      · exact .inl ⟨r, hr, hto.self.symm, hsame.symm⟩
      · exact .inr hnew
    · exact .inr hnew
  | rang p _ _ hroute =>
    refine .inl ?_
    cases hroute with
    | expired r _ _ _ ht =>
      rw [ht] at hr'
      obtain ⟨x, hx, rfl⟩ := List.mem_map.1 hr'
      by_cases hxp : x.self = p
      · -- an entry that has just expired is not in use
        rw [if_pos hxp] at hvalid
        have hinv := congrArg Timer.valid
          (timer_mshRouteExpire m.data.os.now m.data.alarms (clearNode x))
        exact absurd (hvalid.symm.trans hinv) Bool.noConfusion
      · rw [if_neg hxp]
        exact ⟨x, hx, rfl, rfl⟩
    | destroyed r _ _ _ ht =>
      rw [ht] at hr'
      exact ⟨r', (List.mem_filter.1 hr').1, rfl, rfl⟩
    | stray _ ht =>
      rw [ht] at hr'
      exact ⟨r', hr', rfl, rfl⟩

/-- **How an entry goes out of use**: by its own alarm. -/
theorem Ticked.expires (hok : MomentOk m) (hk : Ticked m k n) {r : MshRoute}
    (hr : r ∈ m.data.routing_table) (hvalid : r.hasFlag RTFLAG_VALID_ENTRY = true)
    (hgone : ¬ n.ValidAt r.self) : k = .callback ∧ m.Rings r.self := by
  cases hk.table hok with
  | aged s hs hage =>
    obtain ⟨r', hr', hto⟩ := hage.forth r (hs ▸ hr)
    refine absurd ⟨r', hr', hto.self, ?_⟩ hgone
    rcases hto.timer with hsame | hnew
    · exact ((valid_of_timer hsame).1).trans hvalid
    · obtain ⟨_, hfor⟩ := hnew
      exact hfor.valid
  | rang p hcallback hrings hroute =>
    by_cases hrp : r.self = p
    · exact ⟨hcallback, hrp ▸ hrings⟩
    · refine absurd ⟨r, ?_, rfl, hvalid⟩ hgone
      cases hroute with
      | expired x _ _ _ ht =>
        rw [ht]
        exact List.mem_map.2 ⟨r, hr, if_neg hrp⟩
      | destroyed x _ _ _ ht =>
        rw [ht]
        exact List.mem_filter.2 ⟨hr, by simpa using hrp⟩
      | stray _ ht => rw [ht]; exact hr

/-- A callback does not move the clock. -/
theorem now_callback (hok : MomentOk m) : (tick m .callback).data.os.now = m.data.os.now := by
  cases hbatch : m.batch with
  | nil => simp only [tick, hbatch]
  | cons a rest =>
    simp only [tick, hbatch]
    exact now_called hok.wf a

/-! ## When a lifetime was set -/

/-- When the lifetime of `r` was set, if its callback still runs though its alarm is in the
    future. -/
def SetOnTime (m₀ : Moment) (ks : List Tick) : Prop :=
  let m := run tick m₀ ks
  ∀ r ∈ m.data.routing_table, r.hasFlag RTFLAG_VALID_ENTRY = true →
    (∃ a ∈ m.batch, a.owner = .route r.self) → m.data.os.now < r.alarm.tv →
    ∃ pre k mid lifetime, ks = pre ++ k :: mid ∧
      SetsLifetime (run tick m₀ pre) k r.self lifetime ∧
      NotSetAgain (tick (run tick m₀ pre) k) mid r.self ∧
      ClockBefore (tick (run tick m₀ pre) k) mid
        ((tick (run tick m₀ pre) k).data.os.now + lifetime.toNat * 1000) ∧
      r.alarm.tv = (tick (run tick m₀ pre) k).data.os.now + lifetime.toNat * 1000

theorem NotSetAgain.snoc {mid : List Tick} {p : Nat} (h : NotSetAgain m mid p)
    (hk : ∀ lifetime, ¬ SetsLifetime (run tick m mid) k p lifetime) :
    NotSetAgain m (mid ++ [k]) p := by
  intro later k' hpre
  rcases List.prefix_concat_iff.1 hpre with heq | hmid
  · obtain ⟨rfl, hk'⟩ := List.append_inj' heq rfl
    obtain rfl := List.head_eq_of_cons_eq hk'
    exact hk
  · exact h later k' hmid

theorem ClockBefore.snoc {mid : List Tick} {time : Nat} (h : ClockBefore m mid time)
    (hk : (run tick m (mid ++ [k])).data.os.now < time) : ClockBefore m (mid ++ [k]) time := by
  intro later hpre
  rcases List.prefix_concat_iff.1 hpre with rfl | hmid
  · exact hk
  · exact h later hmid

theorem run_snoc (m : Moment) (ks : List Tick) (k : Tick) :
    run tick m (ks ++ [k]) = tick (run tick m ks) k := by rw [Machine.run_append]; rfl

/-- A callback that runs though the alarm is in the future was waiting before the tick, at the same
    time: an alarm run begins with what has expired. -/
theorem Ticked.waits (hok : MomentOk m) (hk : Ticked m k n) {r : MshRoute}
    (hr : r ∈ n.data.routing_table) (hwaits : ∃ a ∈ n.batch, a.owner = .route r.self)
    (hlate : n.data.os.now < r.alarm.tv) :
    (∃ a ∈ m.batch, a.owner = .route r.self) ∧ m.data.os.now = n.data.os.now := by
  obtain ⟨b, hb, howner⟩ := hwaits
  cases hk with
  | waiting => exact ⟨⟨b, hb, howner⟩, rfl⟩
  | begun i =>
    obtain ⟨htree, htv⟩ := mem_alarmRunQueue.1 hb
    rw [tv_of_mem_alarmTree (hok.wf.arrive i) htree hr howner] at htv
    exact absurd hlate (Nat.not_lt.2 htv)
  | turned i => exact absurd hb List.not_mem_nil
  | called a rest hbatch =>
    refine ⟨⟨b, ?_, howner⟩, (now_called hok.wf a).symm⟩
    rw [hbatch]
    exact List.mem_cons_of_mem _ hb

theorem setOnTime (ip bcast : InAddr) (iface : U32) (ks : List Tick) :
    SetOnTime (startMoment ip bcast iface) ks := by
  induction ks using List.reverseRecOn with
  | nil => exact fun r hr => absurd hr List.not_mem_nil
  | append_singleton ks k ih =>
    have hok := momentOk ip bcast iface ks
    have hk := ticked (run tick (startMoment ip bcast iface) ks) k
    rw [SetOnTime, run_snoc]
    intro r' hr' hvalid hwaits hlate
    by_cases hset : ∃ lifetime,
        SetsLifetime (run tick (startMoment ip bcast iface) ks) k r'.self lifetime
    · obtain ⟨lifetime, x, hx, hself, hfor, hnew⟩ := hset
      obtain rfl := KeyedList.eq_of_key (hk.wf hok.wf).table_self_nodup hx hr' hself
      have htv : x.alarm.tv = _ := hfor.tv
      refine ⟨ks, k, [], lifetime, rfl, ⟨x, hx, rfl, hfor, hnew⟩, fun later k' hpre => ?_,
        fun later hpre => ?_, htv⟩
      · simp at hpre
      · rw [List.prefix_nil.1 hpre, Machine.run_nil, ← htv]
        exact hlate
    · have hsame : ∃ r ∈ (run tick (startMoment ip bcast iface) ks).data.routing_table,
          r.self = r'.self ∧ r.timer = r'.timer := by
        rcases hk.valid hok hr' hvalid with hsame | ⟨lifetime, hfor⟩
        · exact hsame
        · by_contra hno
          exact hset ⟨lifetime, r', hr', rfl, hfor, fun r hr hself htimer =>
            hno ⟨r, hr, hself, htimer⟩⟩
      obtain ⟨r, hr, hself, htimer⟩ := hsame
      obtain ⟨hval, halarm⟩ := valid_of_timer htimer
      obtain ⟨hwaits', hnow⟩ := hk.waits hok hr' hwaits hlate
      obtain ⟨pre, k₀, mid, lifetime, rfl, hsets, hnot, hclock, htv⟩ :=
        ih r hr (hval.trans hvalid) (by rw [hself]; exact hwaits') (by rw [halarm, hnow]; exact hlate)
      rw [hself] at hsets hnot
      rw [halarm] at htv
      have hrun : run tick (startMoment ip bcast iface) (pre ++ k₀ :: mid) =
          run tick (tick (run tick (startMoment ip bcast iface) pre) k₀) mid := by
        rw [Machine.run_append, Machine.run_cons]
      rw [hrun] at hset hlate
      refine ⟨pre, k₀, mid ++ [k], lifetime, by simp, hsets, hnot.snoc fun l hl => hset ⟨l, hl⟩,
        hclock.snoc ?_, htv⟩
      rw [run_snoc, ← htv]
      exact hlate

/-! ## Lifetimes kept by every tick -/

/-- What is not set again keeps its timer, if every tick keeps lifetimes. -/
theorem timer_of_kept {mid : List Tick} {τ : Timer} {p : Nat} (hok : MomentOk m)
    (hkept : StepsMeet tick LifetimesKept m mid) (hvalid : τ.valid = true)
    (hr : ∃ r ∈ m.data.routing_table, r.self = p ∧ r.timer = τ) (hnot : NotSetAgain m mid p)
    (hclock : ClockBefore m mid τ.alarm.tv) :
    ∃ r ∈ (run tick m mid).data.routing_table, r.self = p ∧ r.timer = τ := by
  induction mid generalizing m with
  | nil => exact hr
  | cons k mid ih =>
    obtain ⟨r, hr, rfl, rfl⟩ := hr
    refine ih ((ticked m k).momentOk hok) hkept.2 ?_
      (fun later k' hpre => hnot (k :: later) k' (by simpa using hpre))
      (fun later hpre => hclock (k :: later) (by simpa using hpre))
    obtain ⟨r', hr', hself, hvalid'⟩ := hkept.1 r hr hvalid (hclock [k] (by simp))
    refine ⟨r', hr', hself, ?_⟩
    rcases (ticked m k).valid hok hr' hvalid' with ⟨x, hx, hxself, htimer⟩ | ⟨lifetime, hfor⟩
    · obtain rfl := KeyedList.eq_of_key hok.wf.table_self_nodup hx hr (hxself.trans hself)
      exact htimer.symm
    · by_contra hne
      refine hnot [] k (by simp) lifetime ⟨r', hr', hself, hfor, fun x hx hxself htimer => ?_⟩
      obtain rfl := KeyedList.eq_of_key hok.wf.table_self_nodup hx hr hxself
      exact hne htimer.symm

/-- **Lifetimes are honoured exactly if every tick keeps them.** -/
theorem lifetimesHonoured_iff_kept (ip bcast : InAddr) (iface : U32) (ks : List Tick) :
    LifetimesHonoured (startMoment ip bcast iface) ks ↔
      StepsMeet tick LifetimesKept (startMoment ip bcast iface) ks := by
  constructor
  · intro hhon
    refine Machine.stepsMeet_iff_prefix.2 fun pre k hpre r hr hvalid hlate => ?_
    have hok := momentOk ip bcast iface pre
    by_contra hgone
    obtain ⟨rfl, a, rest, hbatch, howner⟩ := (ticked _ k).expires hok hr hvalid hgone
    have hnow := now_callback hok
    obtain ⟨pre₀, k₀, mid, lifetime, rfl, hsets, hnot, hclock, htv⟩ := setOnTime ip bcast iface pre
      r hr hvalid ⟨a, by rw [hbatch]; exact List.mem_cons_self, howner⟩ (by rw [← hnow]; exact hlate)
    have hrun : run tick (startMoment ip bcast iface) (pre₀ ++ k₀ :: mid) =
        run tick (tick (run tick (startMoment ip bcast iface) pre₀) k₀) mid := by
      rw [Machine.run_append, Machine.run_cons]
    rw [hrun] at hgone hlate
    refine hgone ?_
    rw [← run_snoc]
    refine hhon pre₀ k₀ (mid ++ [.callback]) (by simpa using hpre) r.self lifetime hsets
      (hnot.snoc ?_) (hclock.snoc ?_)
    · rintro lifetime' ⟨r', hr', hself, hfor, -⟩
      exact hgone ⟨r', hr', hself, hfor.valid⟩
    · rw [run_snoc, ← htv]
      exact hlate
  · intro hkept pre k mid hpre p lifetime hsets m hnot hclock
    obtain ⟨r, hr, hself, hfor, -⟩ := hsets
    have hok : MomentOk m := (ticked _ k).momentOk (momentOk ip bcast iface pre)
    obtain ⟨rest, rfl⟩ := hpre
    have hmid : StepsMeet tick LifetimesKept m mid := by
      rw [Machine.stepsMeet_append, Machine.stepsMeet_append] at hkept
      exact hkept.1.2.2
    have htv : r.timer.alarm.tv = _ := hfor.tv
    obtain ⟨r', hr', hself', htimer⟩ := timer_of_kept hok hmid hfor.valid ⟨r, hr, hself, rfl⟩ hnot
      (by rw [htv]; exact hclock)
    exact ⟨r', hr', hself', (valid_of_timer htimer).1.trans hfor.valid⟩

/-! ## One batch -/

/-- The entries whose callbacks are still to run have expired. -/
def DueBatch (m : Moment) : Prop :=
  ∀ a ∈ m.batch, ∀ r ∈ m.data.routing_table, a.owner = .route r.self →
    r.alarm.tv ≤ m.data.os.now

/-- The callbacks of the whole batch. -/
def callbacks (batch : List PendingAlarm) : List Tick := batch.map (fun _ => .callback)

/-- An alarm in the future stays in the future, whatever other callbacks run. -/
theorem Called.late {owner : AlarmOwner} (h : Called s t owner) {r : MshRoute}
    (hr : r ∈ s.routing_table) (hvalid : r.hasFlag RTFLAG_VALID_ENTRY = true)
    (hlate : s.os.now < r.alarm.tv) (hother : owner ≠ .route r.self) :
    ∃ r' ∈ t.routing_table, r'.self = r.self ∧ r'.hasFlag RTFLAG_VALID_ENTRY = true ∧
      s.os.now < r'.alarm.tv := by
  cases h with
  | route p h =>
    have hrp : r.self ≠ p := fun hc => hother (by rw [hc])
    refine ⟨r, ?_, rfl, hvalid, hlate⟩
    cases h with
    | expired x _ _ _ ht => rw [ht]; exact List.mem_map.2 ⟨r, hr, if_neg hrp⟩
    | destroyed x _ _ _ ht => rw [ht]; exact List.mem_filter.2 ⟨hr, by simpa using hrp⟩
    | stray _ ht => rw [ht]; exact hr
  | retried e _ _ h =>
    obtain ⟨r', hr', hself, -, htimer⟩ := h.forth r hr
    refine ⟨r', hr', hself, ?_⟩
    split at htimer
    · have htv : r'.alarm.tv = _ := htimer.tv
      refine ⟨htimer.valid, ?_⟩
      rw [htv]
      exact Nat.lt_add_of_pos_right (by decide)
    · obtain ⟨hval, halarm⟩ := valid_of_timer htimer
      exact ⟨hval.trans hvalid, by rw [halarm]; exact hlate⟩
  | quiet p _ ht => exact ⟨r, by rw [ht]; exact hr, rfl, hvalid, hlate⟩

/-- **A callback that waits with its alarm in the future ends a lifetime.** -/
theorem not_kept_of_late {batch : List PendingAlarm} (hok : MomentOk ⟨s, batch⟩) {r : MshRoute}
    (hr : r ∈ s.routing_table) (hvalid : r.hasFlag RTFLAG_VALID_ENTRY = true)
    (hlate : s.os.now < r.alarm.tv) (hwaits : ∃ a ∈ batch, a.owner = .route r.self) :
    ¬ StepsMeet tick LifetimesKept ⟨s, batch⟩ (callbacks batch) := by
  induction batch generalizing s r with
  | nil => simp at hwaits
  | cons a batch ih =>
    rintro ⟨hkept, hrest⟩
    have hnow : (tick ⟨s, a :: batch⟩ .callback).data.os.now = s.os.now := now_callback hok
    have hok' := (ticked ⟨s, a :: batch⟩ .callback).momentOk hok
    by_cases howner : a.owner = .route r.self
    · obtain ⟨r', hr', hself, hvalid'⟩ := hkept r hr hvalid (by rw [hnow]; exact hlate)
      have hspec := rings_spec hok hr ⟨a, batch, rfl, howner⟩
      rw [if_pos hvalid] at hspec
      obtain ⟨x, hx, hxself, hinv, -⟩ := hspec
      rw [KeyedList.eq_of_key hok'.wf.table_self_nodup hr' hx (hself.trans hxself.symm)] at hvalid'
      exact absurd (hvalid'.symm.trans hinv) Bool.noConfusion
    · obtain ⟨r', hr', hself, hvalid', hlate'⟩ :=
        (called hok.wf hok.timers a.owner).late hr hvalid hlate howner
      refine ih hok' hr' hvalid' (hnow.symm ▸ hlate') ?_ hrest
      obtain ⟨b, hb, hbowner⟩ := hwaits
      rcases List.mem_cons.1 hb with rfl | hb
      · exact absurd hbowner howner
      · exact ⟨b, hb, by rw [hbowner, hself]⟩

/-- What is due stays due, unless a retry renews it. -/
theorem DueBatch.called {a : PendingAlarm} {batch : List PendingAlarm}
    (hok : MomentOk ⟨s, a :: batch⟩) (hdue : DueBatch ⟨s, a :: batch⟩)
    (hnot : ¬ RenewsWaiting ⟨s, a :: batch⟩ .callback) :
    DueBatch ⟨runAlarm s a.owner, batch⟩ := by
  have howners := (List.nodup_cons.1 hok.batch.owners).1
  intro b hb r' hr' hbowner
  have hbefore := hdue b (List.mem_cons_of_mem _ hb)
  have hnow : (runAlarm s a.owner).os.now = s.os.now := now_called hok.wf a
  rw [hnow]
  have hcalled := Meshias.called hok.wf hok.timers a.owner
  generalize ht : runAlarm s a.owner = t at hcalled hr' hnow
  generalize howner : a.owner = owner at hcalled
  cases hcalled with
  | route p h =>
    cases h with
    | expired x _ _ _ htbl =>
      rw [htbl] at hr'
      obtain ⟨y, hy, rfl⟩ := List.mem_map.1 hr'
      by_cases hyp : y.self = p
      · -- the callback of this entry has just run
        rw [if_pos hyp] at hbowner
        have hself : (mshRouteExpire s.os.now s.alarms (clearNode y)).self = p := hyp
        refine absurd (List.mem_map_of_mem (f := PendingAlarm.owner) hb) ?_
        rw [hbowner, hself, ← howner]
        exact howners
      · rw [if_neg hyp] at hbowner ⊢
        exact hbefore y hy hbowner
    | destroyed x _ _ _ htbl =>
      rw [htbl] at hr'
      exact hbefore r' (List.mem_filter.1 hr').1 hbowner
    | stray _ htbl =>
      rw [htbl] at hr'
      exact hbefore r' hr' hbowner
  | retried e he htries h =>
    obtain ⟨r, hr, hto⟩ := h.back r' hr'
    obtain ⟨x, hx, hxself, -, htimer⟩ := h.forth r hr
    have hwf : Wf t := ht ▸ (runAlarm_cases hok.wf a.owner).wf hok.wf
    obtain rfl := KeyedList.eq_of_key hwf.table_self_nodup hx hr' (hxself.trans hto.self.symm)
    split at htimer
    · rename_i hcond
      rw [Bool.and_eq_true, Bool.and_eq_true, decide_eq_true_eq] at hcond
      obtain ⟨⟨husable, hne⟩, hrefreshes⟩ := hcond
      refine absurd ⟨rfl, a, batch, rfl, e, he, howner, htries, hne, ?_, r, hr, hrefreshes, b, hb,
        by rw [hbowner, hto.self]⟩ hnot
      simpa [routeUsable, hne] using husable
    · rw [← (valid_of_timer htimer).2.symm]
      exact hbefore r hr (by rw [hbowner, hto.self])
  | quiet p _ htbl =>
    rw [htbl] at hr'
    exact hbefore r' hr' hbowner

/-- What a retry renews has its alarm in the future. -/
theorem RenewsWaiting.late {a : PendingAlarm} {batch : List PendingAlarm}
    (h : RenewsWaiting ⟨s, a :: batch⟩ k) (hok : MomentOk ⟨s, a :: batch⟩) :
    ∃ r' ∈ (runAlarm s a.owner).routing_table, r'.hasFlag RTFLAG_VALID_ENTRY = true ∧
      s.os.now < r'.alarm.tv ∧ ∃ b ∈ batch, b.owner = .route r'.self := by
  obtain ⟨-, a', rest, hbatch, e, he, howner, htries, hne, hact, r, hr, hrefreshes, b, hb,
    hbowner⟩ := h
  obtain ⟨rfl, rfl⟩ := List.cons.inj hbatch
  have hcalled := called hok.wf hok.timers a.owner
  generalize runAlarm s a.owner = t at hcalled ⊢
  rw [howner] at hcalled
  generalize hp : AlarmOwner.rreq e.self = owner at hcalled
  cases hcalled with
  | route p => cases hp
  | retried e' he' _ h =>
    obtain rfl := KeyedList.eq_of_key hok.wf.rreq_nodup he' he (AlarmOwner.rreq.inj hp).symm
    obtain ⟨r', hr', hself, -, htimer⟩ := h.forth r hr
    have husable : routeUsable s e'.dst = true := by
      rw [routeUsable, Bool.or_eq_true]
      exact .inr hact
    have hdst : e'.dst ≠ s.ip_addr := hne
    rw [if_pos (by rw [husable, decide_eq_true hdst]; simpa using hrefreshes)] at htimer
    have htv : r'.alarm.tv = _ := htimer.tv
    refine ⟨r', hr', htimer.valid, ?_, b, hb, by rw [hbowner, hself]⟩
    rw [htv]
    exact Nat.lt_add_of_pos_right (by decide)
  | quiet p hno _ => exact absurd htries (hno e he (AlarmOwner.rreq.inj hp))

/-- **One batch.** -/
theorem callbacks_iff {batch : List PendingAlarm} (hok : MomentOk ⟨s, batch⟩)
    (hdue : DueBatch ⟨s, batch⟩) :
    StepsMeet tick LifetimesKept ⟨s, batch⟩ (callbacks batch) ↔
      StepsMeet tick (fun m k => ¬ RenewsWaiting m k) ⟨s, batch⟩ (callbacks batch) := by
  induction batch generalizing s with
  | nil => exact Iff.rfl
  | cons a batch ih =>
    have hok' := (ticked ⟨s, a :: batch⟩ .callback).momentOk hok
    have hnow : (tick ⟨s, a :: batch⟩ .callback).data.os.now = s.os.now := now_callback hok
    have hkept : LifetimesKept ⟨s, a :: batch⟩ .callback := by
      intro r hr hvalid hlate
      by_contra hgone
      obtain ⟨-, b, rest, hbatch, howner⟩ := (ticked _ _).expires hok hr hvalid hgone
      obtain ⟨rfl, -⟩ := List.cons.inj hbatch
      have htv := hdue a List.mem_cons_self r hr howner
      rw [hnow] at hlate
      exact absurd hlate (Nat.not_lt.2 htv)
    by_cases hrenews : RenewsWaiting ⟨s, a :: batch⟩ .callback
    · refine iff_of_false ?_ fun hc => hc.1 hrenews
      rintro ⟨-, hrest⟩
      obtain ⟨r', hr', hvalid, hlate, hwaits⟩ := hrenews.late hok
      exact not_kept_of_late hok' hr' hvalid (hnow.symm ▸ hlate) hwaits hrest
    · have hdue' := DueBatch.called hok hdue hrenews
      constructor
      · rintro ⟨-, hrest⟩
        exact ⟨hrenews, (ih hok' hdue').1 hrest⟩
      · rintro ⟨-, hrest⟩
        exact ⟨hkept, (ih hok' hdue').2 hrest⟩

/-- One turn. -/
theorem turn_iff (hok : MomentOk ⟨s, []⟩) (i : Input) :
    StepsMeet tick LifetimesKept ⟨s, []⟩ (turnTicks s i) ↔
      StepsMeet tick (fun m k => ¬ RenewsWaiting m k) ⟨s, []⟩ (turnTicks s i) := by
  have hkept : LifetimesKept ⟨s, []⟩ (.turn i) := by
    intro r hr hvalid _
    by_contra hgone
    obtain ⟨hk, -⟩ := (ticked _ _).expires hok hr hvalid hgone
    cases hk
  have hnot : ¬ RenewsWaiting ⟨s, []⟩ (.turn i) := fun hc => Tick.noConfusion hc.1
  rw [turnTicks, StepsMeet, StepsMeet, and_iff_right hkept, and_iff_right hnot]
  split
  · rename_i hev
    have hok' := (ticked ⟨s, []⟩ (.turn i)).momentOk hok
    rw [tick_alarms rfl hev] at hok' ⊢
    refine callbacks_iff hok' fun a ha r hr howner => ?_
    obtain ⟨htree, htv⟩ := mem_alarmRunQueue.1 ha
    rw [← tv_of_mem_alarmTree hok'.wf htree hr howner]
    exact htv
  · exact Iff.rfl

/-- **When lifetimes are honoured**: in exactly the runs in which no retry renews an entry whose own
    callback is still to run in the same batch. -/
theorem lifetimesHonoured_iff (ip bcast : InAddr) (iface : U32) (is : List Input) :
    LifetimesHonoured (startMoment ip bcast iface) (ticks (mshDataInit ip bcast iface) is) ↔
      StepsMeet tick (fun m k => ¬ RenewsWaiting m k) (startMoment ip bcast iface)
        (ticks (mshDataInit ip bcast iface) is) := by
  rw [lifetimesHonoured_iff_kept, startMoment]
  have hok : MomentOk ⟨mshDataInit ip bcast iface, []⟩ := momentOk ip bcast iface []
  generalize mshDataInit ip bcast iface = s at hok
  induction is generalizing s with
  | nil => exact Iff.rfl
  | cons i is ih =>
    have hok' : MomentOk ⟨step s i, []⟩ := by
      rw [← run_turnTicks]
      exact Machine.run_invariant_always (fun _ k h => (ticked _ k).momentOk h) hok _
    rw [ticks, Machine.stepsMeet_append, Machine.stepsMeet_append, run_turnTicks]
    exact and_congr (turn_iff hok i) (ih (step s i) hok')

/-- A discovery is tried again, at 8.4 s, in the same alarm run in which the route that a message
    has brought in the meantime expires, at 8.399 s. -/
def retriedBeforeExpiry : List Input :=
  [⟨0, [], [], .packet (capturedPacket 1 3 1 0x0A000001 0x0A000009)⟩,
    ⟨2800000, [], [], .alarms⟩,
    ⟨5399000, [], [], datagramFrom 0x0A000009 1 (aodvPktBuildRreq 1 0 7 0x0A000008 0 0x0A000009 1)⟩,
    ⟨8400000, [], [], .alarms⟩]

/-- **The route expires as soon as it is renewed**: the retry renews it until 11.4 s, and its
    callback, the next one of the batch, marks it invalid at 8.4 s. -/
theorem renewed_route_expires :
    ¬ ∀ (ip bcast : InAddr) (iface : U32) (is : List Input),
      LifetimesHonoured (startMoment ip bcast iface) (ticks (mshDataInit ip bcast iface) is) := by
  intro hall
  have hhon := hall 0x0A000001 0x0A0000FF 0 retriedBeforeExpiry
  rw [lifetimesHonoured_iff_kept] at hhon
  exact absurd hhon (by decide +kernel)

end Meshias
