import Meshias.Lib.Machine
import Meshias.Traffic

/-!
# Reachable states, and the moments between the callbacks

* `wf_run` — every reachable state is well formed.
* `Moment`, `tick` — the daemon in smaller steps: `do_alarm_run` collects the expired alarms and
  then runs one callback after the other; nothing else happens until all of them have run.
* `ticks` — a run of the main loop as a run of such steps; `run_ticks`.

Principal results: `find_by_ip_unique` — no two entries have one destination, and a lookup finds
the entry of its address, in whatever order the entries stand; `wf_moment`.
-/

set_option autoImplicit false

namespace Meshias

open Machine (run StepsMeet)

variable {s : MshData}

/-! ## Reachable states -/

theorem wf_run (ip bcast : InAddr) (iface : U32) (is : List Input) :
    Wf (run step (mshDataInit ip bcast iface) is) :=
  Machine.run_invariant_always (fun _ i h => h.step i) (Wf.init ip bcast iface) is

theorem mem_of_find_by_ip (h : Wf s) (a : InAddr) (r : MshRoute) :
    routingTableFindByIp s.routing_table a = some r ↔ r ∈ s.routing_table ∧ r.dst_ip = a := by
  rw [routingTableFindByIp_eq h]
  exact KeyedList.find_key_some h.dst_nodup

/-- The order of the entries does not matter to the lookup. -/
theorem find_by_ip_perm (h : Wf s) {l : List MshRoute} (hl : l.Perm s.routing_table)
    (a : InAddr) : routingTableFindByIp l a = routingTableFindByIp s.routing_table a := by
  have hdst : (l.map (·.dst_ip)).Nodup := (hl.map _).nodup_iff.2 h.dst_nodup
  rw [routingTableFindByIp_host (fun r hr => (h.entry_ok r (hl.subset hr)).prefix_sz)]
  ext r
  rw [mem_of_find_by_ip h, KeyedList.find_key_some hdst, hl.mem_iff]

/-- **One entry per destination.**  In every reachable state the destinations are different, the
    lookup for an address finds its entry, or nothing if there is none, and it would do so in any
    order of the table. -/
theorem find_by_ip_unique (ip bcast : InAddr) (iface : U32) (is : List Input) (a : InAddr) :
    let table := (run step (mshDataInit ip bcast iface) is).routing_table
    (table.map (·.dst_ip)).Nodup ∧
      (∀ r, routingTableFindByIp table a = some r ↔ r ∈ table ∧ r.dst_ip = a) ∧
      (routingTableFindByIp table a = none ↔ ∀ r ∈ table, r.dst_ip ≠ a) ∧
      ∀ table', table'.Perm table →
        routingTableFindByIp table' a = routingTableFindByIp table a := by
  have h := wf_run ip bcast iface is
  refine ⟨h.dst_nodup, mem_of_find_by_ip h a, ?_, fun table' hperm => find_by_ip_perm h hperm a⟩
  rw [routingTableFindByIp_eq h]
  exact KeyedList.find_key_none

/-! ## Moments -/

/-- The daemon between two callbacks: `batch` is what is left of `alarm_run_queue`. -/
structure Moment where
  data : MshData
  batch : List PendingAlarm

/-- A turn of the main loop, of which an alarm run is only begun; or the next callback. -/
inductive Tick where
  | turn (i : Input)
  | callback

/-- The main loop waits until the callbacks have run. -/
def tick (m : Moment) : Tick → Moment
  | .turn i =>
    if m.batch ≠ [] then m
    else if i.event = .alarms then ⟨m.data.arrive i, alarmRunQueue (m.data.arrive i)⟩
    else ⟨step m.data i, []⟩
  | .callback =>
    match m.batch with
    | [] => m
    | a :: rest => ⟨runAlarm m.data a.owner, rest⟩

section Tick

variable {m : Moment} {i : Input}

theorem tick_alarms (hbatch : m.batch = []) (hev : i.event = .alarms) :
    tick m (.turn i) = ⟨m.data.arrive i, alarmRunQueue (m.data.arrive i)⟩ := by
  simp [tick, hbatch, hev]

theorem tick_step (hbatch : m.batch = []) (hev : i.event ≠ .alarms) :
    tick m (.turn i) = ⟨step m.data i, []⟩ := by
  simp [tick, hbatch, hev]

theorem tick_busy (hbatch : m.batch ≠ []) (i : Input) : tick m (.turn i) = m := if_pos hbatch

theorem tick_idle (hbatch : m.batch = []) : tick m .callback = m := by
  simp [tick, hbatch]

theorem tick_callback {a : PendingAlarm} {rest : List PendingAlarm} (hbatch : m.batch = a :: rest) :
    tick m .callback = ⟨runAlarm m.data a.owner, rest⟩ := by
  simp [tick, hbatch]

end Tick

/-- The daemon after `msh_data_init`. -/
def startMoment (ip bcast : InAddr) (iface : U32) : Moment := ⟨mshDataInit ip bcast iface, []⟩

/-- One turn in ticks. -/
def turnTicks (s : MshData) (i : Input) : List Tick :=
  .turn i :: if i.event = .alarms then (alarmRunQueue (s.arrive i)).map (fun _ => .callback) else []

def ticks : MshData → List Input → List Tick
  | _, [] => []
  | s, i :: is => turnTicks s i ++ ticks (step s i) is

theorem run_callbacks (s : MshData) (batch : List PendingAlarm) :
    run tick ⟨s, batch⟩ (batch.map (fun _ => .callback)) =
      ⟨batch.foldl (fun s a => runAlarm s a.owner) s, []⟩ := by
  induction batch generalizing s with
  | nil => rfl
  | cons a batch ih => exact ih (runAlarm s a.owner)

theorem run_turnTicks (s : MshData) (i : Input) :
    run tick ⟨s, []⟩ (turnTicks s i) = ⟨step s i, []⟩ := by
  by_cases hev : i.event = .alarms
  · have hstep : step s i = doAlarmRun (s.arrive i) := by rw [step, hev]; rfl
    rw [turnTicks, if_pos hev, Machine.run_cons, tick_alarms rfl hev, run_callbacks, hstep]
    rfl
  · rw [turnTicks, if_neg hev, Machine.run_cons, tick_step rfl hev, Machine.run_nil]

/-- **The turns are runs of ticks.** -/
theorem run_ticks (s : MshData) (is : List Input) :
    run tick ⟨s, []⟩ (ticks s is) = ⟨run step s is, []⟩ := by
  induction is generalizing s with
  | nil => rfl
  | cons i is ih => rw [ticks, Machine.run_append, run_turnTicks, ih, Machine.run_cons]

/-- **Everything a tick can do.** -/
inductive Ticked (m : Moment) : Tick → Moment → Prop where
  | waiting (k : Tick) : Ticked m k m
  | begun (i : Input) (hbatch : m.batch = []) (hevent : i.event = .alarms) :
      Ticked m (.turn i) ⟨m.data.arrive i, alarmRunQueue (m.data.arrive i)⟩
  | turned (i : Input) (hbatch : m.batch = []) (hevent : i.event ≠ .alarms) :
      Ticked m (.turn i) ⟨step m.data i, []⟩
  | called (a : PendingAlarm) (rest : List PendingAlarm) (hbatch : m.batch = a :: rest) :
      Ticked m .callback ⟨runAlarm m.data a.owner, rest⟩

theorem ticked (m : Moment) (k : Tick) : Ticked m k (tick m k) := by
  cases k with
  | turn i =>
    by_cases hbatch : m.batch = []
    · by_cases hev : i.event = .alarms
      · rw [tick_alarms hbatch hev]
        exact .begun i hbatch hev
      · rw [tick_step hbatch hev]
        exact .turned i hbatch hev
    · rw [tick_busy hbatch]
      exact .waiting _
  | callback =>
    cases hbatch : m.batch with
    | nil =>
      rw [tick_idle hbatch]
      exact .waiting _
    | cons a rest =>
      rw [tick_callback hbatch]
      exact .called a rest hbatch

theorem Ticked.wf {m n : Moment} {k : Tick} (h : Wf m.data) (hk : Ticked m k n) : Wf n.data := by
  cases hk with
  | waiting => exact h
  | begun i => exact h.arrive i
  | turned i => exact h.step i
  | called a rest => exact (runAlarm_cases h a.owner).wf h

/-- **Every moment is well formed.** -/
theorem wf_moment (ip bcast : InAddr) (iface : U32) (ks : List Tick) :
    Wf (run tick (startMoment ip bcast iface) ks).data :=
  Machine.run_invariant_always (I := fun m : Moment => Wf m.data)
    (fun _ k h => (ticked _ k).wf h) (Wf.init ip bcast iface) ks

end Meshias
