import Meshias.LinuxList
import Meshias.AlarmLinks
import Meshias.Lib.Machine

/-!
# Buffered requests in memory

`rreq_fifo.c`: each entry is in the linked list of the queue and, with its alarm, in the tree of the
alarms.

* `RreqMem` — the tree, and the objects of the queue; `alarmOf` is where an entry has its alarm.
* `rreqFifoPush`, `rreqFifoPushOwned`, `rreqFifoContains`, `rreqFifoWaitingResponseFor`,
  `rreqFifoDel`, `rreqFifoDelete`, as the source has them.
* `RreqMem.Shows` — the memory shows the buffer and the alarms of the daemon's state.

Principal results: `rreqOps_refine` — any sequence of operations at any times follows no pointer to
freed memory, ends, and shows what the daemon's functions on lists compute — and
`rreqFifoDelete_refines` — at the end of the queue no entry and no alarm of an entry is left.
-/

set_option autoImplicit false

namespace Meshias

open Machine
open Pointers (Heap)
open Timers (Queue Stamped)

/-! ## The code -/

structure RreqData where
  rreq_id : U32
  dst : InAddr
  prev_tries : Int
  deriving DecidableEq, Repr

structure RreqMem where
  alarms : AlarmMem
  entries : ListMem RreqData

namespace RreqMem

variable (fuel : Nat) (alarmOf : Ptr → Ptr) (queue : Ptr)

/-- `__rreq_fifo_entry_delete`. -/
def rreqFifoEntryDelete (entry : Ptr) (m : RreqMem) : Option RreqMem := do
  let alarms ← m.alarms.delAlarm fuel (alarmOf entry)
  let entries ← listDel m.entries entry
  let entries ← entries.free entry
  let alarms ← alarms.exec fuel (.free (alarmOf entry))
  return ⟨alarms, entries⟩

/-- `rreq_fifo_push` and `rreq_fifo_push_owned`; `entry` is what `calloc` returns, and `function` is
    `__rreq_fifo_alarm_cb`. -/
def rreqFifoInsert (function : Ptr) (now : Timeval) (entry : Ptr) (data : RreqData)
    (miliseconds : U32) (m : RreqMem) : Option RreqMem :=
  if h : entry ≠ NULL then do
    let (sc, usc) := setAlarmTime miliseconds
    let alarms ← m.alarms.exec fuel (.create (alarmOf entry) ⟨0, NULL, NULL⟩ entry function)
    let alarms ← alarms.addAlarm fuel now (alarmOf entry) sc usc
    let entries ← listAdd (m.entries.alloc entry h ⟨data, ⟨NULL, NULL⟩⟩) entry queue
    return ⟨alarms, entries⟩
  else none

def rreqFifoPush (function : Ptr) (now : Timeval) (entry : Ptr) (rreq_id : U32) (dst : InAddr)
    (m : RreqMem) : Option RreqMem :=
  m.rreqFifoInsert fuel alarmOf queue function now entry ⟨rreq_id, dst, -1⟩ PATH_DISCOVERY_TIME

def rreqFifoPushOwned (function : Ptr) (now : Timeval) (entry : Ptr) (rreq_id : U32) (dst : InAddr)
    (prev_tries : Int) (m : RreqMem) : Option RreqMem :=
  m.rreqFifoInsert fuel alarmOf queue function now entry ⟨rreq_id, dst, prev_tries⟩
    (binaryExponentialBackoffTime prev_tries)

def rreqFifoContains (rreq_id : U32) (dst : InAddr) (m : RreqMem) : Option Bool :=
  (listFind fuel m.entries queue (fun entry => entry.rreq_id = rreq_id ∧ entry.dst = dst)).map
    (·.isSome)

def rreqFifoWaitingResponseFor (dst : InAddr) (m : RreqMem) : Option Bool :=
  (listFind fuel m.entries queue (fun entry => entry.prev_tries ≥ 0 ∧ entry.dst = dst)).map
    (·.isSome)

def rreqFifoDel (rreq_id : U32) (dst : InAddr) (m : RreqMem) : Option RreqMem :=
  listForEachEntrySafe RreqMem.entries queue (fun entry m => do
    let e ← m.entries.cell entry
    if e.data.rreq_id ≤ rreq_id ∧ e.data.dst = dst then
      return .done (← m.rreqFifoEntryDelete fuel alarmOf entry)
    else return .yield m) fuel m

/-- `rreq_fifo_delete`, up to the head. -/
def rreqFifoDelete (m : RreqMem) : Option RreqMem :=
  listForEachEntrySafe RreqMem.entries queue (fun entry m => do
    return .yield (← m.rreqFifoEntryDelete fuel alarmOf entry)) fuel m

end RreqMem

/-! ## What the memory shows -/

def RreqFifo.data (e : RreqFifo) : RreqData := ⟨e.rreq_id, e.dst, e.prev_tries⟩

/-- The memory shows the buffer and the alarms of `s`; the entry with the name `p` is at `addr p`, and
    the alarm of `o` at `place o`. -/
structure RreqMem.ShowsAt (alarmOf : Ptr → Ptr) (queue : Ptr) (m : RreqMem) (s : MshData)
    (T : Timetable) (place : AlarmOwner → Ptr) (addr : Nat → Ptr) : Prop where
  alarms : m.alarms.ShowsTable T
  linked : Linked place s T
  list : HoldsList (fun _ => none) m.entries queue
    (s.rreq_queue.map (fun e => (addr e.self, e.data)))
  alarm : ∀ e ∈ s.rreq_queue, place (.rreq e.self) = alarmOf (addr e.self)

def RreqMem.Shows (alarmOf : Ptr → Ptr) (queue : Ptr) (m : RreqMem) (s : MshData) : Prop :=
  ∃ T place addr, m.ShowsAt alarmOf queue s T place addr

/-! ## A small buffer -/

/-- The request of the small daemon is at 8 and has its alarm at 16; the head is at 24. -/
def smallRreqMem : RreqMem where
  alarms := smallAlarms
  entries := {
    cell := fun q =>
      if q = node24 then some ⟨⟨0, 0, 0⟩, ⟨node8, node8⟩⟩
      else if q = node8 then some ⟨⟨1, 0x0A000003, 0⟩, ⟨node24, node24⟩⟩
      else none
    null_free := by decide }

def smallAlarmOf (entry : Ptr) : Ptr := if entry = node8 then node16 else node32

theorem shows_smallRreqMem : smallRreqMem.Shows smallAlarmOf node24 smallDaemon := by
  refine ⟨smallTimetable, smallPlace, fun _ => node8, showsTable_smallAlarms, linked_small,
    ⟨⟨by decide, ?_⟩, by decide, fun q hq => ?_⟩, fun _ _ => rfl⟩
  · exact ⟨⟨by decide, by decide⟩, by decide, by decide⟩
  · have hlist : q ∉ [node24, node8] := hq
    simp only [List.mem_cons, List.not_mem_nil, or_false, not_or] at hlist
    show (if q = node24 then _ else if q = node8 then _ else none) = none
    rw [if_neg hlist.1, if_neg hlist.2]

section Operations

variable {m : RreqMem} {s : MshData} {T : Timetable} {place : AlarmOwner → Ptr} {addr : Nat → Ptr}
variable {alarmOf : Ptr → Ptr} {queue : Ptr} {fuel : Nat} {e : RreqFifo} {u v : List RreqFifo}

/-- The other entries. -/
theorem filter_self_middle (h : ((u ++ e :: v).map (·.self)).Nodup) :
    (u ++ e :: v).filter (fun x => x.self ≠ e.self) = u ++ v := by
  rw [List.map_append, List.map_cons] at h
  have hout := (List.nodup_cons.1 (List.nodup_middle.1 h)).1
  have hkeep : ∀ x ∈ u ++ v, decide (x.self ≠ e.self) = true := by
    intro x hx
    have hne : x.self ≠ e.self := by
      intro heq
      rw [← List.map_append] at hout
      exact hout (heq ▸ List.mem_map_of_mem (f := fun x : RreqFifo => x.self) hx)
    simpa using hne
  have hu := List.filter_eq_self.2 (fun x hx => hkeep x (List.mem_append_left v hx))
  have hv := List.filter_eq_self.2 (fun x hx => hkeep x (List.mem_append_right u hx))
  rw [List.filter_append, List.filter_cons_of_neg (by simp), hu, hv]

/-- **`__rreq_fifo_entry_delete`** on the tree and on the list. -/
theorem entryDelete_refines (hwf : Wf s) (h : m.ShowsAt alarmOf queue s T place addr)
    (hqueue : s.rreq_queue = u ++ e :: v) (hfuel : depthBound (alarmTree s).length + 1 < fuel) :
    ∃ m' T', m.rreqFifoEntryDelete fuel alarmOf (addr e.self) = some m' ∧
      m'.ShowsAt alarmOf queue (rreqFifoEntryDelete s e.self) T' place addr ∧
      (rreqFifoEntryDelete s e.self).rreq_queue = u ++ v := by
  have he : e ∈ s.rreq_queue := by simp [hqueue]
  have hrest : (rreqFifoEntryDelete s e.self).rreq_queue = u ++ v := by
    have hnodup := hwf.rreq_nodup
    rw [hqueue] at hnodup
    rw [rreqFifoEntryDelete_rreq_queue, hqueue]
    exact filter_self_middle hnodup
  obtain ⟨alarms, T', hops, htable, hlinked⟩ := rreqFifoEntryDelete_refines h.alarms h.linked he hfuel
  rw [h.alarm e he] at hops
  have hlist := h.list
  rw [hqueue, List.map_append, List.map_cons] at hlist
  obtain ⟨l₁, l₂, hl₁, hl₂, hlist'⟩ := listDel_free_spec hlist rfl
  simp only [AlarmMem.execAll, AlarmMem.exec, Option.bind_eq_some_iff] at hops
  obtain ⟨alarms₁, hdel, alarms₂, hfree, hlast⟩ := hops
  obtain rfl := Option.some.inj hlast
  refine ⟨⟨alarms₂, l₂⟩, T', ?_, ⟨htable, hlinked, ?_, fun x hx => ?_⟩, hrest⟩
  · simp [RreqMem.rreqFifoEntryDelete, AlarmMem.exec, hdel, hfree, hl₁, hl₂]
  · rw [hrest, List.map_append]
    exact hlist'
  · rw [rreqFifoEntryDelete_rreq_queue] at hx
    exact h.alarm x (List.mem_filter.1 hx).1

/-- **`rreq_fifo_del`.** -/
theorem rreqFifoDel_refines (hwf : Wf s) (h : m.Shows alarmOf queue s) (rreq_id : U32)
    (dst : InAddr) (hlen : s.rreq_queue.length < fuel)
    (hfuel : depthBound (alarmTree s).length + 1 < fuel) :
    ∃ m', m.rreqFifoDel fuel alarmOf queue rreq_id dst = some m' ∧
      m'.Shows alarmOf queue (rreqFifoDel s rreq_id dst) := by
  obtain ⟨T, place, addr, h⟩ := h
  -- nothing is changed until an entry is found
  refine listForEachEntrySafe_spec (fun todo m' => m' = m ∧ ∃ u v, s.rreq_queue = u ++ v ∧
    v.map (fun e => addr e.self) = todo ∧ ∀ e ∈ u, ¬ (e.rreq_id ≤ rreq_id ∧ e.dst = dst))
    h.list.ring ?_ ?_ ⟨rfl, [], s.rreq_queue, rfl, by simp [Function.comp_def], by simp⟩
    (by simpa using hlen)
  · rintro p todo m' - ⟨rfl, u, v, hqueue, hmap, hu⟩
    obtain ⟨e, v, rfl, rfl, rfl⟩ := List.map_eq_cons_iff.1 hmap
    have he : e ∈ s.rreq_queue := by simp [hqueue]
    obtain ⟨c, hc, hdata⟩ := Option.map_eq_some_iff.1
      (h.list.data (addr e.self, e.data) (List.mem_map_of_mem (f := fun e => (addr e.self, e.data)) he))
    have hfind : u.find? (fun e => decide (e.rreq_id ≤ rreq_id ∧ e.dst = dst)) = none :=
      List.find?_eq_none.2 (fun x hx => by simpa using hu x hx)
    by_cases hit : e.rreq_id ≤ rreq_id ∧ e.dst = dst
    · left
      obtain ⟨m', T', hm', h', -⟩ := entryDelete_refines hwf h hqueue hfuel
      have hfound : rreqFifoDelEntry s.rreq_queue rreq_id dst = some e := by
        rw [rreqFifoDelEntry, hqueue, List.find?_append, hfind, List.find?_cons_of_pos (by simpa using hit)]
        rfl
      refine ⟨m', ?_, T', place, addr, by simpa only [rreqFifoDel, hfound] using h'⟩
      simp [hc, hdata, RreqFifo.data, hit, hm']
    · right
      refine ⟨m', u.map (fun e => addr e.self) ++ [addr e.self],
        by simp [hc, hdata, RreqFifo.data, hit], ⟨rfl, u ++ [e], v, by simp [hqueue], rfl, ?_⟩, ?_⟩
      · intro x hx
        rcases List.mem_append.1 hx with hx | hx
        · exact hu x hx
        · rwa [List.mem_singleton.1 hx]
      · have hring := h.list.ring
        simpa [hqueue, Function.comp_def] using hring
  · rintro m' ⟨rfl, u, v, hqueue, hmap, hu⟩
    obtain rfl := List.map_eq_nil_iff.1 hmap
    have hnone : rreqFifoDelEntry s.rreq_queue rreq_id dst = none := by
      rw [rreqFifoDelEntry, hqueue, List.append_nil]
      exact List.find?_eq_none.2 (fun x hx => by simpa using hu x hx)
    exact ⟨T, place, addr, by simpa only [rreqFifoDel, hnone] using h⟩

/-- `calloc` returns the address of no object that exists. -/
structure RreqMem.FreshAt (alarmOf : Ptr → Ptr) (m : RreqMem) (entry : Ptr) : Prop where
  entry_ne : entry ≠ NULL
  entry_free : m.entries.cell entry = none
  alarm_ne : alarmOf entry ≠ NULL
  alarm_free : m.alarms.rb.get (alarmOf entry) = none

theorem alarmTree_rreqFifoInsert (s : MshData) (rreq_id : U32) (dst : InAddr) (prev_tries : Int)
    (ms : U32) :
    (alarmTree (rreqFifoInsert s rreq_id dst prev_tries ms)).Perm
      (⟨s.os.now + ms.toNat * 1000, s.alarms, .rreq s.objects⟩ :: alarmTree s) := by
  simp only [alarmTree, rreqFifoInsert_routing_table, rreqFifoInsert_lost_routes,
    rreqFifoInsert_rreq_queue, addAlarm_setAlarmTime]
  rw [List.filterMap_cons_some (by rfl)]
  exact List.perm_middle

theorem RreqMem.FreshAt.notMem {entry : Ptr} (h : m.FreshAt alarmOf entry)
    (htable : m.alarms.ShowsTable T) : alarmOf entry ∉ T.blocks := by
  intro hmem
  obtain ⟨t, ht⟩ := htable
  obtain ⟨n, hn⟩ := ht.get hmem
  rw [h.alarm_free] at hn
  cases hn

/-- **`rreq_fifo_push`, `rreq_fifo_push_owned`**, with the addresses of the new entry and its alarm. -/
theorem rreqFifoInsert_refinesAt (function : Ptr) {entry : Ptr} {now : Timeval} (hwf : Wf s)
    (h : m.ShowsAt alarmOf queue s T place addr) (hfresh : m.FreshAt alarmOf entry)
    (hnow : now.Normal) (hclock : now.micros = s.os.now)
    (hfuel : depthBound (alarmTree s).length + 1 < fuel) (data : RreqData) (ms : U32) :
    ∃ m' T', m.rreqFifoInsert fuel alarmOf queue function now entry data ms = some m' ∧
      m'.ShowsAt alarmOf queue (rreqFifoInsert s data.rreq_id data.dst data.prev_tries ms) T'
        (Function.update place (.rreq s.objects) (alarmOf entry))
        (Function.update addr s.objects entry) := by
  have hnew := hfresh.notMem h.alarms
  have hlength := h.linked.length
  obtain ⟨alarms, hcreate, htable⟩ := legal_refines h.alarms
    (.create ⟨0, NULL, NULL⟩ entry function hfresh.alarm_ne hnew)
    (show _ < fuel by rw [hlength]; exact hfuel)
  have husc : (setAlarmTime ms).2 < 1000000 := by
    simp only [setAlarmTime]
    omega
  have hblock : alarmOf entry ∈ (T.create (alarmOf entry)).blocks := Set.mem_insert _ _
  have hset : Legal (T.create (alarmOf entry))
      (.add now (alarmOf entry) (setAlarmTime ms).1 (setAlarmTime ms).2) _ :=
    .add hblock hnow husc
  obtain ⟨alarms', hadd, htable'⟩ := legal_refines htable hset
    (show depthBound T.queue.entries.length + 1 < fuel by rw [hlength]; exact hfuel)
  have htime : now.micros + (((setAlarmTime ms).1 : Int) * 1000000 + (setAlarmTime ms).2) =
      ((s.os.now + ms.toNat * 1000 : Nat) : Int) := by
    rw [hclock, ← setAlarmTime_usec]
    push_cast
    ring
  rw [htime] at htable'
  obtain ⟨entries, hentries, hlist, -⟩ :=
    listAdd_alloc_spec h.list hfresh.entry_ne hfresh.entry_free ⟨data, ⟨NULL, NULL⟩⟩
  have hold : ∀ e ∈ s.rreq_queue, Function.update addr s.objects entry e.self = addr e.self :=
    fun e he => Function.update_of_ne (hwf.rreq_lt e he).ne _ _
  have howner : AlarmOwner.rreq s.objects ∉ alarmOwners s := by
    rw [alarmOwners, List.mem_append, List.mem_map, List.mem_map]
    rintro (⟨r, -, heq⟩ | ⟨e, he, heq⟩)
    · cases heq
    · exact (hwf.rreq_lt e he).ne (AlarmOwner.rreq.inj heq)
  refine ⟨⟨alarms', entries⟩, _, ?_, htable', ?_, ?_, ?_⟩
  · simp only [AlarmMem.exec] at hadd
    simp only [RreqMem.rreqFifoInsert, dif_pos hfresh.entry_ne, hcreate, Option.bind_eq_bind,
      Option.bind_some, hadd, hentries]
    rfl
  · refine h.linked.create hnew howner ?_ (alarmTree_rreqFifoInsert s _ _ _ ms) rfl
    simp only [alarmOwners, rreqFifoInsert_routing_table, rreqFifoInsert_lost_routes,
      rreqFifoInsert_rreq_queue, List.map_cons]
    exact List.perm_middle
  · have hmap : s.rreq_queue.map (fun e => (Function.update addr s.objects entry e.self, e.data)) =
        s.rreq_queue.map (fun e => (addr e.self, e.data)) :=
      List.map_congr_left fun e he => by rw [hold e he]
    rw [rreqFifoInsert_rreq_queue, List.map_cons, hmap, Function.update_self]
    exact hlist
  · intro e he
    rcases List.mem_cons.1 he with rfl | he
    · rw [Function.update_self, Function.update_self]
    · have hne : AlarmOwner.rreq e.self ≠ .rreq s.objects := fun heq =>
        (hwf.rreq_lt e he).ne (AlarmOwner.rreq.inj heq)
      rw [Function.update_of_ne hne, hold e he, h.alarm e he]

theorem rreqFifoInsert_refines {entry function : Ptr} {now : Timeval} (hwf : Wf s)
    (h : m.Shows alarmOf queue s) (hfresh : m.FreshAt alarmOf entry) (hnow : now.Normal)
    (hclock : now.micros = s.os.now) (hfuel : depthBound (alarmTree s).length + 1 < fuel)
    (data : RreqData) (ms : U32) :
    ∃ m', m.rreqFifoInsert fuel alarmOf queue function now entry data ms = some m' ∧
      m'.Shows alarmOf queue (rreqFifoInsert s data.rreq_id data.dst data.prev_tries ms) := by
  obtain ⟨T, place, addr, h⟩ := h
  obtain ⟨m', T', hm', h'⟩ := rreqFifoInsert_refinesAt function hwf h hfresh hnow hclock hfuel data ms
  exact ⟨m', hm', T', _, _, h'⟩

/-- The loops that only look. -/
theorem rreqFifo_any {p : RreqData → Bool} (h : m.Shows alarmOf queue s)
    (hlen : s.rreq_queue.length < fuel) :
    (listFind fuel m.entries queue p).map (·.isSome) =
      some (s.rreq_queue.any (fun e => p e.data)) := by
  obtain ⟨T, place, addr, h⟩ := h
  rw [listFind_spec h.list p (by simpa using hlen), Option.map_some, Option.isSome_map,
    List.find?_map, Option.isSome_map]
  congr 1
  rw [Bool.eq_iff_iff, List.find?_isSome, List.any_eq_true]
  rfl

theorem rreqFifoContains_spec (h : m.Shows alarmOf queue s) (hlen : s.rreq_queue.length < fuel)
    (rreq_id : U32) (dst : InAddr) :
    m.rreqFifoContains fuel queue rreq_id dst = some (rreqFifoContains s.rreq_queue rreq_id dst) :=
  rreqFifo_any h hlen

theorem rreqFifoWaitingResponseFor_spec (h : m.Shows alarmOf queue s)
    (hlen : s.rreq_queue.length < fuel) (dst : InAddr) :
    m.rreqFifoWaitingResponseFor fuel queue dst =
      some (rreqFifoWaitingResponseFor s.rreq_queue dst) :=
  rreqFifo_any h hlen

/-- **`rreq_fifo_delete`**: no entry is left, and no alarm of one. -/
theorem rreqFifoDelete_refines (hwf : Wf s) (h : m.Shows alarmOf queue s)
    (hlen : s.rreq_queue.length < fuel) (hfuel : depthBound (alarmTree s).length + 1 < fuel) :
    ∃ m', m.rreqFifoDelete fuel alarmOf queue = some m' ∧
      m'.Shows alarmOf queue { s with rreq_queue := [] } := by
  obtain ⟨T, place, addr, h⟩ := h
  refine listForEachEntrySafe_spec (fun todo m' => ∃ u v T', s.rreq_queue = u ++ v ∧
    v.map (fun e => addr e.self) = todo ∧
    m'.ShowsAt alarmOf queue { s with rreq_queue := v } T' place addr) h.list.ring ?_ ?_
    ⟨[], s.rreq_queue, T, rfl, by simp [Function.comp_def], h⟩ (by simpa using hlen)
  · rintro p todo m' - ⟨u, v, T', hqueue, hmap, h'⟩
    obtain ⟨e, v, rfl, rfl, rfl⟩ := List.map_eq_cons_iff.1 hmap
    have hsub : (e :: v).Sublist s.rreq_queue := hqueue ▸ List.sublist_append_right u (e :: v)
    have hwf' : Wf { s with rreq_queue := e :: v } :=
      ⟨hwf.dst_nodup, hwf.self_nodup, hwf.self_lt, hwf.entry_ok, hwf.lost_ok,
        hwf.rreq_nodup.sublist (hsub.map _), fun x hx => hwf.rreq_lt x (hsub.subset hx)⟩
    have hdepth : depthBound (alarmTree { s with rreq_queue := e :: v }).length ≤
        depthBound (alarmTree s).length := by
      refine depthBound_mono ?_
      simp only [alarmTree, List.length_append]
      exact Nat.add_le_add_left (hsub.filterMap _).length_le _
    obtain ⟨m'', T'', hm'', h'', hrest⟩ :=
      entryDelete_refines (u := []) hwf' h' rfl (show _ < fuel by omega)
    right
    refine ⟨m'', [], by simp [hm''], ⟨u ++ [e], v, T'', by simp [hqueue], rfl, ?_⟩, ?_⟩
    · have heq : rreqFifoEntryDelete { s with rreq_queue := e :: v } e.self =
          { s with rreq_queue := v } := by
        rw [rreqFifoEntryDelete]
        congr 1
      exact heq ▸ h''
    · have hring := h''.list.ring
      rw [hrest] at hring
      simpa [Function.comp_def] using hring
  · rintro m' ⟨u, v, T', hqueue, hmap, h'⟩
    obtain rfl := List.map_eq_nil_iff.1 hmap
    exact ⟨T', place, addr, h'⟩

theorem rreqFifoDelete_refines_small : ∃ m',
    smallRreqMem.rreqFifoDelete 20 smallAlarmOf node24 = some m' ∧
      m'.Shows smallAlarmOf node24 { smallDaemon with rreq_queue := [] } :=
  rreqFifoDelete_refines wf_smallDaemon shows_smallRreqMem (by decide) (by decide)

end Operations

/-! ## Runs -/

inductive RreqOp where
  | push (rreq_id : U32) (dst : InAddr)
  | pushOwned (rreq_id : U32) (dst : InAddr) (prev_tries : Int)
  | del (rreq_id : U32) (dst : InAddr)
  deriving DecidableEq, Repr

/-- An operation at a time, with what `calloc` would return for it. -/
structure RreqCall where
  now : Timeval
  entry : Ptr
  op : RreqOp

/-- The daemon's state at a time. -/
def MshData.at (s : MshData) (now : Timeval) : MshData :=
  { s with os := { s.os with now := now.micros.toNat } }

def rreqOp (s : MshData) (c : RreqCall) : MshData :=
  match c.op with
  | .push rreq_id dst => rreqFifoPush (s.at c.now) rreq_id dst
  | .pushOwned rreq_id dst prev_tries => rreqFifoPushOwned (s.at c.now) rreq_id dst prev_tries
  | .del rreq_id dst => rreqFifoDel (s.at c.now) rreq_id dst

namespace RreqMem

def exec (fuel : Nat) (alarmOf : Ptr → Ptr) (queue function : Ptr) (m : RreqMem) (c : RreqCall) :
    Option RreqMem :=
  match c.op with
  | .push rreq_id dst => m.rreqFifoPush fuel alarmOf queue function c.now c.entry rreq_id dst
  | .pushOwned rreq_id dst prev_tries =>
    m.rreqFifoPushOwned fuel alarmOf queue function c.now c.entry rreq_id dst prev_tries
  | .del rreq_id dst => m.rreqFifoDel fuel alarmOf queue rreq_id dst

def execAll (fuel : Nat) (alarmOf : Ptr → Ptr) (queue function : Ptr) :
    List RreqCall → RreqMem → Option RreqMem
  | [], m => some m
  | c :: cs, m => (m.exec fuel alarmOf queue function c).bind (execAll fuel alarmOf queue function cs)

/-- The clock shows times, and `calloc` returns addresses of no objects. -/
def Fresh (fuel : Nat) (alarmOf : Ptr → Ptr) (queue function : Ptr) : List RreqCall → RreqMem → Prop
  | [], _ => True
  | c :: cs, m => (c.now.Normal ∧ 0 ≤ c.now.micros) ∧ m.FreshAt alarmOf c.entry ∧
      ∀ m', m.exec fuel alarmOf queue function c = some m' →
        Fresh fuel alarmOf queue function cs m'

end RreqMem

section Runs

variable {m : RreqMem} {s : MshData} {alarmOf : Ptr → Ptr} {queue function : Ptr} {fuel : Nat}
variable {c : RreqCall} {cs : List RreqCall}

theorem Wf.at (h : Wf s) (now : Timeval) : Wf (s.at now) := h.congr rfl rfl rfl rfl

/-- The time does not show in memory. -/
theorem RreqMem.Shows.at (h : m.Shows alarmOf queue s) (now : Timeval) :
    m.Shows alarmOf queue (s.at now) := by
  obtain ⟨T, place, addr, h⟩ := h
  exact ⟨T, place, addr, h.alarms, ⟨h.linked.inj, h.linked.blocks, h.linked.stamped, h.linked.fresh⟩,
    h.list, h.alarm⟩

theorem wf_rreqOp (h : Wf s) (c : RreqCall) : Wf (rreqOp s c) := by
  unfold rreqOp
  split
  · exact wf_rreqFifoInsert (h.at c.now) _ _ _ _
  · exact wf_rreqFifoInsert (h.at c.now) _ _ _ _
  · rw [rreqFifoDel]
    split
    · exact wf_rreqFifoEntryDelete (h.at c.now) _
    · exact h.at c.now

/-- One operation makes the buffer and the tree longer by one at most. -/
theorem length_rreqOp_le (s : MshData) (c : RreqCall) :
    (rreqOp s c).rreq_queue.length ≤ s.rreq_queue.length + 1 ∧
      (alarmTree (rreqOp s c)).length ≤ (alarmTree s).length + 1 := by
  unfold rreqOp
  split
  · exact ⟨le_rfl, (alarmTree_rreqFifoInsert (s.at c.now) _ _ _ _).length_eq.le⟩
  · exact ⟨le_rfl, (alarmTree_rreqFifoInsert (s.at c.now) _ _ _ _).length_eq.le⟩
  · rw [rreqFifoDel]
    split
    · refine ⟨(List.length_filter_le _ _).trans (Nat.le_succ _), ?_⟩
      simp only [alarmTree, List.length_append]
      refine Nat.le_succ_of_le (Nat.add_le_add_left ?_ _)
      exact (List.filter_sublist.filterMap _).length_le
    · exact ⟨Nat.le_succ _, Nat.le_succ _⟩

/-- **One operation.** -/
theorem rreqOp_refines (hwf : Wf s) (h : m.Shows alarmOf queue s) (hnow : c.now.Normal)
    (hpos : 0 ≤ c.now.micros) (hfresh : m.FreshAt alarmOf c.entry)
    (hlen : s.rreq_queue.length < fuel) (hfuel : depthBound (alarmTree s).length + 1 < fuel) :
    ∃ m', m.exec fuel alarmOf queue function c = some m' ∧ m'.Shows alarmOf queue (rreqOp s c) := by
  have hclock : c.now.micros = (s.at c.now).os.now := (Int.toNat_of_nonneg hpos).symm
  unfold RreqMem.exec rreqOp
  split
  · exact rreqFifoInsert_refines (hwf.at c.now) (h.at c.now) hfresh hnow hclock hfuel _ _
  · exact rreqFifoInsert_refines (hwf.at c.now) (h.at c.now) hfresh hnow hclock hfuel _ _
  · exact rreqFifoDel_refines (hwf.at c.now) (h.at c.now) _ _ hlen hfuel

/-- **Any sequence of operations** at any times. -/
theorem rreqOps_refine (hwf : Wf s) (h : m.Shows alarmOf queue s)
    (hfresh : m.Fresh fuel alarmOf queue function cs)
    (hlen : s.rreq_queue.length + cs.length < fuel)
    (hfuel : depthBound ((alarmTree s).length + cs.length) + 1 < fuel) :
    ∃ m', m.execAll fuel alarmOf queue function cs = some m' ∧
      m'.Shows alarmOf queue (run rreqOp s cs) := by
  induction cs generalizing m s with
  | nil => exact ⟨m, rfl, h⟩
  | cons c cs ih =>
    obtain ⟨⟨hnow, hpos⟩, hat, hfresh⟩ := hfresh
    simp only [List.length_cons] at hlen hfuel
    obtain ⟨hqueue, htree⟩ := length_rreqOp_le s c
    have hdepth := depthBound_mono (Nat.le_add_right (alarmTree s).length (cs.length + 1))
    have hdepth' : depthBound ((alarmTree (rreqOp s c)).length + cs.length) ≤
        depthBound ((alarmTree s).length + (cs.length + 1)) := depthBound_mono (by omega)
    have hstep : ∃ m', m.exec fuel alarmOf queue function c = some m' ∧
        m'.Shows alarmOf queue (rreqOp s c) :=
      rreqOp_refines hwf h hnow hpos hat (by omega) (by omega)
    obtain ⟨m₁, hm₁, h₁⟩ := hstep
    obtain ⟨m₂, hm₂, h₂⟩ := ih (wf_rreqOp hwf c) h₁ (hfresh m₁ hm₁) (by omega) (by omega)
    exact ⟨m₂, by simp [RreqMem.execAll, hm₁, hm₂], h₂⟩

/-- One request more is buffered. -/
theorem rreqOps_refine_small : ∃ m',
    smallRreqMem.execAll 20 smallAlarmOf node24 NULL [⟨⟨2, 0⟩, node16, .push 9 0x0A000004⟩] =
        some m' ∧
      m'.Shows smallAlarmOf node24
        (run rreqOp smallDaemon [⟨⟨2, 0⟩, node16, .push 9 0x0A000004⟩]) := by
  have hfresh : smallRreqMem.Fresh 20 smallAlarmOf node24 NULL
      [⟨⟨2, 0⟩, node16, .push 9 0x0A000004⟩] :=
    ⟨⟨⟨by decide, by decide⟩, by decide⟩, ⟨by decide, by decide, by decide, by decide⟩,
      fun _ _ => trivial⟩
  exact rreqOps_refine wf_smallDaemon shows_smallRreqMem hfresh (by decide) (by decide)

end Runs

end Meshias
