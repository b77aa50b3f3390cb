import Meshias.AlarmQueue

/-!
# Runs of the alarms

* `Timetable` — the blocks that exist, and the queue of the pending ones.
* `AlarmOp` — a block comes into being and is initialised, is set, is stopped, or is freed.

Principal result: `alarmOps_refine` — any sequence of such operations follows no null pointer, ends,
and shows the timetable that the sequence makes.
-/

set_option autoImplicit false

namespace Meshias

open RedBlack
open RedBlack.RBTree
open Pointers (Heap)
open Timers (Queue)

/-! ## Timetables -/

@[ext]
structure Timetable where
  blocks : Set Ptr
  queue : Queue Ptr Int
  known : ∀ a, queue.Pending a → a ∈ blocks

namespace Timetable

def create (T : Timetable) (a : Ptr) : Timetable where
  blocks := insert a T.blocks
  queue := T.queue
  known b hb := .inr (T.known b hb)

def add (T : Timetable) (a : Ptr) (ha : a ∈ T.blocks) (time : Int) : Timetable where
  blocks := T.blocks
  queue := T.queue.add a time
  known b hb := by
    rcases Queue.pending_add.1 hb with rfl | hb
    · exact ha
    · exact T.known b hb

def del (T : Timetable) (a : Ptr) : Timetable where
  blocks := T.blocks
  queue := T.queue.del a
  known b hb := T.known b (Queue.pending_del.1 hb).2

def free (T : Timetable) (a : Ptr) : Timetable where
  blocks := T.blocks \ {a}
  queue := T.queue.del a
  known b hb := ⟨T.known b (Queue.pending_del.1 hb).2, (Queue.pending_del.1 hb).1⟩

theorem free_del (T : Timetable) (a : Ptr) : (T.del a).free a = T.free a :=
  Timetable.ext rfl (Queue.del_of_not_pending (q := T.queue.del a) (by simp))

end Timetable

/-- The memory shows a timetable. -/
def AlarmMem.ShowsTable (m : AlarmMem) (T : Timetable) : Prop := Shows m T.blocks T.queue

/-! ## Operations -/

/-- What the program does to its alarm blocks.  A block is part of an object that is allocated, with
    anything in it, and freed. -/
inductive AlarmOp where
  | create (t : Ptr) (content : RbNode) (data function : Ptr)
  | add (now : Timeval) (alarm : Ptr) (sc usc : Nat)
  | del (alarm : Ptr)
  | free (alarm : Ptr)

def AlarmMem.exec (fuel : Nat) (m : AlarmMem) : AlarmOp → Option AlarmMem
  | .create t content data function =>
    if ht : t ≠ NULL then
      { m with rb := { m.rb with nodes := m.rb.nodes.alloc t ht content } }.initAlarm t data function
    else none
  | .add now alarm sc usc => m.addAlarm fuel now alarm sc usc
  | .del alarm => m.delAlarm fuel alarm
  | .free alarm => (m.rb.nodes.free alarm).map (fun nodes => { m with rb := { m.rb with nodes } })

def AlarmMem.execAll (fuel : Nat) : List AlarmOp → AlarmMem → Option AlarmMem
  | [], m => some m
  | op :: ops, m => (m.exec fuel op).bind (AlarmMem.execAll fuel ops)

/-- A block is created once, used while it exists, and not freed while it is pending. -/
inductive Legal : Timetable → AlarmOp → Timetable → Prop where
  | create {T : Timetable} {t : Ptr} (content : RbNode) (data function : Ptr) :
    t ≠ NULL → t ∉ T.blocks → Legal T (.create t content data function) (T.create t)
  | add {T : Timetable} {now : Timeval} {alarm : Ptr} {sc usc : Nat} (h : alarm ∈ T.blocks) :
    now.Normal → usc < 1000000 →
      Legal T (.add now alarm sc usc) (T.add alarm h (now.micros + (sc * 1000000 + usc)))
  | del {T : Timetable} {alarm : Ptr} : alarm ∈ T.blocks → Legal T (.del alarm) (T.del alarm)
  | free {T : Timetable} {alarm : Ptr} :
    alarm ∈ T.blocks → ¬ T.queue.Pending alarm → Legal T (.free alarm) (T.free alarm)

/-- A sequence of legal operations with never more than `n` alarms pending before one. -/
inductive LegalRun (n : Nat) : Timetable → List AlarmOp → Timetable → Prop where
  | nil (T : Timetable) : LegalRun n T [] T
  | cons {T T' T'' : Timetable} {op : AlarmOp} {ops : List AlarmOp} :
    Legal T op T' → T.queue.entries.length ≤ n → LegalRun n T' ops T'' →
      LegalRun n T (op :: ops) T''

section Operations

variable {m : AlarmMem} {blocks : Set Ptr} {q : Queue Ptr Int} {a : Ptr} {fuel n : Nat}
variable {t : RBTree Ptr} {T T' : Timetable} {op : AlarmOp} {ops : List AlarmOp}

/-- What is at an address that is not in the tree does not matter. -/
theorem TreeShows.outside (h : TreeShows m blocks q t) (nodes : Heap Ptr RbNode NULL)
    (hnot : ¬ q.Pending a) (heq : ∀ b, b ≠ a → nodes.cell b = m.rb.nodes.cell b) :
    TreeShows { m with rb := { m.rb with nodes } } (blocks \ {a}) q t := by
  have hne : ∀ b ∈ t.inorder, b ≠ a := by
    rintro b hb rfl
    exact hnot (h.pending_iff.2 hb)
  refine ⟨⟨?_, h.holds.root, h.holds.nodup, fun _ _ => rfl⟩, h.balanced, h.entries, h.normal,
    fun b hb => ⟨h.known b hb, hne b hb⟩, fun b hb hbout => ?_⟩
  · exact (treeAt_congr (fun b hb => heq b (hne b hb))).2 h.holds.tree
  · rw [← h.idle b hb.1 hbout]
    exact emptyNode_congr (heq b hb.2)

/-- **One operation.** -/
theorem legal_refines (h : m.ShowsTable T) (hlegal : Legal T op T')
    (hfuel : depthBound T.queue.entries.length + 1 < fuel) :
    ∃ m', m.exec fuel op = some m' ∧ m'.ShowsTable T' := by
  cases hlegal with
  | @create t content data function ht hfresh =>
    obtain ⟨tree, h⟩ := h
    have hnot : ¬ T.queue.Pending t := fun hp => hfresh (T.known t hp)
    have hout := h.outside (m.rb.nodes.alloc t ht content) hnot
      (fun b hb => Heap.alloc_other ht hb)
    rw [Set.sdiff_singleton_eq_self hfresh] at hout
    obtain ⟨m', hm', h'⟩ := initAlarm_spec data function ⟨tree, hout⟩
      (by simp [RbMem.get]) hnot
    exact ⟨m', by simp [AlarmMem.exec, ht, hm'], h'⟩
  | @add now alarm sc usc hknown hnow husc =>
    obtain ⟨rb, hrb, h'⟩ := addAlarm_spec sc h hknown hnow husc hfuel
    exact ⟨_, hrb, h'⟩
  | @del alarm hknown =>
    obtain ⟨rb, hrb, h'⟩ := delAlarm_spec h hknown (show _ < fuel by omega)
    exact ⟨_, hrb, h'⟩
  | @free alarm hknown hnot =>
    obtain ⟨tree, h⟩ := h
    obtain ⟨r, hr⟩ := h.get hknown
    obtain ⟨nodes, hnodes, hcells⟩ := Heap.free_of_cell hr
    have hqueue : (T.free alarm).queue = T.queue := Queue.del_of_not_pending hnot
    refine ⟨{ m with rb := { m.rb with nodes } }, by simp [AlarmMem.exec, hnodes], ?_⟩
    rw [AlarmMem.ShowsTable, hqueue]
    exact ⟨tree, h.outside nodes hnot hcells⟩

/-- Before the first operation there is no tree. -/
theorem showsTable_empty (nodes : Heap Ptr RbNode NULL) (tv : Ptr → Timeval)
    (data function : Ptr → Ptr) :
    AlarmMem.ShowsTable ⟨⟨nodes, NULL⟩, tv, data, function⟩
      ⟨∅, Queue.empty, fun _ h => by cases h⟩ :=
  ⟨.nil, ⟨trivial, rfl, .nil, fun _ _ => rfl⟩, ⟨rfl, 0, trivial⟩, rfl, by simp [inorder],
    by simp [inorder], by simp⟩

/-- The small tree as alarms, after one and after two seconds. -/
def smallAlarms : AlarmMem where
  rb := smallRbMem
  tv p := if p = node8 then ⟨1, 0⟩ else ⟨2, 0⟩
  data _ := NULL
  function _ := NULL

def smallTimetable : Timetable where
  blocks := {node8, node16}
  queue := ⟨[(node8, 1000000), (node16, 2000000)], by decide, by decide⟩
  known a h := by simpa [Queue.Pending] using h

theorem showsTable_smallAlarms : smallAlarms.ShowsTable smallTimetable := by
  refine ⟨smallTree, holds_smallTree, rootBlack_smallTree, by decide, ?_, ?_, ?_⟩
  · intro a _
    show (if a = node8 then (⟨1, 0⟩ : Timeval) else ⟨2, 0⟩).Normal
    split <;> exact ⟨by decide, by decide⟩
  · intro a ha
    simpa [smallTree, smallTimetable, inorder] using ha
  · intro a ha hnot
    exact absurd (by simpa [smallTree, smallTimetable, inorder] using ha) hnot

/-- **Any sequence of operations** follows no null pointer, ends, and shows the timetable it makes. -/
theorem alarmOps_refine (h : m.ShowsTable T) (hrun : LegalRun n T ops T')
    (hfuel : depthBound n + 1 < fuel) :
    ∃ m', m.execAll fuel ops = some m' ∧ m'.ShowsTable T' := by
  induction hrun generalizing m with
  | nil T => exact ⟨m, rfl, h⟩
  | cons hlegal hlen hrest ih =>
    have hdepth := depthBound_mono hlen
    obtain ⟨m₁, hm₁, h₁⟩ := legal_refines h hlegal (show _ < fuel by omega)
    obtain ⟨m₂, hm₂, h₂⟩ := ih h₁
    exact ⟨m₂, by simp [AlarmMem.execAll, hm₁, hm₂], h₂⟩

/-- The first alarm is stopped, and set again for six seconds. -/
theorem alarmOps_refine_small : ∃ m' T',
    smallAlarms.execAll 20 [.del node8, .add ⟨5, 0⟩ node8 1 0] = some m' ∧ m'.ShowsTable T' ∧
      T'.queue.entries = [(node16, 2000000), (node8, 6000000)] := by
  have hknown : node8 ∈ (smallTimetable.del node8).blocks := by
    simp [smallTimetable, Timetable.del]
  have hadd : Legal (smallTimetable.del node8) (.add ⟨5, 0⟩ node8 1 0)
      ((smallTimetable.del node8).add node8 hknown 6000000) :=
    .add hknown ⟨by decide, by decide⟩ (by decide)
  have hrun : LegalRun 2 smallTimetable [.del node8, .add ⟨5, 0⟩ node8 1 0]
      ((smallTimetable.del node8).add node8 hknown 6000000) :=
    .cons (.del hknown) (by decide) (.cons hadd (by decide) (.nil _))
  obtain ⟨m', hm', hshows⟩ :=
    alarmOps_refine showsTable_smallAlarms hrun (show depthBound 2 + 1 < 20 by decide)
  refine ⟨m', _, hm', hshows, ?_⟩
  show (((smallTimetable.queue.del node8).add node8 6000000).entries) = _
  decide

end Operations

end Meshias
