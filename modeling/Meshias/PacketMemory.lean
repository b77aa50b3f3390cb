import Meshias.LinuxList
import Meshias.PacketOrder

/-!
# Waiting packets in memory

`packets_fifo.c` on the linked list that it is written for.

* `FifoMem` — the objects of the queue, and what has been said to the kernel and counted.
* `packetObjAccept`, `packetObjDrop`, `packetsFifoPush`, `packetsFifoProcessRoute`,
  `packetsFifoDropPackets`, `packetsFifoDelete`, as the source has them.
* `FifoMem.Shows` — the memory shows the queue of the daemon's state, and holds nothing else.

Principal results: `packetOps_refine` — any sequence of operations follows no pointer to freed memory,
ends, and shows what the daemon's functions on lists compute — and `packetsFifo_life`, from the
allocation of the queue to its end: nothing is left in memory, and nothing is freed twice.
-/

set_option autoImplicit false

namespace Meshias

open Machine
open Pointers (Heap)

/-! ## The code -/

structure FifoMem where
  objs : ListMem PacketsFifo
  verdicts : List (U32 × Verdict)
  packets_dropped : U32

namespace FifoMem

/-- What `packet_obj_accept` and `packet_obj_drop` have in common. -/
def packetObjFree (verdict : Verdict) (packet_obj : Ptr) (m : FifoMem) : Option FifoMem := do
  let e ← m.objs.cell packet_obj
  let objs ← listDel m.objs packet_obj
  let objs ← objs.free packet_obj
  return { m with objs, verdicts := m.verdicts ++ [(e.data.id, verdict)] }

def packetObjAccept (packet_obj : Ptr) (m : FifoMem) : Option FifoMem :=
  m.packetObjFree .NF_ACCEPT packet_obj

def packetObjDrop (packet_obj : Ptr) (m : FifoMem) : Option FifoMem := do
  let m ← m.packetObjFree .NF_DROP packet_obj
  return { m with packets_dropped := m.packets_dropped + 1 }

/-- `queue` is what `calloc` returns. -/
def packetsFifoAlloc (queue : Ptr) (m : FifoMem) : Option FifoMem :=
  if h : queue ≠ NULL then do
    let objs ← initListHead (m.objs.alloc queue h ⟨⟨0, 0⟩, ⟨NULL, NULL⟩⟩) queue
    return { m with objs }
  else none

/-- `packet_obj` is what `calloc` returns. -/
def packetsFifoPush (queue packet_obj : Ptr) (id : U32) (dest : InAddr) (m : FifoMem) :
    Option FifoMem :=
  if h : packet_obj ≠ NULL then do
    let objs ← listAdd (m.objs.alloc packet_obj h ⟨⟨id, dest⟩, ⟨NULL, NULL⟩⟩) packet_obj queue
    return { m with objs }
  else none

def packetsFifoDropPackets (fuel : Nat) (queue : Ptr) (dest : InAddr) (m : FifoMem) :
    Option FifoMem :=
  listDeleteWhere FifoMem.objs queue (fun entry => entry.dest = dest) packetObjDrop fuel m

def packetsFifoProcessRoute (fuel : Nat) (queue : Ptr) (route : MshRoute) (m : FifoMem) :
    Option FifoMem :=
  listDeleteWhere FifoMem.objs queue (fun entry =>
    !mshRouteCompare { self := 0, dst_ip := entry.dest } route
      RTFIND_BY_DEST_LONGEST_PREFIX_MATCHING) packetObjAccept fuel m

def packetsFifoIsEmpty (queue : Ptr) (m : FifoMem) : Option Bool := listEmpty m.objs queue

def packetsFifoDelete (fuel : Nat) (queue : Ptr) (m : FifoMem) : Option FifoMem := do
  let m ← listDeleteWhere FifoMem.objs queue (fun _ => true) packetObjDrop fuel m
  let objs ← m.objs.free queue
  return { m with objs }

/-- An operation, with what `calloc` would return for it. -/
def exec (fuel : Nat) (queue : Ptr) (m : FifoMem) : PacketOp × Ptr → Option FifoMem
  | (.push id dest, packet_obj) => m.packetsFifoPush queue packet_obj id dest
  | (.processRoute route, _) => m.packetsFifoProcessRoute fuel queue route
  | (.dropPackets dest, _) => m.packetsFifoDropPackets fuel queue dest

def execAll (fuel : Nat) (queue : Ptr) : List (PacketOp × Ptr) → FifoMem → Option FifoMem
  | [], m => some m
  | op :: ops, m => (m.exec fuel queue op).bind (execAll fuel queue ops)

end FifoMem

/-- `calloc` returns the address of no object that exists. -/
def FifoMem.Fresh (fuel : Nat) (queue : Ptr) : List (PacketOp × Ptr) → FifoMem → Prop
  | [], _ => True
  | op :: ops, m => op.2 ≠ NULL ∧ m.objs.cell op.2 = none ∧
      ∀ m', m.exec fuel queue op = some m' → Fresh fuel queue ops m'

instance FifoMem.Fresh.decidable (fuel : Nat) (queue : Ptr) :
    ∀ ops (m : FifoMem), Decidable (m.Fresh fuel queue ops)
  | [], _ => isTrue trivial
  | op :: ops, m =>
    have : DecidablePred (Fresh fuel queue ops) := Fresh.decidable fuel queue ops
    inferInstanceAs (Decidable (op.2 ≠ NULL ∧ m.objs.cell op.2 = none ∧
      ∀ m' ∈ m.exec fuel queue op, Fresh fuel queue ops m'))

/-! ## What the memory shows -/

/-- The objects of the memory are the head of the queue and its packets. -/
structure FifoMem.Shows (queue : Ptr) (m : FifoMem) (s : MshData) : Prop where
  list : ∃ l, HoldsList (fun _ => none) m.objs queue l ∧ l.map Prod.snd = s.packets_queue
  verdicts : m.verdicts = s.os.verdicts
  dropped : m.packets_dropped = s.stats.packets_dropped

section Operations

variable {m : FifoMem} {s : MshData} {queue : Ptr} {fuel : Nat} {k l : List (Ptr × PacketsFifo)}
variable {x : Ptr × PacketsFifo} {rest : Ptr → Option (Entry PacketsFifo)}

theorem packetObjFree_spec (h : HoldsList rest m.objs queue (k ++ x :: l)) (hrest : rest x.1 = none)
    (verdict : Verdict) :
    ∃ m', m.packetObjFree verdict x.1 = some m' ∧ HoldsList rest m'.objs queue (k ++ l) ∧
      m'.verdicts = m.verdicts ++ [(x.2.id, verdict)] ∧
      m'.packets_dropped = m.packets_dropped := by
  obtain ⟨e, he, hdata⟩ := Option.map_eq_some_iff.1 (h.data x (by simp))
  obtain ⟨objs, objs', hobjs, hobjs', h'⟩ := listDel_free_spec h hrest
  refine ⟨{ m with objs := objs', verdicts := m.verdicts ++ [(e.data.id, verdict)] }, ?_, h', ?_,
    rfl⟩
  · simp [FifoMem.packetObjFree, he, hobjs, hobjs']
  · rw [hdata]

/-- The accepting loop. -/
theorem acceptWhere_refines (h : m.Shows queue s) (p : PacketsFifo → Bool)
    (hfuel : s.packets_queue.length < fuel) :
    ∃ m', listDeleteWhere FifoMem.objs queue p FifoMem.packetObjAccept fuel m = some m' ∧
      m'.Shows queue (packetObjAcceptWhere s p) := by
  obtain ⟨⟨l, hl, hmap⟩, hverdicts, hdropped⟩ := h
  obtain ⟨m', hm', hl', hv', hd'⟩ := listDeleteWhere_spec FifoMem.packetObjAccept p
    (fun taken t => t.verdicts = s.os.verdicts ++ taken.map (fun x => (x.2.id, .NF_ACCEPT)) ∧
      t.packets_dropped = s.stats.packets_dropped) hl (by simp [hverdicts, hdropped])
    (fun t k x l taken _ ht hJ => by
      obtain ⟨t', hrun, ht', hv, hd⟩ := packetObjFree_spec ht rfl .NF_ACCEPT
      exact ⟨t', hrun, ht', by simp [hv, hJ.1], hd.trans hJ.2⟩)
    (show l.length < fuel by rw [← hmap] at hfuel; simpa using hfuel)
  refine ⟨m', hm', ⟨_, hl', ?_⟩, ?_, hd'⟩
  · simp [← hmap, List.filter_map, Function.comp_def]
  · simp [hv', ← hmap, List.filter_map, Function.comp_def]

/-- The dropping loop. -/
theorem dropWhere_refines (h : m.Shows queue s) (p : PacketsFifo → Bool)
    (hfuel : s.packets_queue.length < fuel) :
    ∃ m', listDeleteWhere FifoMem.objs queue p FifoMem.packetObjDrop fuel m = some m' ∧
      m'.Shows queue (packetObjDropWhere s p) := by
  obtain ⟨⟨l, hl, hmap⟩, hverdicts, hdropped⟩ := h
  obtain ⟨m', hm', hl', hv', hd'⟩ := listDeleteWhere_spec FifoMem.packetObjDrop p
    (fun taken t => t.verdicts = s.os.verdicts ++ taken.map (fun x => (x.2.id, .NF_DROP)) ∧
      t.packets_dropped = s.stats.packets_dropped + BitVec.ofNat 32 taken.length) hl
    (by simp [hverdicts, hdropped])
    (fun t k x l taken _ ht hJ => by
      obtain ⟨t', hrun, ht', hv, hd⟩ := packetObjFree_spec ht rfl .NF_DROP
      refine ⟨{ t' with packets_dropped := t'.packets_dropped + 1 },
        by simp [FifoMem.packetObjDrop, hrun], ht', by simp [hv, hJ.1], ?_⟩
      show t'.packets_dropped + 1 = _
      rw [hd, hJ.2, List.length_append, List.length_singleton, BitVec.ofNat_add, BitVec.add_assoc]
      rfl)
    (show l.length < fuel by rw [← hmap] at hfuel; simpa using hfuel)
  refine ⟨m', hm', ⟨_, hl', ?_⟩, ?_, ?_⟩
  · simp [← hmap, List.filter_map, Function.comp_def]
  · simp [hv', ← hmap, List.filter_map, Function.comp_def]
  · simp [hd', ← hmap, List.filter_map, Function.comp_def]

theorem packetsFifoPush_refines {packet_obj : Ptr} (h : m.Shows queue s) (hne : packet_obj ≠ NULL)
    (hfree : m.objs.cell packet_obj = none) (id : U32) (dest : InAddr) :
    ∃ m', m.packetsFifoPush queue packet_obj id dest = some m' ∧
      m'.Shows queue (packetsFifoPush s id dest) := by
  obtain ⟨⟨l, hl, hmap⟩, hverdicts, hdropped⟩ := h
  obtain ⟨objs, hobjs, hl', -⟩ := listAdd_alloc_spec hl hne hfree ⟨⟨id, dest⟩, ⟨NULL, NULL⟩⟩
  exact ⟨{ m with objs }, by simp [FifoMem.packetsFifoPush, hne, hobjs],
    ⟨_, hl', by simp [hmap]⟩, hverdicts, hdropped⟩

/-- **One operation.** -/
theorem packetOp_refines {op : PacketOp × Ptr} (h : m.Shows queue s) (hne : op.2 ≠ NULL)
    (hfree : m.objs.cell op.2 = none) (hfuel : s.packets_queue.length < fuel) :
    ∃ m', m.exec fuel queue op = some m' ∧ m'.Shows queue (packetOp s op.1) := by
  obtain ⟨op, packet_obj⟩ := op
  cases op with
  | push id dest => exact packetsFifoPush_refines h hne hfree id dest
  | processRoute route =>
    simp only [FifoMem.exec, FifoMem.packetsFifoProcessRoute, packetOp, packetsFifoProcessRoute]
    exact acceptWhere_refines h _ hfuel
  | dropPackets dest =>
    simp only [FifoMem.exec, FifoMem.packetsFifoDropPackets, packetOp, packetsFifoDropPackets]
    exact dropWhere_refines h _ hfuel

theorem length_packetOp_le (s : MshData) (op : PacketOp) :
    (packetOp s op).packets_queue.length ≤ s.packets_queue.length + 1 := by
  cases op with
  | push id dest => simp [packetOp]
  | processRoute route =>
    exact (List.length_filter_le _ _).trans (Nat.le_succ _)
  | dropPackets dest =>
    exact (List.length_filter_le _ _).trans (Nat.le_succ _)

/-- **Any sequence of operations** on the list in memory. -/
theorem packetOps_refine {ops : List (PacketOp × Ptr)} (h : m.Shows queue s)
    (hfresh : m.Fresh fuel queue ops) (hfuel : s.packets_queue.length + ops.length < fuel) :
    ∃ m', m.execAll fuel queue ops = some m' ∧
      m'.Shows queue (run packetOp s (ops.map Prod.fst)) := by
  induction ops generalizing m s with
  | nil => exact ⟨m, rfl, h⟩
  | cons op ops ih =>
    obtain ⟨hne, hfree, hfresh⟩ := hfresh
    have hlen := length_packetOp_le s op.1
    simp only [List.length_cons] at hfuel
    obtain ⟨m₁, hm₁, h₁⟩ := packetOp_refines h hne hfree (show _ < fuel by omega)
    obtain ⟨m₂, hm₂, h₂⟩ := ih h₁ (hfresh m₁ hm₁) (by omega)
    exact ⟨m₂, by simp [FifoMem.execAll, hm₁, hm₂], h₂⟩

/-- The queue is empty when its head points to itself. -/
theorem packetsFifoIsEmpty_spec (h : m.Shows queue s) :
    m.packetsFifoIsEmpty queue = some s.packets_queue.isEmpty := by
  obtain ⟨⟨l, hl, hmap⟩, -, -⟩ := h
  rw [FifoMem.packetsFifoIsEmpty, listEmpty_spec hl, ← hmap]
  simp

/-! ## From the allocation to the end -/

theorem packetsFifoAlloc_shows (hne : queue ≠ NULL) (hempty : ∀ q, m.objs.cell q = none)
    (hs : s.packets_queue = []) (hverdicts : m.verdicts = s.os.verdicts)
    (hdropped : m.packets_dropped = s.stats.packets_dropped) :
    ∃ m', m.packetsFifoAlloc queue = some m' ∧ m'.Shows queue s := by
  obtain ⟨objs, hobjs, hl⟩ := initListHead_alloc_spec m.objs hne ⟨⟨0, 0⟩, ⟨NULL, NULL⟩⟩
  rw [show m.objs.cell = fun _ => none from funext hempty] at hl
  exact ⟨{ m with objs }, by simp only [FifoMem.packetsFifoAlloc, dif_pos hne, hobjs]; rfl,
    ⟨[], hl, by simp [hs]⟩, hverdicts, hdropped⟩

/-- **The end of the queue**: its packets are dropped, and no object is left. -/
theorem packetsFifoDelete_refines (h : m.Shows queue s) (hfuel : s.packets_queue.length < fuel) :
    ∃ m', m.packetsFifoDelete fuel queue = some m' ∧ (∀ q, m'.objs.cell q = none) ∧
      m'.verdicts = (packetObjDropWhere s (fun _ => true)).os.verdicts ∧
      m'.packets_dropped = (packetObjDropWhere s (fun _ => true)).stats.packets_dropped := by
  obtain ⟨m₁, hm₁, ⟨l, hl, hmap⟩, hverdicts, hdropped⟩ := dropWhere_refines h (fun _ => true) hfuel
  obtain rfl : l = [] := by
    rw [packetObjDropWhere_packets_queue] at hmap
    simpa using hmap
  obtain ⟨e, he, -⟩ := hl.first
  obtain ⟨objs, hobjs, hcell⟩ := Heap.free_of_cell he
  refine ⟨{ m₁ with objs }, by simp [FifoMem.packetsFifoDelete, hm₁, hobjs], fun q => ?_,
    hverdicts, hdropped⟩
  by_cases hq : q = queue
  · obtain ⟨-, -, rfl⟩ := Option.map_eq_some_iff.1 hobjs
    simp [hq]
  · show objs.cell q = none
    rw [hcell q hq, hl.frame q (by simpa using hq)]

/-- **The life of the queue.**  From a memory without objects, after any sequence of operations and
    the end, there are no objects again, the kernel has heard what the daemon's state says, and the
    packets that were left are dropped. -/
theorem packetsFifo_life {ops : List (PacketOp × Ptr)} (hne : queue ≠ NULL)
    (hempty : ∀ q, m.objs.cell q = none) (hs : s.packets_queue = [])
    (hverdicts : m.verdicts = s.os.verdicts) (hdropped : m.packets_dropped = s.stats.packets_dropped)
    (hfresh : ∀ m', m.packetsFifoAlloc queue = some m' → m'.Fresh fuel queue ops)
    (hfuel : ops.length < fuel) :
    ∃ m', ((m.packetsFifoAlloc queue).bind (FifoMem.execAll fuel queue ops)).bind
        (FifoMem.packetsFifoDelete fuel queue) = some m' ∧
      (∀ q, m'.objs.cell q = none) ∧
      m'.verdicts = (run packetOp s (ops.map Prod.fst)).os.verdicts ++
        (run packetOp s (ops.map Prod.fst)).packets_queue.map (fun e => (e.id, .NF_DROP)) := by
  obtain ⟨m₁, hm₁, h₁⟩ := packetsFifoAlloc_shows hne hempty hs hverdicts hdropped
  obtain ⟨m₂, hm₂, h₂⟩ := packetOps_refine h₁ (hfresh m₁ hm₁) (by simpa [hs] using hfuel)
  have hlen : ∀ (s : MshData) (is : List PacketOp),
      (run packetOp s is).packets_queue.length ≤ s.packets_queue.length + is.length := by
    intro s is
    induction is generalizing s with
    | nil => simp
    | cons i is ih =>
      have hstep := length_packetOp_le s i
      have hrest := ih (packetOp s i)
      simp only [run_cons, List.length_cons]
      omega
  have hshort := hlen s (ops.map Prod.fst)
  rw [hs, List.length_map, List.length_nil, Nat.zero_add] at hshort
  obtain ⟨m₃, hm₃, hcell, hv, -⟩ := packetsFifoDelete_refines h₂ (hshort.trans_lt hfuel)
  exact ⟨m₃, by simp [hm₁, hm₂, hm₃], hcell, by simp [hv]⟩

end Operations

/-- A memory without objects. -/
def emptyFifo : FifoMem := ⟨⟨fun _ => none, rfl⟩, [], 0⟩

/-- The packets 7, 8 and 9: the first is dropped, and its address is used again for the third; the second
    is accepted for a route; the third waits until the end. -/
def smallPacketOps : List (PacketOp × Ptr) :=
  [(.push 7 0x0A000003, node16), (.push 8 0x0A000004, node24),
    (.dropPackets 0x0A000003, node32), (.push 9 0x0A000005, node16),
    (.processRoute { self := 0, dst_ip := 0x0A000004 }, node32)]

theorem packetsFifo_life_small : ∃ m',
    ((emptyFifo.packetsFifoAlloc node8).bind (FifoMem.execAll 6 node8 smallPacketOps)).bind
        (FifoMem.packetsFifoDelete 6 node8) = some m' ∧
      (∀ q, m'.objs.cell q = none) ∧
      m'.verdicts = [(7, .NF_DROP), (8, .NF_ACCEPT), (9, .NF_DROP)] := by
  have hfresh : ∀ m' ∈ emptyFifo.packetsFifoAlloc node8, m'.Fresh 6 node8 smallPacketOps := by
    decide +kernel
  exact packetsFifo_life (s := mshDataInit 0x0A000001 0x0A0000FF 0) (by decide) (fun _ => rfl) rfl rfl
    rfl hfresh (by decide)

end Meshias
