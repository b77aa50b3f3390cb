import Meshias.LinuxList
import Meshias.Route
import Meshias.Lib.Machine

/-!
# Precursor lists in memory

The precursors of a route, `msh_route_add_precursor` to `msh_route_foreach_precursor`, and the loop of
`msh_route_destroy` that frees them.  The list is the one whose head is in the route.

* `PrecursorOp` — a precursor is added, or deleted.
* `precursorOp` — the same on a list of addresses.

Principal results: `precursorOps_refine` — any sequence of them follows no pointer to freed memory and
shows the list of addresses — and `precursors_visited` — afterwards `msh_route_foreach_precursor`
visits an address exactly once when the last operation on it has added it, and otherwise not at all,
and the end of the route frees what is in the list and nothing else.
-/

set_option autoImplicit false

namespace Meshias

open Machine
open Pointers (Heap)

/-! ## The code -/

abbrev PrecursorMem := ListMem InAddr

namespace PrecursorMem

/-- `entry` is what `calloc` returns. -/
def mshRouteAddPrecursor (fuel : Nat) (route entry : Ptr) (dst_ip : InAddr) (m : PrecursorMem) :
    Option PrecursorMem := do
  if (← listFind fuel m route (fun d => d = dst_ip)).isSome then return m
  else if h : entry ≠ NULL then listAdd (m.alloc entry h ⟨dst_ip, ⟨NULL, NULL⟩⟩) entry route
  else none

def freePrecursor (entry : Ptr) (m : PrecursorMem) : Option PrecursorMem := do
  let m ← listDel m entry
  m.free entry

/-- The loop returns after `free`. -/
def mshRouteDelPrecursor (fuel : Nat) (route : Ptr) (dst_ip : InAddr) (m : PrecursorMem) :
    Option PrecursorMem :=
  listForEachEntry id route (fun entry m => do
    let e ← m.cell entry
    if e.data = dst_ip then
      return .done (← freePrecursor entry m)
    else return .yield m) fuel m

/-- The callback is called for each address; `σ` is what it works on. -/
def mshRouteForeachPrecursor {σ : Type} (fuel : Nat) (route : Ptr) (callback : InAddr → σ → σ)
    (m : PrecursorMem) (data : σ) : Option σ :=
  listForEachEntry (fun _ => m) route (fun entry data => do
    let e ← m.cell entry
    return .yield (callback e.data data)) fuel data

/-- The loop of `msh_route_destroy`. -/
def freePrecursors (fuel : Nat) (route : Ptr) (m : PrecursorMem) : Option PrecursorMem :=
  listDeleteWhere id route (fun _ => true) freePrecursor fuel m

end PrecursorMem

inductive PrecursorOp where
  | add (dst_ip : InAddr)
  | del (dst_ip : InAddr)
  deriving DecidableEq, Repr

/-- On a list of addresses. -/
def precursorOp (l : List InAddr) : PrecursorOp → List InAddr
  | .add dst_ip => l.insert dst_ip
  | .del dst_ip => l.erase dst_ip

namespace PrecursorMem

/-- An operation, with what `calloc` would return for it. -/
def exec (fuel : Nat) (route : Ptr) (m : PrecursorMem) : PrecursorOp × Ptr → Option PrecursorMem
  | (.add dst_ip, entry) => m.mshRouteAddPrecursor fuel route entry dst_ip
  | (.del dst_ip, _) => m.mshRouteDelPrecursor fuel route dst_ip

def execAll (fuel : Nat) (route : Ptr) : List (PrecursorOp × Ptr) → PrecursorMem → Option PrecursorMem
  | [], m => some m
  | op :: ops, m => (m.exec fuel route op).bind (execAll fuel route ops)

/-- `calloc` returns the address of no object that exists. -/
def Fresh (fuel : Nat) (route : Ptr) : List (PrecursorOp × Ptr) → PrecursorMem → Prop
  | [], _ => True
  | op :: ops, m => op.2 ≠ NULL ∧ m.cell op.2 = none ∧
      ∀ m', m.exec fuel route op = some m' → Fresh fuel route ops m'

instance Fresh.decidable (fuel : Nat) (route : Ptr) :
    ∀ ops (m : PrecursorMem), Decidable (Fresh fuel route ops m)
  | [], _ => isTrue trivial
  | op :: ops, m =>
    have : DecidablePred (Fresh fuel route ops) := Fresh.decidable fuel route ops
    inferInstanceAs (Decidable (op.2 ≠ NULL ∧ m.cell op.2 = none ∧
      ∀ m' ∈ m.exec fuel route op, Fresh fuel route ops m'))

/-- The precursors of `route` are `l`, and the memory holds besides what `rest` says. -/
def Shows (rest : Ptr → Option (Entry InAddr)) (route : Ptr) (m : PrecursorMem)
    (l : List InAddr) : Prop :=
  ∃ k, HoldsList rest m route k ∧ k.map Prod.snd = l ∧ ∀ x ∈ k, rest x.1 = none

end PrecursorMem

/-! ## The operations -/

section Operations

variable {m : PrecursorMem} {route entry : Ptr} {fuel : Nat} {l : List InAddr} {dst_ip : InAddr}
variable {rest : Ptr → Option (Entry InAddr)}

theorem addPrecursor_refines (h : m.Shows rest route l) (hne : entry ≠ NULL)
    (hfree : m.cell entry = none) (hfuel : l.length < fuel) :
    ∃ m', m.mshRouteAddPrecursor fuel route entry dst_ip = some m' ∧
      PrecursorMem.Shows rest route m' (precursorOp l (.add dst_ip)) := by
  obtain ⟨k, hk, rfl, hrest⟩ := h
  have hfind := listFind_spec hk (fun d => d = dst_ip) (by simpa using hfuel)
  have hmem : (k.find? (fun x => decide (x.2 = dst_ip))).isSome ↔ dst_ip ∈ k.map Prod.snd := by
    rw [List.find?_isSome, List.mem_map]
    simp
  by_cases hin : dst_ip ∈ k.map Prod.snd
  · refine ⟨m, ?_, k, hk, by simp only [precursorOp, List.insert_of_mem hin], hrest⟩
    have hsome := hmem.2 hin
    simp [PrecursorMem.mshRouteAddPrecursor, hfind, hsome]
  · obtain ⟨m', hm', hk', hout⟩ := listAdd_alloc_spec hk hne hfree ⟨dst_ip, ⟨NULL, NULL⟩⟩
    refine ⟨m', ?_, _, hk', by simp only [precursorOp, List.insert_of_not_mem hin, List.map_cons], ?_⟩
    · have hnone : (k.find? (fun x => decide (x.2 = dst_ip))).isSome = false :=
        Bool.eq_false_iff.2 (fun hsome => hin (hmem.1 hsome))
      simp [PrecursorMem.mshRouteAddPrecursor, hfind, hnone, hne, hm']
    · intro x hx
      rcases List.mem_cons.1 hx with rfl | hx
      · exact hout
      · exact hrest x hx

theorem delPrecursor_refines (h : m.Shows rest route l) (hfuel : l.length < fuel) :
    ∃ m', m.mshRouteDelPrecursor fuel route dst_ip = some m' ∧
      PrecursorMem.Shows rest route m' (precursorOp l (.del dst_ip)) := by
  obtain ⟨k, hk, rfl, hrest⟩ := h
  -- nothing is changed until the address is found
  refine listForEachEntry_spec (fun todo m' => m' = m ∧ ∃ u v, k = u ++ v ∧ v.map Prod.fst = todo ∧
    dst_ip ∉ u.map Prod.snd) hk.ring ?_ ?_ ⟨rfl, [], k, rfl, rfl, by simp⟩ (by simpa using hfuel)
  · rintro p todo m' - ⟨rfl, u, v, rfl, hmap, hu⟩
    obtain ⟨x, v, rfl, rfl, rfl⟩ := List.map_eq_cons_iff.1 hmap
    obtain ⟨e, he, hdata⟩ := Option.map_eq_some_iff.1 (hk.data x (by simp))
    by_cases hx : x.2 = dst_ip
    · left
      obtain ⟨m₁, m₂, hm₁, hm₂, h'⟩ := listDel_free_spec hk (hrest x (by simp))
      refine ⟨m₂, by simp [he, hdata, hx, PrecursorMem.freePrecursor, hm₁, hm₂], u ++ v, h', ?_, fun y hy => ?_⟩
      · simp only [precursorOp, List.map_append, List.map_cons, hx]
        rw [List.erase_append_right _ hu, List.erase_cons_head]
      · exact hrest y (by simp only [List.mem_append, List.mem_cons] at hy ⊢; tauto)
    · right
      refine ⟨m', u.map Prod.fst, by simp [he, hdata, hx], ⟨rfl, u ++ [x], v, by simp, rfl, ?_⟩,
        by simpa using hk.ring⟩
      simp only [List.map_append, List.mem_append, not_or]
      exact ⟨hu, by simpa using Ne.symm hx⟩
  · rintro m' ⟨rfl, u, v, rfl, hmap, hu⟩
    obtain rfl := List.map_eq_nil_iff.1 hmap
    rw [List.append_nil] at hk hrest ⊢
    exact ⟨u, hk, (List.erase_of_not_mem hu).symm, hrest⟩

/-- **`msh_route_foreach_precursor`** calls the callback in the order of the list. -/
theorem foreachPrecursor_spec {σ : Type} (h : m.Shows rest route l) (hfuel : l.length < fuel)
    (callback : InAddr → σ → σ) (data : σ) :
    m.mshRouteForeachPrecursor fuel route callback data =
      some (l.foldl (fun data d => callback d data) data) := by
  obtain ⟨k, hk, rfl, -⟩ := h
  suffices hloop : ∃ r, m.mshRouteForeachPrecursor fuel route callback data = some r ∧
      r = (k.map Prod.snd).foldl (fun data d => callback d data) data by
    obtain ⟨r, hr, rfl⟩ := hloop
    exact hr
  unfold PrecursorMem.mshRouteForeachPrecursor
  refine listForEachEntry_spec (fun todo r => ∃ u v, k = u ++ v ∧ v.map Prod.fst = todo ∧
    r = (u.map Prod.snd).foldl (fun data d => callback d data) data)
    hk.ring ?_ ?_ ⟨[], k, rfl, rfl, rfl⟩ (by simpa using hfuel)
  · rintro p todo r - ⟨u, v, rfl, hmap, rfl⟩
    obtain ⟨x, v, rfl, rfl, rfl⟩ := List.map_eq_cons_iff.1 hmap
    obtain ⟨e, he, hdata⟩ := Option.map_eq_some_iff.1 (hk.data x (by simp))
    refine .inr ⟨_, u.map Prod.fst, by simp [he, hdata]; rfl, ?_, by simpa using hk.ring⟩
    refine ⟨u ++ [x], v, by simp, rfl, ?_⟩
    rw [List.map_append, List.foldl_append]
    rfl
  · rintro r ⟨u, v, rfl, hmap, rfl⟩
    obtain rfl := List.map_eq_nil_iff.1 hmap
    simp

/-- **The end of a route**: its precursors are gone, and the head is left. -/
theorem freePrecursors_spec (h : m.Shows rest route l) (hfuel : l.length < fuel) :
    ∃ m', m.freePrecursors fuel route = some m' ∧ HoldsList rest m' route [] := by
  obtain ⟨k, hk, rfl, hrest⟩ := h
  obtain ⟨m', hm', hk', -⟩ := listDeleteWhere_spec PrecursorMem.freePrecursor (fun _ => true)
    (fun _ _ => True) hk trivial (fun t u x v taken hx ht _ => by
      obtain ⟨m₁, m₂, hm₁, hm₂, h'⟩ := listDel_free_spec ht (hrest x hx)
      exact ⟨m₂, by simp [PrecursorMem.freePrecursor, hm₁, hm₂], h', trivial⟩)
    (show k.length < fuel by simpa using hfuel)
  have hnil : k.filter (fun x => !(fun _ : InAddr => true) x.2) = [] := by simp
  exact ⟨m', hm', hnil ▸ hk'⟩

theorem length_precursorOp_le (l : List InAddr) (op : PrecursorOp) :
    (precursorOp l op).length ≤ l.length + 1 := by
  cases op with
  | add dst_ip =>
    by_cases hin : dst_ip ∈ l
    · simp [precursorOp, hin]
    · simp [precursorOp, hin]
  | del dst_ip => exact List.length_erase_le.trans (Nat.le_succ _)

/-- **Any sequence of additions and deletions.** -/
theorem precursorOps_refine {ops : List (PrecursorOp × Ptr)} (h : m.Shows rest route l)
    (hfresh : m.Fresh fuel route ops) (hfuel : l.length + ops.length < fuel) :
    ∃ m', m.execAll fuel route ops = some m' ∧
      PrecursorMem.Shows rest route m' (run precursorOp l (ops.map Prod.fst)) := by
  induction ops generalizing m l with
  | nil => exact ⟨m, rfl, h⟩
  | cons op ops ih =>
    obtain ⟨hne, hfree, hfresh⟩ := hfresh
    have hlen := length_precursorOp_le l op.1
    simp only [List.length_cons] at hfuel
    have hstep : ∃ m', m.exec fuel route op = some m' ∧
        PrecursorMem.Shows rest route m' (precursorOp l op.1) := by
      obtain ⟨op, entry⟩ := op
      cases op with
      | add dst_ip => exact addPrecursor_refines h hne hfree (by omega)
      | del dst_ip => exact delPrecursor_refines h (by omega)
    obtain ⟨m₁, hm₁, h₁⟩ := hstep
    obtain ⟨m₂, hm₂, h₂⟩ := ih h₁ (hfresh m₁ hm₁) (by omega)
    exact ⟨m₂, by simp [PrecursorMem.execAll, hm₁, hm₂], h₂⟩

end Operations

/-! ## What a run leaves -/

/-- The last operation on the address has added it. -/
def LastAdded (dst_ip : InAddr) (ops : List PrecursorOp) : Prop :=
  (ops.filter (fun op => op = .add dst_ip ∨ op = .del dst_ip)).getLast? = some (.add dst_ip)

theorem nodup_precursorOp {l : List InAddr} (h : l.Nodup) (op : PrecursorOp) :
    (precursorOp l op).Nodup := by
  cases op with
  | add dst_ip => exact h.insert
  | del dst_ip => exact h.erase dst_ip

theorem mem_precursorOp {l : List InAddr} (h : l.Nodup) (op : PrecursorOp) (a : InAddr) :
    a ∈ precursorOp l op ↔ op = .add a ∨ op ≠ .del a ∧ a ∈ l := by
  cases op with
  | add dst_ip => simp [precursorOp, List.mem_insert_iff, eq_comm]
  | del dst_ip => simp [precursorOp, h.mem_erase_iff, eq_comm]

/-- **The precursors after a run** are the addresses whose last operation has added them, each once. -/
theorem precursors_after (ops : List PrecursorOp) :
    (run precursorOp [] ops).Nodup ∧ ∀ a, a ∈ run precursorOp [] ops ↔ LastAdded a ops := by
  induction ops using List.reverseRecOn with
  | nil => simp [LastAdded]
  | append_singleton ops op ih =>
    rw [run_append, run_cons, run_nil]
    refine ⟨nodup_precursorOp ih.1 op, fun a => ?_⟩
    rw [mem_precursorOp ih.1, ih.2, LastAdded, LastAdded, List.filter_append]
    by_cases hadd : op = .add a
    · simp [hadd]
    · by_cases hdel : op = .del a
      · simp [hdel]
      · simp [hadd, hdel]

theorem length_run_precursorOp_le (l : List InAddr) (ops : List PrecursorOp) :
    (run precursorOp l ops).length ≤ l.length + ops.length := by
  induction ops generalizing l with
  | nil => simp
  | cons op ops ih =>
    have hstep := length_precursorOp_le l op
    have hrest := ih (precursorOp l op)
    simp only [run_cons, List.length_cons]
    omega

/-- **The precursors of a route**, from its allocation to its end. -/
theorem precursors_visited {m : PrecursorMem} {route : Ptr} {fuel : Nat}
    {ops : List (PrecursorOp × Ptr)} (hne : route ≠ NULL)
    (hfresh : ∀ m', initListHead (m.alloc route hne ⟨0, ⟨NULL, NULL⟩⟩) route = some m' →
      PrecursorMem.Fresh fuel route ops m')
    (hfuel : ops.length < fuel) :
    ∃ m₁ m₂ m₃ visited,
      initListHead (m.alloc route hne ⟨0, ⟨NULL, NULL⟩⟩) route = some m₁ ∧
      PrecursorMem.execAll fuel route ops m₁ = some m₂ ∧
      m₂.mshRouteForeachPrecursor fuel route (fun d seen => seen ++ [d]) [] = some visited ∧
      (visited.Nodup ∧ ∀ a, a ∈ visited ↔ LastAdded a (ops.map Prod.fst)) ∧
      m₂.freePrecursors fuel route = some m₃ ∧ ∀ q, q ≠ route → m₃.cell q = m.cell q := by
  obtain ⟨m₁, hm₁, h₁⟩ := initListHead_alloc_spec m hne (⟨0, ⟨NULL, NULL⟩⟩ : Entry InAddr)
  obtain ⟨m₂, hm₂, h₂⟩ := precursorOps_refine ⟨[], h₁, rfl, by simp⟩ (hfresh m₁ hm₁)
    (by simpa using hfuel)
  have hlen := length_run_precursorOp_le [] (ops.map Prod.fst)
  rw [List.length_nil, List.length_map, Nat.zero_add] at hlen
  have hvisit := foreachPrecursor_spec h₂ (hlen.trans_lt hfuel) (fun d seen => seen ++ [d]) []
  obtain ⟨m₃, hm₃, h₃⟩ := freePrecursors_spec h₂ (hlen.trans_lt hfuel)
  have hfold : ∀ (l k : List InAddr), l.foldl (fun seen d => seen ++ [d]) k = k ++ l := by
    intro l
    induction l with
    | nil => simp
    | cons d l ih => simp [ih]
  rw [hfold, List.nil_append] at hvisit
  refine ⟨m₁, m₂, m₃, _, hm₁, hm₂, hvisit, precursors_after _, hm₃, fun q hq => ?_⟩
  exact h₃.frame q (by simpa using hq)

/-- Two precursors, the second of them added twice; the first is deleted. -/
def smallPrecursorOps : List (PrecursorOp × Ptr) :=
  [(.add 0x0A000002, node16), (.add 0x0A000003, node24), (.add 0x0A000003, node32),
    (.del 0x0A000002, node32)]

theorem precursors_visited_small : ∃ m₁ m₂ m₃ visited,
    initListHead (Heap.alloc ⟨fun _ => none, rfl⟩ node8 (by decide) ⟨0, ⟨NULL, NULL⟩⟩) node8 =
        some m₁ ∧
      PrecursorMem.execAll 5 node8 smallPrecursorOps m₁ = some m₂ ∧
      m₂.mshRouteForeachPrecursor 5 node8 (fun d seen => seen ++ [d]) [] = some visited ∧
      (visited.Nodup ∧ ∀ a, a ∈ visited ↔ LastAdded a (smallPrecursorOps.map Prod.fst)) ∧
      m₂.freePrecursors 5 node8 = some m₃ ∧ ∀ q, q ≠ node8 → m₃.cell q = none := by
  have hfresh : ∀ m' ∈ initListHead (Heap.alloc ⟨fun _ => none, rfl⟩ node8 (by decide)
      ⟨(0 : InAddr), ⟨NULL, NULL⟩⟩) node8, PrecursorMem.Fresh 5 node8 smallPrecursorOps m' := by
    decide +kernel
  exact precursors_visited (by decide) hfresh (by decide)

end Meshias
