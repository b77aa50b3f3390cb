import Meshias.RbTree
import Meshias.Lib.Ring

/-!
# Linked lists in memory

`libmeshias/alarm/linux_list.h`: a `struct list_head` is a member of the objects of a list, and of
the object that is its head.

* `Entry` — such an object, and what else is in it; a pointer to the member stands for one to the
  object (`container_of`).
* `listAdd`, `listDel`, `listEmpty`.
* `listForEachEntry`, `listForEachEntrySafe` — the loops; the second one reads the next link before
  the body runs.  A body that returns from the function is `.done`.
* `HoldsList` — the memory holds a list behind a head, and besides it what it has held before.

Principal results: `listAdd_spec`, `listDel_spec`, and `listForEachEntry_spec`,
`listForEachEntrySafe_spec` — what a body has to do for the loop to follow no pointer to freed
memory.
-/

set_option autoImplicit false

namespace Meshias

open Pointers (Heap)
open Rings (Ring)

/-! ## The code -/

structure ListHead where
  next : Ptr
  prev : Ptr
  deriving DecidableEq, Repr

structure Entry (D : Type) where
  data : D
  list : ListHead
  deriving DecidableEq, Repr

def LIST_POISON1 : Ptr := ⟨0x00100100, by decide⟩
def LIST_POISON2 : Ptr := ⟨0x00200200, by decide⟩

abbrev ListMem (D : Type) := Heap Ptr (Entry D) NULL

variable {D S : Type}

def Entry.setNext (p : Ptr) (e : Entry D) : Entry D := { e with list := { e.list with next := p } }

def Entry.setPrev (p : Ptr) (e : Entry D) : Entry D := { e with list := { e.list with prev := p } }

/-- What is written into an object besides its links. -/
def Entry.setData (f : D → D) (e : Entry D) : Entry D := { e with data := f e.data }

/-- `INIT_LIST_HEAD`. -/
def initListHead (m : ListMem D) (p : Ptr) : Option (ListMem D) := do
  let m ← m.update p (Entry.setNext p)
  m.update p (Entry.setPrev p)

/-- `__list_add`. -/
def listAddBetween (m : ListMem D) (new prev next : Ptr) : Option (ListMem D) := do
  let m ← m.update next (Entry.setPrev new)
  let m ← m.update new (Entry.setNext next)
  let m ← m.update new (Entry.setPrev prev)
  m.update prev (Entry.setNext new)

def listAdd (m : ListMem D) (new head : Ptr) : Option (ListMem D) := do
  let h ← m.cell head
  listAddBetween m new head h.list.next

/-- `__list_del`. -/
def listDelBetween (m : ListMem D) (prev next : Ptr) : Option (ListMem D) := do
  let m ← m.update next (Entry.setPrev prev)
  m.update prev (Entry.setNext next)

def listDel (m : ListMem D) (entry : Ptr) : Option (ListMem D) := do
  let e ← m.cell entry
  let m ← listDelBetween m e.list.prev e.list.next
  let m ← m.update entry (Entry.setNext LIST_POISON1)
  m.update entry (Entry.setPrev LIST_POISON2)

def listEmpty (m : ListMem D) (head : Ptr) : Option Bool :=
  (m.cell head).map (fun h => h.list.next = head)

section Loops

variable (mem : S → ListMem D) (head : Ptr) (body : Ptr → S → Option (ForInStep S))

def forEachFrom : Nat → Ptr → S → Option S
  | 0, _, _ => none
  | fuel + 1, pos, s =>
    if pos = head then some s else do
      match ← body pos s with
      | .done s => some s
      | .yield s =>
        let e ← (mem s).cell pos
        forEachFrom fuel e.list.next s

/-- `list_for_each_entry`. -/
def listForEachEntry (fuel : Nat) (s : S) : Option S := do
  let h ← (mem s).cell head
  forEachFrom mem head body fuel h.list.next s

def forEachSafeFrom : Nat → Ptr → Ptr → S → Option S
  | 0, _, _, _ => none
  | fuel + 1, pos, n, s =>
    if pos = head then some s else do
      match ← body pos s with
      | .done s => some s
      | .yield s =>
        let e ← (mem s).cell n
        forEachSafeFrom fuel n e.list.next s

/-- `list_for_each_entry_safe`. -/
def listForEachEntrySafe (fuel : Nat) (s : S) : Option S := do
  let h ← (mem s).cell head
  let e ← (mem s).cell h.list.next
  forEachSafeFrom mem head body fuel h.list.next e.list.next s

end Loops

/-! ## Lists -/

section Memory

variable {m m' : ListMem D} {head new p q : Ptr} {k l : List (Ptr × D)} {e : Entry D} {d : D}
variable {rest : Ptr → Option (Entry D)} {f : Entry D → Entry D}

def nextOf (m : ListMem D) (p : Ptr) : Option Ptr := (m.cell p).map (·.list.next)

def prevOf (m : ListMem D) (p : Ptr) : Option Ptr := (m.cell p).map (·.list.prev)

def dataOf (m : ListMem D) (p : Ptr) : Option D := (m.cell p).map (·.data)

/-- Two objects point to each other. -/
def Joined (m : ListMem D) (p q : Ptr) : Prop := nextOf m p = some q ∧ prevOf m q = some p

/-- The memory holds the list `l` behind `head`, and what `rest` says elsewhere. -/
structure HoldsList (rest : Ptr → Option (Entry D)) (m : ListMem D) (head : Ptr)
    (l : List (Ptr × D)) : Prop where
  ring : Ring (Joined m) head (l.map Prod.fst)
  data : ∀ x ∈ l, dataOf m x.1 = some x.2
  frame : ∀ q, q ∉ head :: l.map Prod.fst → m.cell q = rest q

/-! ## Single writes -/

theorem exists_update (h : m.cell p ≠ none) (f : Entry D → Entry D) :
    ∃ m', m.update p f = some m' := by
  obtain ⟨e, he⟩ := Option.ne_none_iff_exists'.1 h
  exact ⟨_, Heap.update_of_cell he f⟩

theorem cell_update (h : m.update p f = some m') (q : Ptr) :
    m'.cell q = if q = p then (m.cell q).map f else m.cell q := by
  obtain ⟨e, -, rfl⟩ := Option.map_eq_some_iff.1 h
  rfl

theorem alive_update (h : m.update p f = some m') : m'.cell q ≠ none ↔ m.cell q ≠ none := by
  rw [cell_update h]
  split <;> simp

theorem dataOf_update (h : m.update p f = some m') (hf : ∀ e, (f e).data = e.data) (q : Ptr) :
    dataOf m' q = dataOf m q := by
  rw [dataOf, dataOf, cell_update h]
  split <;> simp [hf, Function.comp_def]

theorem nextOf_setNext (h : m.update p (Entry.setNext new) = some m') (q : Ptr) :
    nextOf m' q = if q = p then some new else nextOf m q := by
  obtain ⟨e, he, -⟩ := Option.map_eq_some_iff.1 h
  rw [nextOf, nextOf, cell_update h]
  split
  · next hq => simp [hq, he, Entry.setNext]
  · rfl

theorem nextOf_setPrev (h : m.update p (Entry.setPrev new) = some m') (q : Ptr) :
    nextOf m' q = nextOf m q := by
  rw [nextOf, nextOf, cell_update h]
  split <;> simp [Entry.setPrev, Function.comp_def]

theorem prevOf_setPrev (h : m.update p (Entry.setPrev new) = some m') (q : Ptr) :
    prevOf m' q = if q = p then some new else prevOf m q := by
  obtain ⟨e, he, -⟩ := Option.map_eq_some_iff.1 h
  rw [prevOf, prevOf, cell_update h]
  split
  · next hq => simp [hq, he, Entry.setPrev]
  · rfl

theorem prevOf_setNext (h : m.update p (Entry.setNext new) = some m') (q : Ptr) :
    prevOf m' q = prevOf m q := by
  rw [prevOf, prevOf, cell_update h]
  split <;> simp [Entry.setNext, Function.comp_def]

/-- What a change of links leaves as it was. -/
structure Relinked (m m' : ListMem D) (touched : List Ptr) : Prop where
  data : ∀ q, dataOf m' q = dataOf m q
  alive : ∀ q, m'.cell q ≠ none ↔ m.cell q ≠ none
  frame : ∀ q, q ∉ touched → m'.cell q = m.cell q

theorem Relinked.refl (m : ListMem D) : Relinked m m [] :=
  ⟨fun _ => rfl, fun _ => Iff.rfl, fun _ _ => rfl⟩

theorem Relinked.update {m'' : ListMem D} {touched : List Ptr} (h : Relinked m m' touched)
    (hup : m'.update p f = some m'') (hf : ∀ e, (f e).data = e.data) :
    Relinked m m'' (p :: touched) where
  data q := (dataOf_update hup hf q).trans (h.data q)
  alive q := (alive_update hup).trans (h.alive q)
  frame q hq := by
    rw [List.mem_cons, not_or] at hq
    rw [cell_update hup, if_neg hq.1, h.frame q hq.2]

theorem setNext_data (p : Ptr) (e : Entry D) : (e.setNext p).data = e.data := rfl

theorem setPrev_data (p : Ptr) (e : Entry D) : (e.setPrev p).data = e.data := rfl

/-- `__list_add`, link by link. -/
theorem listAddBetween_spec {prev next : Ptr} (hnew : m.cell new ≠ none)
    (hprev : m.cell prev ≠ none) (hnext : m.cell next ≠ none) :
    ∃ m', listAddBetween m new prev next = some m' ∧ Relinked m m' [prev, new, new, next] ∧
      (∀ q, nextOf m' q =
        if q = prev then some new else if q = new then some next else nextOf m q) ∧
      (∀ q, prevOf m' q =
        if q = new then some prev else if q = next then some new else prevOf m q) := by
  obtain ⟨m₁, hm₁⟩ := exists_update hnext (Entry.setPrev new)
  have h₁ := (Relinked.refl m).update hm₁ (setPrev_data new)
  obtain ⟨m₂, hm₂⟩ := exists_update ((h₁.alive new).2 hnew) (Entry.setNext next)
  have h₂ := h₁.update hm₂ (setNext_data next)
  obtain ⟨m₃, hm₃⟩ := exists_update ((h₂.alive new).2 hnew) (Entry.setPrev prev)
  have h₃ := h₂.update hm₃ (setPrev_data prev)
  obtain ⟨m₄, hm₄⟩ := exists_update ((h₃.alive prev).2 hprev) (Entry.setNext new)
  refine ⟨m₄, by simp [listAddBetween, hm₁, hm₂, hm₃, hm₄], h₃.update hm₄ (setNext_data new), ?_, ?_⟩
  · intro q
    rw [nextOf_setNext hm₄, nextOf_setPrev hm₃, nextOf_setNext hm₂, nextOf_setPrev hm₁]
  · intro q
    rw [prevOf_setNext hm₄, prevOf_setPrev hm₃, prevOf_setNext hm₂, prevOf_setPrev hm₁]

/-- `list_del`, link by link. -/
theorem listDel_links {prev next : Ptr} (hnextOf : nextOf m p = some next)
    (hprevOf : prevOf m p = some prev) (hprev : m.cell prev ≠ none) (hnext : m.cell next ≠ none) :
    ∃ m', listDel m p = some m' ∧ Relinked m m' [p, p, prev, next] ∧
      (∀ q, q ≠ p → nextOf m' q = if q = prev then some next else nextOf m q) ∧
      (∀ q, q ≠ p → prevOf m' q = if q = next then some prev else prevOf m q) := by
  obtain ⟨e, he, rfl⟩ := Option.map_eq_some_iff.1 hnextOf
  obtain rfl : e.list.prev = prev := by simpa [prevOf, he] using hprevOf
  have hp : m.cell p ≠ none := by simp [he]
  obtain ⟨m₁, hm₁⟩ := exists_update hnext (Entry.setPrev e.list.prev)
  have h₁ := (Relinked.refl m).update hm₁ (setPrev_data _)
  obtain ⟨m₂, hm₂⟩ := exists_update ((h₁.alive _).2 hprev) (Entry.setNext e.list.next)
  have h₂ := h₁.update hm₂ (setNext_data _)
  obtain ⟨m₃, hm₃⟩ := exists_update ((h₂.alive p).2 hp) (Entry.setNext LIST_POISON1)
  have h₃ := h₂.update hm₃ (setNext_data _)
  obtain ⟨m₄, hm₄⟩ := exists_update ((h₃.alive p).2 hp) (Entry.setPrev LIST_POISON2)
  refine ⟨m₄, by simp [listDel, listDelBetween, he, hm₁, hm₂, hm₃, hm₄],
    h₃.update hm₄ (setPrev_data _), ?_, ?_⟩
  · intro q hq
    rw [nextOf_setPrev hm₄, nextOf_setNext hm₃, if_neg hq, nextOf_setNext hm₂, nextOf_setPrev hm₁]
  · intro q hq
    rw [prevOf_setPrev hm₄, if_neg hq, prevOf_setNext hm₃, prevOf_setNext hm₂, prevOf_setPrev hm₁]

/-! ## The operations on a list -/

theorem Joined.alive (h : Joined m p q) : m.cell p ≠ none ∧ m.cell q ≠ none := by
  obtain ⟨e, he, -⟩ := Option.map_eq_some_iff.1 h.1
  obtain ⟨e', he', -⟩ := Option.map_eq_some_iff.1 h.2
  simp [he, he']

theorem HoldsList.alive (h : HoldsList rest m head l) (hq : q ∈ head :: l.map Prod.fst) :
    m.cell q ≠ none := by
  rcases List.mem_cons.1 hq with rfl | hq
  · exact h.ring.path.first.alive.1
  · obtain ⟨x, hx, rfl⟩ := List.mem_map.1 hq
    obtain ⟨e, he, -⟩ := Option.map_eq_some_iff.1 (h.data x hx)
    simp [he]

/-- Where the head points. -/
theorem HoldsList.first (h : HoldsList rest m head l) :
    ∃ e, m.cell head = some e ∧ e.list.next = Rings.front (l.map Prod.fst) head := by
  obtain ⟨e, he, hnext⟩ := Option.map_eq_some_iff.1 h.ring.path.first.1
  exact ⟨e, he, hnext⟩

/-- **`list_add`.** -/
theorem listAdd_spec (h : HoldsList rest m head l) (hnew : dataOf m new = some d)
    (hout : new ∉ head :: l.map Prod.fst) :
    ∃ m', listAdd m new head = some m' ∧ HoldsList rest m' head ((new, d) :: l) := by
  obtain ⟨e, he, hnext⟩ := h.first
  have hfirst : Rings.front (l.map Prod.fst) head ∈ head :: l.map Prod.fst := Rings.front_mem
  have hlive : m.cell new ≠ none := by
    obtain ⟨e', he', -⟩ := Option.map_eq_some_iff.1 hnew
    simp [he']
  have hne : new ≠ Rings.front (l.map Prod.fst) head := fun heq => hout (heq ▸ hfirst)
  have hhead : head ≠ new := fun heq => hout (heq ▸ List.mem_cons_self)
  obtain ⟨m', hm', hre, hnextOf, hprevOf⟩ :=
    listAddBetween_spec hlive (h.alive List.mem_cons_self) (h.alive hfirst)
  refine ⟨m', by rw [listAdd, he, ← hm', ← hnext]; rfl, h.ring.insert hout ?_ ?_ ?_, ?_, ?_⟩
  · exact ⟨by simp [hnextOf], by simp [hprevOf]⟩
  · exact ⟨by simp [hnextOf, hhead.symm], by simp [hprevOf, hne.symm]⟩
  · intro u hu v hv hvn huv
    have hur : u ≠ new := fun heq => hout (heq ▸ List.mem_cons_of_mem head hu)
    have hvr : v ≠ new := fun heq => hout (heq ▸ hv)
    have huh : u ≠ head := fun heq => (List.nodup_cons.1 h.ring.nodup).1 (heq ▸ hu)
    exact ⟨by simpa [hnextOf, huh, hur] using huv.1, by simpa [hprevOf, hvr, hvn] using huv.2⟩
  · intro x hx
    rw [hre.data]
    rcases List.mem_cons.1 hx with rfl | hx
    · exact hnew
    · exact h.data x hx
  · intro q hq
    have hq' : q ≠ head ∧ q ≠ new ∧ q ∉ l.map Prod.fst := by simpa [not_or] using hq
    rw [hre.frame, h.frame q (by simp [hq'.1, hq'.2.2])]
    have hqf : q ≠ Rings.front (l.map Prod.fst) head := by
      rintro rfl
      rcases List.mem_cons.1 hfirst with heq | hmem
      · exact hq'.1 heq
      · exact hq'.2.2 hmem
    simp [hq'.1, hq'.2.1, hqf]

/-- **`list_del`.** -/
theorem listDel_spec (h : HoldsList rest m head (k ++ (p, d) :: l)) :
    ∃ m', listDel m p = some m' ∧ dataOf m' p = some d ∧
      HoldsList (Function.update rest p (m'.cell p)) m' head (k ++ l) := by
  have hmap : (k ++ (p, d) :: l).map Prod.fst = k.map Prod.fst ++ p :: l.map Prod.fst := by simp
  have hring := h.ring
  rw [hmap] at hring
  have hnodup : (p :: head :: (k ++ l).map Prod.fst).Nodup := by
    refine List.Perm.nodup_iff ?_ |>.1 hring.nodup
    rw [List.map_append]
    exact (List.perm_middle.cons head).trans (.swap p head _)
  have hpout := (List.nodup_cons.1 hnodup).1
  have hbefore := hring.before
  have hafter := hring.after
  obtain ⟨m', hm', hre, hnextOf, hprevOf⟩ :=
    listDel_links hafter.1 hbefore.2 hbefore.alive.1 hafter.alive.2
  have hlast : Rings.back head (k.map Prod.fst) ∈ head :: (k ++ l).map Prod.fst := by
    have hmem : Rings.back head (k.map Prod.fst) ∈ head :: k.map Prod.fst := Rings.back_mem
    rw [List.map_append, ← List.cons_append]
    exact List.mem_append_left _ hmem
  have hfirst : Rings.front (l.map Prod.fst) head ∈ head :: (k ++ l).map Prod.fst := by
    have hmem : Rings.front (l.map Prod.fst) head ∈ head :: l.map Prod.fst := Rings.front_mem
    rcases List.mem_cons.1 hmem with heq | hmem
    · simp [heq]
    · exact List.mem_cons_of_mem head (by rw [List.map_append]; exact List.mem_append_right _ hmem)
  have hne : ∀ q ∈ head :: (k ++ l).map Prod.fst, q ≠ p := fun q hq heq => hpout (heq ▸ hq)
  refine ⟨m', hm', ?_, ?_, ?_, ?_⟩
  · rw [hre.data]
    exact h.data (p, d) (by simp)
  · rw [List.map_append]
    refine hring.remove ?_ ?_
    · exact ⟨by simp [hnextOf _ (hne _ hlast)], by simp [hprevOf _ (hne _ hfirst)]⟩
    · intro u hu v hv hul hvf huv
      rw [← List.map_append] at hu hv
      rw [Joined, hnextOf u (hne u hu), hprevOf v (hne v hv), if_neg hul, if_neg hvf]
      exact huv
  · intro x hx
    rw [hre.data]
    exact h.data x (by simp only [List.mem_append, List.mem_cons] at hx ⊢; tauto)
  · intro q hq
    by_cases hqp : q = p
    · subst hqp
      rw [Function.update_self]
    · rw [Function.update_of_ne hqp, hre.frame, h.frame]
      · rw [hmap]
        simp only [List.map_append, List.mem_cons, List.mem_append, not_or] at hq ⊢
        exact ⟨hq.1, hq.2.1, hqp, hq.2.2⟩
      · simp only [List.mem_cons, List.not_mem_nil, or_false, not_or]
        exact ⟨hqp, hqp, fun heq => hq (heq ▸ hlast), fun heq => hq (heq ▸ hfirst)⟩

/-- An object outside the list can be freed. -/
theorem HoldsList.free (h : HoldsList rest m head l) (hp : m.cell p ≠ none)
    (hout : p ∉ head :: l.map Prod.fst) :
    ∃ m', m.free p = some m' ∧ HoldsList (Function.update rest p none) m' head l := by
  obtain ⟨e, he⟩ := Option.ne_none_iff_exists'.1 hp
  refine ⟨_, by rw [Heap.free, he]; rfl, ?_, ?_, ?_⟩
  · refine h.ring.imp fun u hu v hv huv => ?_
    have hup : u ≠ p := fun heq => hout (heq ▸ hu)
    have hvp : v ≠ p := fun heq => hout (heq ▸ hv)
    simpa [Joined, nextOf, prevOf, hup, hvp] using huv
  · intro x hx
    have hxp : x.1 ≠ p := fun heq =>
      hout (heq ▸ List.mem_cons_of_mem head (List.mem_map_of_mem hx))
    simpa [dataOf, hxp] using h.data x hx
  · intro q hq
    by_cases hqp : q = p
    · simp [hqp]
    · simp [hqp, h.frame q hq]

/-- **`list_del` and `free`**, for an object that the list has brought into the memory. -/
theorem listDel_free_spec (h : HoldsList rest m head (k ++ (p, d) :: l)) (hp : rest p = none) :
    ∃ m₁ m₂, listDel m p = some m₁ ∧ m₁.free p = some m₂ ∧ HoldsList rest m₂ head (k ++ l) := by
  obtain ⟨m₁, hm₁, hdata, h₁⟩ := listDel_spec h
  obtain ⟨e, he, -⟩ := Option.map_eq_some_iff.1 hdata
  have hout : p ∉ head :: (k ++ l).map Prod.fst := by
    have hnodup := h.ring.nodup
    simp only [List.map_append, List.map_cons] at hnodup ⊢
    have hperm : (head :: (k.map Prod.fst ++ p :: l.map Prod.fst)).Perm
        (head :: p :: (k.map Prod.fst ++ l.map Prod.fst)) := List.perm_middle.cons head
    exact (List.nodup_cons.1 ((hperm.trans (.swap p head _)).nodup_iff.1 hnodup)).1
  obtain ⟨m₂, hm₂, h₂⟩ := h₁.free (by simp [he]) hout
  refine ⟨m₁, m₂, hm₁, hm₂, ?_⟩
  rwa [Function.update_idem, Function.update_eq_self_iff.2 hp.symm] at h₂

/-- **The data of one element** are written. -/
theorem HoldsList.setData (h : HoldsList rest m head l) (hp : p ∈ l.map Prod.fst) (g : D → D) :
    ∃ m', m.update p (Entry.setData g) = some m' ∧
      HoldsList rest m' head (l.map (fun x => if x.1 = p then (x.1, g x.2) else x)) := by
  obtain ⟨m', hm'⟩ := exists_update (h.alive (List.mem_cons_of_mem head hp)) (Entry.setData g)
  have hnext : ∀ q, nextOf m' q = nextOf m q := by
    intro q
    rw [nextOf, nextOf, cell_update hm']
    split <;> simp [Entry.setData, Function.comp_def]
  have hprev : ∀ q, prevOf m' q = prevOf m q := by
    intro q
    rw [prevOf, prevOf, cell_update hm']
    split <;> simp [Entry.setData, Function.comp_def]
  have hfst : (l.map (fun x => if x.1 = p then (x.1, g x.2) else x)).map Prod.fst =
      l.map Prod.fst := by
    rw [List.map_map]
    refine List.map_congr_left fun x _ => ?_
    simp only [Function.comp_apply]
    split <;> rfl
  refine ⟨m', hm', ?_, fun y hy => ?_, fun q hq => ?_⟩
  · rw [hfst]
    refine h.ring.imp fun u _ v _ huv => ?_
    rwa [Joined, hnext, hprev]
  · obtain ⟨x, hx, rfl⟩ := List.mem_map.1 hy
    have hdata := h.data x hx
    by_cases hxp : x.1 = p
    · rw [if_pos hxp]
      show (m'.cell x.1).map (·.data) = some (g x.2)
      rw [cell_update hm', if_pos hxp, Option.map_map]
      have hmap := congrArg (Option.map g) hdata
      rwa [dataOf, Option.map_map, Option.map_some] at hmap
    · rw [if_neg hxp, dataOf, cell_update hm', if_neg hxp]
      exact hdata
  · rw [hfst] at hq
    have hqp : q ≠ p := fun heq => hq (heq ▸ List.mem_cons_of_mem head hp)
    rw [cell_update hm', if_neg hqp]
    exact h.frame q hq

/-- **`calloc` and `list_add`.** -/
theorem listAdd_alloc_spec (h : HoldsList rest m head l) (hne : p ≠ NULL) (hfree : m.cell p = none)
    (e : Entry D) :
    ∃ m', listAdd (m.alloc p hne e) p head = some m' ∧ HoldsList rest m' head ((p, e.data) :: l) ∧
      rest p = none := by
  have hout : p ∉ head :: l.map Prod.fst := fun hmem => h.alive hmem hfree
  have hcell : ∀ q ∈ head :: l.map Prod.fst, (m.alloc p hne e).cell q = m.cell q :=
    fun q hq => Heap.alloc_other hne (fun heq => hout (heq ▸ hq))
  have hrest : rest p = none := (h.frame p hout).symm.trans hfree
  have h₁ : HoldsList (Function.update rest p (some e)) (m.alloc p hne e) head l := by
    refine ⟨h.ring.imp fun u hu v hv huv => ?_, fun x hx => ?_, fun q hq => ?_⟩
    · rwa [Joined, nextOf, prevOf, hcell u hu, hcell v hv]
    · rw [dataOf, hcell x.1 (List.mem_cons_of_mem head (List.mem_map_of_mem hx))]
      exact h.data x hx
    · by_cases hqp : q = p
      · subst hqp
        simp
      · rw [Function.update_of_ne hqp, Heap.alloc_other hne hqp, h.frame q hq]
  have hnew : dataOf (m.alloc p hne e) p = some e.data := by simp [dataOf]
  obtain ⟨m', hm', h'⟩ := listAdd_spec h₁ hnew hout
  refine ⟨m', hm', ⟨h'.ring, h'.data, fun q hq => ?_⟩, hrest⟩
  have hqp : q ≠ p := by
    rintro rfl
    simp at hq
  rw [h'.frame q hq, Function.update_of_ne hqp]

/-- **`calloc` and `INIT_LIST_HEAD`**: an empty list. -/
theorem initListHead_alloc_spec (m : ListMem D) (hne : p ≠ NULL) (e : Entry D) :
    ∃ m', initListHead (m.alloc p hne e) p = some m' ∧ HoldsList m.cell m' p [] := by
  have hlive : (m.alloc p hne e).cell p ≠ none := by simp
  obtain ⟨m₁, hm₁⟩ := exists_update hlive (Entry.setNext p)
  obtain ⟨m₂, hm₂⟩ := exists_update ((alive_update hm₁).2 hlive) (Entry.setPrev p)
  refine ⟨m₂, by simp [initListHead, hm₁, hm₂], ⟨by simp, ?_, ?_⟩, by simp, fun q hq => ?_⟩
  · rw [nextOf_setPrev hm₂, nextOf_setNext hm₁, if_pos rfl]
  · rw [prevOf_setPrev hm₂, if_pos rfl]
  · have hqp : q ≠ p := by simpa using hq
    rw [cell_update hm₂, if_neg hqp, cell_update hm₁, if_neg hqp, Heap.alloc_other hne hqp]

/-- **`list_empty`.** -/
theorem listEmpty_spec (h : HoldsList rest m head l) : listEmpty m head = some l.isEmpty := by
  obtain ⟨e, he, hnext⟩ := h.first
  rw [listEmpty, he]
  cases l with
  | nil =>
    have hself : e.list.next = head := hnext
    simp [hself]
  | cons x l =>
    have hne : x.1 ≠ head := by
      have hnodup := h.ring.nodup
      simp only [List.map_cons, List.nodup_cons, List.mem_cons, not_or] at hnodup
      exact Ne.symm hnodup.1.1
    have hnext' : e.list.next = x.1 := hnext
    simp [hnext', hne]

end Memory

/-! ## The loops -/

section LoopRules

variable {mem : S → ListMem D} {head : Ptr} {body : Ptr → S → Option (ForInStep S)} {fuel : Nat}
variable {s : S} {l todo : List Ptr} {Q : S → Prop}

/-- What the memory says about an element that is still to come. -/
theorem next_of_ring {m : ListMem D} {p : Ptr} {k : List Ptr}
    (h : Ring (Joined m) head (k ++ p :: l)) :
    ∃ e, m.cell p = some e ∧ e.list.next = Rings.front l head := by
  obtain ⟨e, he, hnext⟩ := Option.map_eq_some_iff.1 h.after.1
  exact ⟨e, he, hnext⟩

theorem next_of_head {m : ListMem D} (h : Ring (Joined m) head l) :
    ∃ e, m.cell head = some e ∧ e.list.next = Rings.front l head := by
  obtain ⟨e, he, hnext⟩ := Option.map_eq_some_iff.1 h.path.first.1
  exact ⟨e, he, hnext⟩

theorem ne_head_of_ring {R : Ptr → Ptr → Prop} {p : Ptr} {k : List Ptr}
    (h : Ring R head (k ++ p :: l)) : p ≠ head := by
  rintro rfl
  exact (List.nodup_cons.1 h.nodup).1 (by simp)

/-- **`list_for_each_entry`.**  The invariant speaks of the elements still to come; after the body,
    the element it was called for is still in the list, and what comes after it is what is still to
    come. -/
theorem listForEachEntry_spec (I : List Ptr → S → Prop)
    (hstart : Ring (Joined (mem s)) head todo)
    (hstep : ∀ p todo s, p ≠ head → I (p :: todo) s →
      (∃ s', body p s = some (.done s') ∧ Q s') ∨
      ∃ s' k, body p s = some (.yield s') ∧ I todo s' ∧
        Ring (Joined (mem s')) head (k ++ p :: todo))
    (hend : ∀ s, I [] s → Q s) (h : I todo s) (hfuel : todo.length < fuel) :
    ∃ s', listForEachEntry mem head body fuel s = some s' ∧ Q s' := by
  obtain ⟨e, he, hfirst⟩ := next_of_head hstart
  rw [listForEachEntry, he, Option.bind_eq_bind, Option.bind_some, hfirst]
  have hring : ∃ k, Ring (Joined (mem s)) head (k ++ todo) := ⟨[], hstart⟩
  clear he hfirst hstart
  induction todo generalizing s fuel with
  | nil =>
    obtain ⟨fuel, rfl⟩ : ∃ j, fuel = j + 1 := ⟨fuel - 1, by omega⟩
    exact ⟨s, by simp [forEachFrom], hend s h⟩
  | cons p todo ih =>
    obtain ⟨fuel, rfl⟩ : ∃ j, fuel = j + 1 := ⟨fuel - 1, by omega⟩
    obtain ⟨k, hring⟩ := hring
    have hne := ne_head_of_ring hring
    rcases hstep p todo s hne h with ⟨s', hs', hQ⟩ | ⟨s', k', hs', hI, hring'⟩
    · exact ⟨s', by simp [forEachFrom, hne, hs'], hQ⟩
    · obtain ⟨e, he, hnext⟩ := next_of_ring hring'
      obtain ⟨s'', hs'', hQ⟩ := ih hI (by simpa using hfuel) ⟨k' ++ [p], by simpa using hring'⟩
      exact ⟨s'', by simp [forEachFrom, hne, hs', he, hnext, hs''], hQ⟩

/-- **`list_for_each_entry_safe`.**  The body may take the element it is called for from the list and
    free it; the elements still to come stay. -/
theorem listForEachEntrySafe_spec (I : List Ptr → S → Prop)
    (hstart : Ring (Joined (mem s)) head todo)
    (hstep : ∀ p todo s, p ≠ head → I (p :: todo) s →
      (∃ s', body p s = some (.done s') ∧ Q s') ∨
      ∃ s' k, body p s = some (.yield s') ∧ I todo s' ∧
        Ring (Joined (mem s')) head (k ++ todo))
    (hend : ∀ s, I [] s → Q s) (h : I todo s) (hfuel : todo.length < fuel) :
    ∃ s', listForEachEntrySafe mem head body fuel s = some s' ∧ Q s' := by
  obtain ⟨e, he, hfirst⟩ := next_of_head hstart
  rw [listForEachEntrySafe, he, Option.bind_eq_bind, Option.bind_some, hfirst]
  -- the link after `p` is the second element, and at the end of the list nothing reads it
  have hsecond : ∀ {s : S} {k todo : List Ptr}, Ring (Joined (mem s)) head (k ++ todo) →
      ∃ e, (mem s).cell (Rings.front todo head) = some e ∧
        (todo ≠ [] → e.list.next = Rings.front todo.tail head) := by
    intro s k todo hring
    cases todo with
    | nil =>
      obtain ⟨e, he, -⟩ := next_of_head hring
      exact ⟨e, he, fun h => absurd rfl h⟩
    | cons p todo =>
      obtain ⟨e, he, hnext⟩ := next_of_ring hring
      exact ⟨e, he, fun _ => hnext⟩
  obtain ⟨e', he', hn⟩ := hsecond (k := []) hstart
  rw [he', Option.bind_some]
  have hring : ∃ k, Ring (Joined (mem s)) head (k ++ todo) := ⟨[], hstart⟩
  generalize e'.list.next = n at hn
  clear he' he hfirst hstart
  induction todo generalizing s fuel n with
  | nil =>
    obtain ⟨fuel, rfl⟩ : ∃ j, fuel = j + 1 := ⟨fuel - 1, by omega⟩
    exact ⟨s, by simp [forEachSafeFrom], hend s h⟩
  | cons p todo ih =>
    obtain ⟨fuel, rfl⟩ : ∃ j, fuel = j + 1 := ⟨fuel - 1, by omega⟩
    obtain ⟨k, hring⟩ := hring
    have hne := ne_head_of_ring hring
    have hn' : n = Rings.front todo head := hn (by simp)
    rcases hstep p todo s hne h with ⟨s', hs', hQ⟩ | ⟨s', k', hs', hI, hring'⟩
    · exact ⟨s', by simp [forEachSafeFrom, hne, hs'], hQ⟩
    · obtain ⟨e, he, hnext⟩ := hsecond hring'
      obtain ⟨s'', hs'', hQ⟩ := ih hI (by simpa using hfuel) ⟨k', hring'⟩ _ hnext
      exact ⟨s'', by simp [forEachSafeFrom, hne, hs', hn', he, hs''], hQ⟩

/-- The loop that returns at the first element whose data satisfy `p`. -/
def listFind (fuel : Nat) (m : ListMem D) (head : Ptr) (p : D → Bool) : Option (Option Ptr) :=
  listForEachEntry (fun _ => m) head (fun pos _ => do
    let e ← m.cell pos
    return if p e.data then .done (some pos) else .yield none) fuel none

theorem listFind_spec {rest : Ptr → Option (Entry D)} {m : ListMem D} {l : List (Ptr × D)}
    (h : HoldsList rest m head l) (p : D → Bool) (hfuel : l.length < fuel) :
    listFind fuel m head p = some ((l.find? (fun x => p x.2)).map Prod.fst) := by
  -- what has been passed does not satisfy `p`
  suffices hloop : ∃ r, listFind fuel m head p = some r ∧
      r = (l.find? (fun x => p x.2)).map Prod.fst by
    obtain ⟨r, hr, rfl⟩ := hloop
    exact hr
  unfold listFind
  refine listForEachEntry_spec (fun todo r => r = none ∧
      ∃ k l', l = k ++ l' ∧ l'.map Prod.fst = todo ∧ ∀ x ∈ k, p x.2 = false)
    h.ring ?_ ?_ ⟨rfl, [], l, rfl, rfl, by simp⟩ (by simpa using hfuel)
  · rintro q todo r - ⟨rfl, k, l', rfl, hmap, hk⟩
    obtain ⟨x, l', rfl, rfl, rfl⟩ := List.map_eq_cons_iff.1 hmap
    obtain ⟨e, he, hdata⟩ := Option.map_eq_some_iff.1 (h.data x (by simp))
    have hnone : k.find? (fun x => p x.2) = none :=
      List.find?_eq_none.2 (fun y hy => by simp [hk y hy])
    cases hp : p x.2 with
    | true => exact .inl ⟨some x.1, by simp [he, hdata, hp], by simp [List.find?_append, hnone, hp]⟩
    | false =>
      refine .inr ⟨none, k.map Prod.fst, by simp [he, hdata, hp], ?_, by simpa using h.ring⟩
      refine ⟨rfl, k ++ [x], l', by simp, rfl, fun y hy => ?_⟩
      rcases List.mem_append.1 hy with hy | hy
      · exact hk y hy
      · rwa [List.mem_singleton.1 hy]
  · rintro r ⟨rfl, k, l', rfl, hmap, hk⟩
    obtain rfl := List.map_eq_nil_iff.1 hmap
    have hnone : (k ++ []).find? (fun x : Ptr × D => p x.2) = none := by
      rw [List.append_nil]
      exact List.find?_eq_none.2 (fun y hy => by simp [hk y hy])
    rw [hnone]
    rfl

/-- The loop that calls `act` on the elements whose data satisfy `p`, where `act` takes its element
    from the list and frees it. -/
def listDeleteWhere (mem : S → ListMem D) (head : Ptr) (p : D → Bool) (act : Ptr → S → Option S)
    (fuel : Nat) (s : S) : Option S :=
  listForEachEntrySafe mem head (fun pos s => do
    let e ← (mem s).cell pos
    if p e.data then return .yield (← act pos s) else return .yield s) fuel s

/-- **A loop that frees what it passes** follows no pointer to freed memory, and leaves the other
    elements in their order.  `J` says what `act` has done to the elements taken so far. -/
theorem listDeleteWhere_spec {rest : Ptr → Option (Entry D)} {l : List (Ptr × D)}
    (act : Ptr → S → Option S) (p : D → Bool) (J : List (Ptr × D) → S → Prop)
    (h : HoldsList rest (mem s) head l) (hJ : J [] s)
    (hact : ∀ (s : S) (k : List (Ptr × D)) (x : Ptr × D) (l' taken : List (Ptr × D)),
      x ∈ l → HoldsList rest (mem s) head (k ++ x :: l') → J taken s →
      ∃ s', act x.1 s = some s' ∧ HoldsList rest (mem s') head (k ++ l') ∧ J (taken ++ [x]) s')
    (hfuel : l.length < fuel) :
    ∃ s', listDeleteWhere mem head p act fuel s = some s' ∧
      HoldsList rest (mem s') head (l.filter (fun x => !p x.2)) ∧
      J (l.filter (fun x => p x.2)) s' := by
  refine listForEachEntrySafe_spec (fun todo s => ∃ k l', l = k ++ l' ∧ l'.map Prod.fst = todo ∧
      HoldsList rest (mem s) head (k.filter (fun x => !p x.2) ++ l') ∧
      J (k.filter (fun x => p x.2)) s)
    h.ring ?_ ?_ ⟨[], l, rfl, rfl, h, hJ⟩ (by simpa using hfuel)
  · rintro q todo s - ⟨k, l', rfl, hmap, hs, hJ⟩
    obtain ⟨x, l', rfl, rfl, rfl⟩ := List.map_eq_cons_iff.1 hmap
    obtain ⟨e, he, hdata⟩ := Option.map_eq_some_iff.1 (hs.data x (by simp))
    right
    cases hp : p x.2 with
    | true =>
      obtain ⟨s', hs', h', hJ'⟩ := hact s _ x l' _ (by simp) hs hJ
      refine ⟨s', (k.filter (fun x => !p x.2)).map Prod.fst, by simp [he, hdata, hp, hs'], ?_,
        by simpa using h'.ring⟩
      exact ⟨k ++ [x], l', by simp, rfl, by simpa [hp] using h', by simpa [hp] using hJ'⟩
    | false =>
      refine ⟨s, (k.filter (fun x => !p x.2)).map Prod.fst ++ [x.1], by simp [he, hdata, hp], ?_,
        by simpa using hs.ring⟩
      exact ⟨k ++ [x], l', by simp, rfl, by simpa [hp] using hs, by simpa [hp] using hJ⟩
  · rintro s ⟨k, l', rfl, hmap, hs, hJ⟩
    obtain rfl := List.map_eq_nil_iff.1 hmap
    simp only [List.append_nil] at hs ⊢
    exact ⟨hs, hJ⟩

end LoopRules

end Meshias
