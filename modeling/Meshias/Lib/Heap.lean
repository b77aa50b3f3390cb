import Mathlib.Data.Option.Basic

/-!
# Objects in memory

A heap holds the objects that exist, by their addresses; there is none at the null address.

* `modify` — the heap with one object changed.
* `update` — a write through a pointer; `none` where there is no object.
* `alloc`, `free` — an object comes into being, and is gone; a second `free` fails.
-/

set_option autoImplicit false

namespace Pointers

variable {A V : Type} {null : A}

structure Heap (A V : Type) (null : A) where
  cell : A → Option V
  null_free : cell null = none

namespace Heap

variable {h : Heap A V null} {p q : A} {v : V} {f : V → V}

@[ext] theorem ext {h h' : Heap A V null} (heq : ∀ q, h.cell q = h'.cell q) : h = h' := by
  cases h; cases h'
  congr
  exact funext heq

theorem ne_null (hp : h.cell p = some v) : p ≠ null := by
  rintro rfl
  simp [h.null_free] at hp

variable [DecidableEq A]

def modify (h : Heap A V null) (p : A) (f : V → V) : Heap A V null where
  cell q := if q = p then (h.cell q).map f else h.cell q
  null_free := by simp [h.null_free]

def update (h : Heap A V null) (p : A) (f : V → V) : Option (Heap A V null) :=
  (h.cell p).map (fun _ => h.modify p f)

/-- A new object at an address. -/
def alloc (h : Heap A V null) (p : A) (hp : p ≠ null) (v : V) : Heap A V null where
  cell q := if q = p then some v else h.cell q
  null_free := by simp [hp.symm, h.null_free]

def free (h : Heap A V null) (p : A) : Option (Heap A V null) :=
  (h.cell p).map (fun _ => ⟨fun q => if q = p then none else h.cell q, by simp [h.null_free]⟩)

@[simp] theorem modify_same : (h.modify p f).cell p = (h.cell p).map f := by simp [modify]

theorem modify_other (hne : q ≠ p) : (h.modify p f).cell q = h.cell q := by simp [modify, hne]

@[simp] theorem alloc_same (hp : p ≠ null) : (h.alloc p hp v).cell p = some v := by simp [alloc]

theorem alloc_other (hp : p ≠ null) (hne : q ≠ p) : (h.alloc p hp v).cell q = h.cell q := by
  simp [alloc, hne]

theorem free_of_cell (hp : h.cell p = some v) :
    ∃ h', h.free p = some h' ∧ ∀ q, q ≠ p → h'.cell q = h.cell q := by
  refine ⟨_, by rw [free, hp]; rfl, fun q hq => by simp [hq]⟩

theorem update_of_cell (hp : h.cell p = some v) (f : V → V) :
    h.update p f = some (h.modify p f) := by simp [update, hp]

/-- Nothing is written through the null pointer. -/
theorem modify_null : h.modify null f = h := by
  ext q
  by_cases hq : q = null
  · subst hq
    simp [h.null_free]
  · rw [modify_other hq]

end Heap

end Pointers
