import Mathlib.Data.List.Nodup

/-!
# Rings

A ring is a list that is closed by a head: the head is joined to the first element, each element to
the next one, and the last one to the head.

* `Path R a l b` — from `a` over the elements of `l` to `b`.
* `front l b`, `back a l` — the first of `l ++ [b]`, and the last of `a :: l`.
* `Ring R head l`.

Principal results: `Ring.insert` and `Ring.remove` — a relation that differs in the two joints at an
element has a ring with it, or without it.
-/

set_option autoImplicit false

namespace Rings

variable {A : Type} {R S : A → A → Prop} {a b x head : A} {k l : List A}

def Path (R : A → A → Prop) : A → List A → A → Prop
  | a, [], b => R a b
  | a, x :: l, b => R a x ∧ Path R x l b

def front : List A → A → A
  | [], b => b
  | x :: _, _ => x

def back : A → List A → A
  | a, [] => a
  | _, x :: l => back x l

@[simp] theorem front_nil : front [] b = b := rfl

@[simp] theorem front_cons : front (x :: l) b = x := rfl

theorem path_append : Path R a (k ++ x :: l) b ↔ Path R a k x ∧ Path R x l b := by
  induction k generalizing a with
  | nil => simp [Path]
  | cons y k ih => simp [Path, ih, and_assoc]

theorem Path.first (h : Path R a l b) : R a (front l b) := by
  cases l with
  | nil => exact h
  | cons x l => exact h.1

theorem Path.last (h : Path R a l b) : R (back a l) b := by
  induction l generalizing a with
  | nil => exact h
  | cons x l ih => exact ih h.2

theorem Path.imp (h : Path R a l b) (hRS : ∀ u ∈ a :: l, ∀ v ∈ l ++ [b], R u v → S u v) :
    Path S a l b := by
  induction l generalizing a with
  | nil => exact hRS a (by simp) b (by simp) h
  | cons x l ih =>
    refine ⟨hRS a (by simp) x (by simp) h.1, ih h.2 ?_⟩
    intro u hu v hv
    exact hRS u (List.mem_cons_of_mem a hu) v (List.mem_cons_of_mem x hv)

theorem front_mem : front l b ∈ b :: l := by
  cases l <;> simp [front]

theorem back_mem : back a l ∈ a :: l := by
  induction l generalizing a with
  | nil => simp [back]
  | cons x l ih => exact List.mem_cons_of_mem a ih

/-- A path around one element: the neighbours of the element are joined, and the other joints are
    kept. -/
theorem Path.splice (hk : Path R a k x) (hl : Path R x l b)
    (hsrc : (a :: (k ++ l)).Nodup) (htgt : (k ++ l ++ [b]).Nodup)
    (hjoin : S (back a k) (front l b))
    (hRS : ∀ u ∈ a :: (k ++ l), ∀ v ∈ k ++ l ++ [b],
      u ≠ back a k → v ≠ front l b → R u v → S u v) : Path S a (k ++ l) b := by
  induction k generalizing a with
  | nil =>
    cases l with
    | nil => exact hjoin
    | cons y l =>
      refine ⟨hjoin, hl.2.imp fun u hu v hv => hRS u (by simp_all) v (by simp_all) ?_ ?_⟩
      · rintro rfl
        exact (List.nodup_cons.1 hsrc).1 hu
      · rintro rfl
        exact (List.nodup_cons.1 htgt).1 hv
  | cons z k ih =>
    obtain ⟨ha, hsrc⟩ := List.nodup_cons.1 hsrc
    obtain ⟨hz, htgt⟩ := List.nodup_cons.1 htgt
    refine ⟨hRS a (by simp) z (by simp) ?_ ?_ hk.1, ih hk.2 hsrc htgt hjoin ?_⟩
    · intro he
      have hback : back z k ∈ z :: k := back_mem
      exact ha (he ▸ List.mem_append_left l hback)
    · intro he
      have hfront : front l b ∈ b :: l := front_mem
      have hmem : z ∈ (k ++ l) ++ [b] := by
        rw [he]
        simp only [List.mem_append, List.mem_cons, List.not_mem_nil, or_false] at hfront ⊢
        tauto
      exact hz hmem
    · intro u hu v hv
      exact hRS u (List.mem_cons_of_mem a hu) v (List.mem_cons_of_mem z hv)

structure Ring (R : A → A → Prop) (head : A) (l : List A) : Prop where
  nodup : (head :: l).Nodup
  path : Path R head l head

namespace Ring

theorem targets (h : Ring R head l) : (l ++ [head]).Nodup :=
  (List.perm_append_singleton head l).nodup_iff.2 h.nodup

theorem after (h : Ring R head (k ++ x :: l)) : R x (front l head) := (path_append.1 h.path).2.first

theorem before (h : Ring R head (k ++ x :: l)) : R (back head k) x :=
  (path_append.1 h.path).1.last

theorem imp (h : Ring R head l) (hRS : ∀ u ∈ head :: l, ∀ v ∈ head :: l, R u v → S u v) :
    Ring S head l := by
  refine ⟨h.nodup, h.path.imp fun u hu v hv => hRS u hu v ?_⟩
  rw [List.mem_append, List.mem_singleton] at hv
  exact List.mem_cons.2 hv.symm

/-- **A new element**, after the head. -/
theorem insert (h : Ring R head l) (hx : x ∉ head :: l) (hhead : S head x)
    (hfirst : S x (front l head))
    (hRS : ∀ u ∈ l, ∀ v ∈ head :: l, v ≠ front l head → R u v → S u v) :
    Ring S head (x :: l) := by
  have hxl : x ∉ l := fun hmem => hx (List.mem_cons_of_mem head hmem)
  have hxh : head ≠ x := fun he => hx (he ▸ List.mem_cons_self)
  obtain ⟨hl, hnodup⟩ := List.nodup_cons.1 h.nodup
  refine ⟨by simp [hxl, hxh, hl, hnodup], hhead, ?_⟩
  cases l with
  | nil => exact hfirst
  | cons y l =>
    refine ⟨hfirst, h.path.2.imp fun u hu v hv => hRS u hu v ?_ ?_⟩
    · rcases List.mem_append.1 hv with hv | hv
      · simp [hv]
      · simp [List.mem_singleton.1 hv]
    · rintro rfl
      exact (List.nodup_cons.1 h.targets).1 hv

/-- **One element less.** -/
theorem remove (h : Ring R head (k ++ x :: l)) (hjoin : S (back head k) (front l head))
    (hRS : ∀ u ∈ head :: (k ++ l), ∀ v ∈ head :: (k ++ l),
      u ≠ back head k → v ≠ front l head → R u v → S u v) : Ring S head (k ++ l) := by
  have hperm : (head :: (k ++ x :: l)).Perm (x :: head :: (k ++ l)) :=
    (List.perm_middle.cons head).trans (.swap x head _)
  have hnodup := (List.nodup_cons.1 (hperm.nodup_iff.1 h.nodup)).2
  have htargets := (List.perm_append_singleton head (k ++ l)).nodup_iff.2 hnodup
  obtain ⟨hk, hl⟩ := path_append.1 h.path
  refine ⟨hnodup, hk.splice hl hnodup htargets hjoin fun u hu v hv => hRS u hu v ?_⟩
  rw [List.mem_append, List.mem_singleton] at hv
  exact List.mem_cons.2 hv.symm

end Ring

end Rings
