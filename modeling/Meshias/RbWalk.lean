import Meshias.RbErase

/-!
# Walking through a red-black tree in memory

* `rbEnd_spec`, `rbClimb_spec`, `rbStep_spec` — the end of the tree on one side, the way up from a
  node, and the node after it.

Principal results: `rbNext_spec` — `rb_next` and `rb_prev` follow the order of the tree — and
`rbTraversal_refines`.
-/

set_option autoImplicit false

namespace Meshias

open RedBlack
open RedBlack.RBTree
open Pointers (Heap)

section Walk

variable {rest : Cells} {m : RbMem} {a : Ptr} {d : Side} {c : Color} {fuel : Nat}
variable {t x y : RBTree Ptr} {p : List (Frame Ptr)}

/-- A pointer to the first of some nodes. -/
def firstOf (l : List Ptr) : Ptr := l.head?.getD NULL

theorem rbOutermost_first {parent : Ptr} (h : TreeAt m.nodes.cell parent x) (hx : x ≠ nil)
    (hfuel : x.height ≤ fuel) : rbOutermost d fuel m (ptr x) = some (firstOf (walk d x)) := by
  obtain ⟨c, a, y, hext, hhead⟩ := walk_extreme (d := d) (p := []) (isNil_of_ne hx)
  rw [rbOutermost_spec (q := []) h hx hfuel, hext, ptr_nodeOn, firstOf, hhead]
  rfl

/-- `rb_first` and `rb_last`. -/
theorem rbEnd_spec (h : HoldsTree rest m t) (hfuel : t.height ≤ fuel) :
    rbEnd d fuel m = some (firstOf (walk d t)) := by
  rw [rbEnd, h.root]
  by_cases hnil : t = nil
  · subst hnil
    cases d <;> rfl
  · rw [if_neg (mt h.tree.ptr_eq_null.1 hnil), rbOutermost_first h.tree hnil hfuel]

/-- The way up ends at the first node that is not passed on the side `d`. -/
theorem rbClimb_spec (h : HoldsTree rest m (fill p t)) (ht : t ≠ nil) (hfuel : p.length < fuel) :
    rbClimb d.opp fuel m (ptr t) = some (firstOf (beyond d p)) := by
  induction p generalizing t fuel with
  | nil =>
    obtain ⟨fuel, rfl⟩ : ∃ j, fuel = j + 1 := ⟨fuel - 1, by omega⟩
    obtain ⟨r, hr, hparent⟩ := h.getParent ht
    have hnone : beyond d ([] : List (Frame Ptr)) = [] := by cases d <;> rfl
    simp [rbClimb, hr, hparent, hnone, firstOf]
  | cons f p ih =>
    obtain ⟨fuel, rfl⟩ : ∃ j, fuel = j + 1 := ⟨fuel - 1, by omega⟩
    obtain ⟨r, hr, hparent⟩ := h.getParent ht
    have hnull : f.val ≠ NULL := Heap.ne_null h.getAbove
    have hne := h.ptr_ne_sibling (.inl ht)
    rw [beyond_cons]
    by_cases hside : f.side = d
    · simp [rbClimb, hr, hparent, hnull, h.getAbove, hne, hside, firstOf]
    · have hopp : f.side = d.opp := by cases hd : d <;> cases hf : f.side <;> simp_all [Side.opp]
      have hchild : (mkNode (above p) f.color f.side (ptr t) (ptr f.sib)).child d.opp = ptr t := by
        rw [hopp, child_mkNode]
      have hfill : f.fill t ≠ nil := by cases hs : f.side <;> simp [Frame.fill, nodeOn, hs]
      have hup := ih (t := f.fill t) h hfill (show p.length < fuel by simpa using hfuel)
      rw [Frame.fill, ptr_nodeOn] at hup
      simp [rbClimb, hr, hparent, hnull, h.getAbove, hchild, hside, hup]

/-- `rb_next` and `rb_prev` at a place. -/
theorem rbStep_spec (h : HoldsTree rest m (fill p (nodeOn d c x a y)))
    (hfuel : (fill p (nodeOn d c x a y)).height ≤ fuel) :
    rbStep d fuel m a = some (firstOf (walk d y ++ beyond d p)) := by
  have hlen := length_le_height (p := p) (t := nodeOn d c x a y)
  have hdeep : y.height < (nodeOn d c x a y).height := by
    cases d <;> simp only [nodeOn, height] <;> omega
  have hparent : above p ≠ a := by
    cases p with
    | nil => exact (h.ne_null (by simp)).symm
    | cons f p =>
      rintro rfl
      exact (nodup_fill.1 h.nodup).2.2 (by simp) (mem_around_cons.2 (.inl rfl))
  have hy := (treeAt_nodeOn.1 h.treeAt).2.2
  by_cases hnil : y = nil
  · subst hnil
    have hne : nodeOn d c x a nil ≠ nil := by cases d <;> simp [nodeOn]
    have hwalk : walk d (nil : RBTree Ptr) = [] := by cases d <;> rfl
    have hup := rbClimb_spec (d := d) h hne (show p.length < fuel by omega)
    rw [ptr_nodeOn] at hup
    simp [rbStep, h.get, hparent, hwalk, hup]
  · have hdown := rbOutermost_first (d := d) hy hnil (show y.height ≤ fuel by omega)
    have hhead : firstOf (walk d y ++ beyond d p) = firstOf (walk d y) := by
      obtain ⟨_, a, _, -, hhead⟩ := walk_extreme (d := d) (p := []) (isNil_of_ne hnil)
      simp [firstOf, hhead]
    simp [rbStep, h.get, hparent, hy.ptr_eq_null, hnil, hdown, hhead]

/-- **The node after another one** on the way from the side `d`. -/
theorem rbStep_walk {u v : List Ptr} (h : HoldsTree rest m t) (hwalk : walk d t = u ++ a :: v)
    (hfuel : t.height ≤ fuel) : rbStep d fuel m a = some (firstOf v) := by
  have hperm : (walk d t).Perm t.inorder := by
    cases d
    · exact .refl _
    · exact List.reverse_perm _
  have hmem : a ∈ t.inorder := hperm.mem_iff.1 (by simp [hwalk])
  obtain ⟨p, c, l, r, rfl⟩ := exists_place hmem
  rw [node_eq_nodeOn d] at h hwalk hfuel hperm
  have hnodup := hperm.nodup_iff.2 h.nodup
  rw [walk_fill, walk_nodeOn] at hwalk hnodup
  have hassoc : (beyond d.opp p).reverse ++ (walk d (d.pick l r) ++ a :: walk d (d.pick r l)) ++
      beyond d p = ((beyond d.opp p).reverse ++ walk d (d.pick l r)) ++
        a :: (walk d (d.pick r l) ++ beyond d p) := by simp
  rw [hassoc] at hwalk hnodup
  have hnotin := (List.nodup_cons.1 (List.nodup_middle.1 hnodup)).1
  rw [List.mem_append, not_or] at hnotin
  obtain ⟨-, -, rfl⟩ := (List.append_cons_inj_of_notMem hnotin.1 hnotin.2).1 hwalk
  exact rbStep_spec h hfuel

/-- **`rb_next` and `rb_prev`** follow the order of the tree. -/
theorem rbNext_spec {u v : List Ptr} (h : HoldsTree rest m t) (hin : t.inorder = u ++ a :: v)
    (hfuel : t.height ≤ fuel) :
    rbNext fuel m a = some (firstOf v) ∧ rbPrev fuel m a = some (firstOf u.reverse) := by
  refine ⟨rbStep_walk (u := u) h hin hfuel, rbStep_walk (u := v.reverse) h ?_ hfuel⟩
  simp [walk, Side.pick, hin]

/-- `for (node = first; node; node = next(node))`, with the nodes that it passes. -/
def rbVisit (next : Ptr → Option Ptr) : Nat → Ptr → Option (List Ptr)
  | 0, _ => none
  | rounds + 1, a =>
    if a = NULL then some [] else do
      let rest ← rbVisit next rounds (← next a)
      return a :: rest

theorem rbVisit_from {u v : List Ptr} {rounds : Nat} (h : HoldsTree rest m t)
    (hwalk : walk d t = u ++ v) (hfuel : t.height ≤ fuel) (hrounds : v.length < rounds) :
    rbVisit (rbStep d fuel m) rounds (firstOf v) = some v := by
  induction v generalizing u rounds with
  | nil =>
    obtain ⟨rounds, rfl⟩ : ∃ j, rounds = j + 1 := ⟨rounds - 1, by omega⟩
    simp [rbVisit, firstOf]
  | cons a v ih =>
    obtain ⟨rounds, rfl⟩ : ∃ j, rounds = j + 1 := ⟨rounds - 1, by omega⟩
    have hmem : a ∈ walk d t := by simp [hwalk]
    have hnull : a ≠ NULL := by
      refine h.ne_null ?_
      cases d
      · exact hmem
      · exact List.mem_reverse.1 hmem
    have hnext := rbStep_walk h hwalk hfuel
    have hrest := ih (u := u ++ [a]) (by simp [hwalk])
      (show v.length < rounds by simpa using hrounds)
    have hhead : firstOf (a :: v) = a := rfl
    simp [rbVisit, hhead, hnull, hnext, hrest]

/-- **The loops through a balanced tree**: from `rb_first` with `rb_next`, and from `rb_last` with
    `rb_prev`, they follow no null pointer, end, and pass every node once, in opposite orders. -/
theorem rbTraversal_refines {rounds : Nat} (h : HoldsTree rest m t) (hroot : RootBlack t)
    (hfuel : 2 * Nat.log2 (t.inorder.length + 1) ≤ fuel) (hrounds : t.inorder.length < rounds) :
    (rbFirst fuel m).bind (rbVisit (rbNext fuel m) rounds) = some t.inorder ∧
      (rbLast fuel m).bind (rbVisit (rbPrev fuel m) rounds) = some t.inorder.reverse := by
  have hheight := hroot.height_le.trans hfuel
  constructor
  · rw [rbFirst, rbEnd_spec h hheight, Option.bind_some]
    exact rbVisit_from (d := .left) (u := []) h rfl hheight hrounds
  · rw [rbLast, rbEnd_spec h hheight, Option.bind_some]
    exact rbVisit_from (d := .right) (u := []) h rfl hheight (by simpa [walk, Side.pick] using hrounds)

theorem rbTraversal_refines_small :
    (rbFirst 2 smallRbMem).bind (rbVisit (rbNext 2 smallRbMem) 3) = some [node8, node16] ∧
      (rbLast 2 smallRbMem).bind (rbVisit (rbPrev 2 smallRbMem) 3) = some [node16, node8] :=
  rbTraversal_refines holds_smallTree rootBlack_smallTree (by decide) (by decide)

end Walk

end Meshias
