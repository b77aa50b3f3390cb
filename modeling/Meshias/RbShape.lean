import Meshias.RbTree

/-!
# The tree that a memory holds

* `mkNode` — a node with its parent, its colour and its children.
* `TreeAt`, `PathAt` — the nodes of a tree, and those on the way up from a place, are in memory.
* `HoldsTree` — the memory holds a tree, and besides it what it has held before.

Principal results: `HoldsTree.recolor` and `holds_rbRotate` — what a change of colour and a rotation
do to the tree.
-/

set_option autoImplicit false

namespace Meshias

open RedBlack
open RedBlack.RBTree
open Pointers (Heap)

/-! ## One node -/

def colorWord : Color → BitVec 64
  | .red => RB_RED
  | .black => RB_BLACK

/-- The child on the side `d` is `x`, the other one is `y`. -/
def mkNode (parent : Ptr) (c : Color) (d : Side) (x y : Ptr) : RbNode :=
  ⟨parent.addr ||| colorWord c, d.pick y x, d.pick x y⟩

section Words

variable {p q : Ptr} {c c' : Color} {d : Side} {x y : Ptr}

theorem and_not_of_disjoint {w : Nat} {x m : BitVec w} (h : x &&& m = 0) : x &&& ~~~m = x := by
  ext i hi
  have hbit : (x[i] && m[i]) = false := by simpa using congrArg (fun b => b[i]) h
  simp only [BitVec.getElem_and, BitVec.getElem_not]
  cases hx : x[i] <;> cases hm : m[i] <;> simp_all

/-- The bits of an aligned address and those of a colour. -/
theorem addr_and_one (p : Ptr) : p.addr &&& 1 = 0 := by
  have hone : (1 : BitVec 64) = 3 &&& 1 := by decide
  rw [hone, ← BitVec.and_assoc, p.aligned]
  simp

@[simp] theorem rbParent_mkNode : rbParent (mkNode p c d x y) = p := by
  have hword : colorWord c &&& ~~~3 = 0 := by cases c <;> decide
  have haddr : (p.addr ||| colorWord c) &&& ~~~3 = p.addr := by
    rw [BitVec.and_or_distrib_right, hword, and_not_of_disjoint p.aligned]
    simp
  simp only [rbParent, mkNode, haddr]

@[simp] theorem rbColor_mkNode : rbColor (mkNode p c d x y) = colorWord c := by
  have hword : colorWord c &&& 1 = colorWord c := by cases c <;> decide
  simp only [rbColor, mkNode]
  rw [BitVec.and_or_distrib_right, hword, addr_and_one]
  simp

@[simp] theorem rbIsRed_mkNode : rbIsRed (mkNode p c d x y) = decide (c = .red) := by
  rw [rbIsRed, rbColor_mkNode]
  cases c <;> decide

@[simp] theorem rbIsBlack_mkNode : rbIsBlack (mkNode p c d x y) = decide (c = .black) := by
  rw [rbIsBlack, rbColor_mkNode]
  cases c <;> decide

@[simp] theorem rbSetParent_mkNode : rbSetParent q (mkNode p c d x y) = mkNode q c d x y := by
  have hword : colorWord c &&& 3 = colorWord c := by cases c <;> decide
  simp only [rbSetParent, mkNode]
  rw [BitVec.and_or_distrib_right, hword, p.aligned]
  simp [BitVec.or_comm]

theorem pack_and_not_one : (p.addr ||| colorWord c) &&& ~~~1 = p.addr := by
  have hword : colorWord c &&& ~~~1 = 0 := by cases c <;> decide
  rw [BitVec.and_or_distrib_right, hword, and_not_of_disjoint (addr_and_one p)]
  simp

@[simp] theorem rbSetColor_mkNode :
    rbSetColor (colorWord c') (mkNode p c d x y) = mkNode p c' d x y := by
  simp only [rbSetColor, mkNode, pack_and_not_one]

@[simp] theorem rbSetRed_mkNode : rbSetRed (mkNode p c d x y) = mkNode p .red d x y := by
  have hred : p.addr ||| colorWord .red = p.addr := by simp [colorWord, RB_RED]
  simp only [rbSetRed, mkNode, pack_and_not_one, hred]

@[simp] theorem rbSetBlack_mkNode : rbSetBlack (mkNode p c d x y) = mkNode p .black d x y := by
  have hword : colorWord c ||| 1 = colorWord .black := by cases c <;> decide
  simp only [rbSetBlack, mkNode, BitVec.or_assoc, hword]

@[simp] theorem child_mkNode : (mkNode p c d x y).child d = x := by cases d <;> rfl

@[simp] theorem child_opp_mkNode : (mkNode p c d x y).child d.opp = y := by cases d <;> rfl

@[simp] theorem setChild_mkNode :
    (mkNode p c d x y).setChild d q = mkNode p c d q y := by cases d <;> rfl

@[simp] theorem setChild_opp_mkNode :
    (mkNode p c d x y).setChild d.opp q = mkNode p c d x q := by cases d <;> rfl

@[simp] theorem rb_left_mkNode : (mkNode p c .left x y).rb_left = x := rfl

@[simp] theorem rb_right_mkNode : (mkNode p c .left x y).rb_right = y := rfl

end Words

/-! ## Trees in memory -/

abbrev Cells := Ptr → Option RbNode

def ptr : RBTree Ptr → Ptr
  | .nil => NULL
  | .node _ _ a _ => a

/-- The parent of what stands at a place. -/
def above : List (Frame Ptr) → Ptr
  | [] => NULL
  | f :: _ => f.val

@[simp] theorem above_nil : above [] = NULL := rfl

@[simp] theorem above_cons (f : Frame Ptr) (p : List (Frame Ptr)) : above (f :: p) = f.val := rfl

def TreeAt (cells : Cells) : Ptr → RBTree Ptr → Prop
  | _, .nil => True
  | parent, .node c l a r =>
    cells a = some (mkNode parent c .left (ptr l) (ptr r)) ∧ TreeAt cells a l ∧ TreeAt cells a r

/-- Up from a place where there is a pointer to `child`. -/
def PathAt (m : RbMem) : List (Frame Ptr) → Ptr → Prop
  | [], child => m.rb_node = child
  | f :: p, child =>
    m.nodes.cell f.val = some (mkNode (above p) f.color f.side child (ptr f.sib)) ∧
      TreeAt m.nodes.cell f.val f.sib ∧ PathAt m p f.val

/-- The memory holds the tree, no node of it twice, and the rest of the memory is `rest`. -/
structure HoldsTree (rest : Cells) (m : RbMem) (t : RBTree Ptr) : Prop where
  tree : TreeAt m.nodes.cell NULL t
  root : m.rb_node = ptr t
  nodup : t.inorder.Nodup
  frame : ∀ q ∉ t.inorder, m.nodes.cell q = rest q

section Trees

variable {cells cells' : Cells} {m m' : RbMem} {h : Heap Ptr RbNode NULL} {rest : Cells}
variable {parent a b q : Ptr} {d : Side} {c c' : Color} {t x y z : RBTree Ptr}
variable {f : Frame Ptr} {p : List (Frame Ptr)} {g : RbNode → RbNode}

@[simp] theorem ptr_nil : ptr nil = NULL := rfl

@[simp] theorem ptr_node {l r : RBTree Ptr} : ptr (node c l a r) = a := rfl

@[simp] theorem ptr_nodeOn : ptr (nodeOn d c x a y) = a := by cases d <;> rfl

@[simp] theorem treeAt_nodeOn :
    TreeAt cells parent (nodeOn d c x a y) ↔
      cells a = some (mkNode parent c d (ptr x) (ptr y)) ∧ TreeAt cells a x ∧ TreeAt cells a y := by
  cases d
  · rfl
  · have hmk : mkNode parent c .left (ptr y) (ptr x) = mkNode parent c .right (ptr x) (ptr y) := rfl
    simp only [nodeOn, TreeAt, hmk]
    tauto

theorem treeAt_congr (heq : ∀ q ∈ t.inorder, cells' q = cells q) :
    TreeAt cells' parent t ↔ TreeAt cells parent t := by
  induction t generalizing parent with
  | nil => rfl
  | node c l a r ihl ihr =>
    simp only [inorder, List.mem_append, List.mem_cons] at heq
    simp only [TreeAt]
    rw [heq a (by simp), ihl (fun q hq => heq q (by simp [hq])),
      ihr (fun q hq => heq q (by simp [hq]))]

theorem treeAt_modify (hq : q ∉ t.inorder) :
    TreeAt (h.modify q g).cell parent t ↔ TreeAt h.cell parent t :=
  treeAt_congr (fun _ hr => Heap.modify_other (fun he => hq (he ▸ hr)))

/-- A place keeps its path if the nodes around it are as before. -/
theorem PathAt.congr (hp : PathAt m p q) (hroot : m'.rb_node = m.rb_node)
    (heq : ∀ q ∈ around p, m'.nodes.cell q = m.nodes.cell q) : PathAt m' p q := by
  induction p generalizing q with
  | nil => exact hroot.trans hp
  | cons f p ih =>
    simp only [mem_around_cons] at heq
    obtain ⟨hcell, hsib, hp⟩ := hp
    refine ⟨(heq _ (.inl rfl)).trans hcell, ?_, ih hp (fun q hq => heq q (.inr (.inr hq)))⟩
    exact (treeAt_congr (fun q hq => heq q (.inr (.inl hq)))).2 hsib

theorem TreeAt.ne_null (ht : TreeAt h.cell parent t) (ha : a ∈ t.inorder) : a ≠ NULL := by
  induction t generalizing parent with
  | nil => cases ha
  | node c l b r ihl ihr =>
    simp only [inorder, List.mem_append, List.mem_cons] at ha
    rcases ha with ha | rfl | ha
    · exact ihl ht.2.1 ha
    · exact Heap.ne_null ht.1
    · exact ihr ht.2.2 ha

/-- A place and what stands there. -/
theorem treeAt_fill :
    (TreeAt m.nodes.cell NULL (fill p t) ∧ m.rb_node = ptr (fill p t)) ↔
      PathAt m p (ptr t) ∧ TreeAt m.nodes.cell (above p) t := by
  induction p generalizing t with
  | nil => exact and_comm
  | cons f p ih =>
    rw [fill_cons, ih, Frame.fill, treeAt_nodeOn, ptr_nodeOn]
    simp only [PathAt, above]
    tauto

/-- **A memory that holds a tree, seen from a place of it.** -/
theorem holds_fill :
    HoldsTree rest m (fill p t) ↔
      (PathAt m p (ptr t) ∧ TreeAt m.nodes.cell (above p) t) ∧ (fill p t).inorder.Nodup ∧
        ∀ q ∉ (fill p t).inorder, m.nodes.cell q = rest q := by
  rw [← treeAt_fill]
  exact ⟨fun h => ⟨⟨h.tree, h.root⟩, h.nodup, h.frame⟩, fun h => ⟨h.1.1, h.1.2, h.2.1, h.2.2⟩⟩

theorem HoldsTree.get (h : HoldsTree rest m (fill p (nodeOn d c x a y))) :
    m.get a = some (mkNode (above p) c d (ptr x) (ptr y)) :=
  (treeAt_nodeOn.1 (holds_fill.1 h).1.2).1

/-- What a write through a pointer leaves. -/
def RbMem.modify (m : RbMem) (p : Ptr) (g : RbNode → RbNode) : RbMem :=
  { m with nodes := m.nodes.modify p g }

theorem update_of_get {n : RbNode} (h : m.get a = some n) (g : RbNode → RbNode) :
    m.update a g = some (m.modify a g) := by
  rw [RbMem.update, Heap.update_of_cell h]
  rfl

@[simp] theorem rb_node_modify : (m.modify a g).rb_node = m.rb_node := rfl

@[simp] theorem cell_modify_same : (m.modify a g).nodes.cell a = (m.nodes.cell a).map g :=
  Heap.modify_same

theorem cell_modify_other (hne : b ≠ a) : (m.modify a g).nodes.cell b = m.nodes.cell b :=
  Heap.modify_other hne

theorem modify_null : m.modify NULL g = m := by rw [RbMem.modify, Heap.modify_null]

theorem PathAt.modify (hp : PathAt m p q) (ha : a ∉ around p) : PathAt (m.modify a g) p q :=
  hp.congr rfl (fun _ hr => cell_modify_other (fun he => ha (he ▸ hr)))

/-! ## Changes of colour -/

/-- **A change of colour** changes nothing else. -/
theorem HoldsTree.recolor (h : HoldsTree rest m (fill p (nodeOn d c x a y)))
    (hg : g (mkNode (above p) c d (ptr x) (ptr y)) = mkNode (above p) c' d (ptr x) (ptr y)) :
    ∃ m', m.update a g = some m' ∧ HoldsTree rest m' (fill p (nodeOn d c' x a y)) := by
  have hget := h.get
  obtain ⟨⟨hpath, htree⟩, hnodup, hframe⟩ := holds_fill.1 h
  obtain ⟨-, hx, hy⟩ := treeAt_nodeOn.1 htree
  obtain ⟨hdistinct, -, hdisj⟩ := nodup_fill.1 hnodup
  obtain ⟨⟨hax, hay⟩, -⟩ := nodup_nodeOn.1 hdistinct
  have hin : (fill p (nodeOn d c x a y)).inorder = (fill p (nodeOn d c' x a y)).inorder :=
    inorder_fill_congr (by rw [inorder_nodeOn, inorder_nodeOn])
  have ha : a ∉ around p := fun hmem => hdisj (by simp) hmem
  refine ⟨m.modify a g, update_of_get hget g, holds_fill.2 ⟨⟨?_, ?_⟩, hin ▸ hnodup, ?_⟩⟩
  · rw [ptr_nodeOn] at hpath ⊢
    exact hpath.modify ha
  · refine treeAt_nodeOn.2 ⟨?_, (treeAt_modify hax).2 hx, (treeAt_modify hay).2 hy⟩
    rw [cell_modify_same, ← hg]
    exact congrArg (Option.map g) hget
  · intro q hq
    have hqa : q ≠ a := fun he => hq (by simp [he, mem_inorder_fill])
    rw [cell_modify_other hqa]
    exact hframe q (hin ▸ hq)

theorem HoldsTree.setBlack (h : HoldsTree rest m (fill p (nodeOn d c x a y))) :
    ∃ m', m.update a rbSetBlack = some m' ∧ HoldsTree rest m' (fill p (nodeOn d .black x a y)) :=
  h.recolor rbSetBlack_mkNode

theorem HoldsTree.setRed (h : HoldsTree rest m (fill p (nodeOn d c x a y))) :
    ∃ m', m.update a rbSetRed = some m' ∧ HoldsTree rest m' (fill p (nodeOn d .red x a y)) :=
  h.recolor rbSetRed_mkNode

theorem HoldsTree.setColor (h : HoldsTree rest m (fill p (nodeOn d c x a y))) (c' : Color) :
    ∃ m', m.update a (rbSetColor (colorWord c')) = some m' ∧
      HoldsTree rest m' (fill p (nodeOn d c' x a y)) :=
  h.recolor rbSetColor_mkNode

theorem HoldsTree.treeAt (h : HoldsTree rest m (fill p t)) : TreeAt m.nodes.cell (above p) t :=
  (holds_fill.1 h).1.2

theorem HoldsTree.pathAt (h : HoldsTree rest m (fill p t)) : PathAt m p (ptr t) := (holds_fill.1 h).1.1

theorem HoldsTree.ne_null (h : HoldsTree rest m t) (ha : a ∈ t.inorder) : a ≠ NULL := h.tree.ne_null ha

/-- A node that may be missing is made black. -/
theorem HoldsTree.blacken (h : HoldsTree rest m (fill p t)) :
    ∃ m', m.blacken (ptr t) = some m' ∧ HoldsTree rest m' (fill p t.setBlack) := by
  cases t with
  | nil => exact ⟨m, by simp [RbMem.blacken, ptr], h⟩
  | node c l a r =>
    obtain ⟨m', hm', h'⟩ := HoldsTree.setBlack (d := .left) h
    have ha : a ≠ NULL := Heap.ne_null h.treeAt.1
    exact ⟨m', by simp [RbMem.blacken, ptr, ha, hm'], h'⟩

theorem HoldsTree.blackenRoot (h : HoldsTree rest m t) :
    ∃ m', m.blacken m.rb_node = some m' ∧ HoldsTree rest m' t.setBlack :=
  h.root ▸ HoldsTree.blacken (p := []) h

theorem HoldsTree.blackenSibling (h : HoldsTree rest m (fill (f :: p) t)) :
    ∃ m', m.blacken (ptr f.sib) = some m' ∧
      HoldsTree rest m' (fill ({ f with sib := f.sib.setBlack } :: p) t) := by
  rw [fill_swap] at h
  obtain ⟨m', hm', h'⟩ := h.blacken
  rw [fill_swap]
  exact ⟨m', hm', h'⟩

theorem blacken_eq (ha : a ≠ NULL) : m.blacken a = m.update a rbSetBlack := by
  simp [RbMem.blacken, ha]

/-! ## What the code reads -/

theorem ptr_mem (ht : t ≠ nil) : ptr t ∈ t.inorder := by
  cases t with
  | nil => exact absurd rfl ht
  | node c l a r => simp [ptr, inorder]

theorem TreeAt.redNode (h : TreeAt m.nodes.cell parent t) :
    m.redNode (ptr t) = some (!t.isBlack) := by
  cases t with
  | nil => simp [RbMem.redNode, ptr, isBlack]
  | node c l a r =>
    have ha : a ≠ NULL := Heap.ne_null h.1
    simp only [RbMem.redNode, ptr, ha, if_false, RbMem.get, h.1, Option.map_some, rbIsRed_mkNode]
    cases c <;> simp [isBlack]

theorem TreeAt.blackOrNull (h : TreeAt m.nodes.cell parent t) :
    m.blackOrNull (ptr t) = some t.isBlack := by
  cases t with
  | nil => simp [RbMem.blackOrNull, ptr, isBlack]
  | node c l a r =>
    have ha : a ≠ NULL := Heap.ne_null h.1
    simp only [RbMem.blackOrNull, ptr, ha, if_false, RbMem.get, h.1, Option.map_some,
      rbIsBlack_mkNode]
    cases c <;> simp [isBlack]

theorem TreeAt.ptr_eq_null (h : TreeAt m.nodes.cell parent t) : ptr t = NULL ↔ t = nil := by
  cases t with
  | nil => simp [ptr]
  | node c l a r =>
    have ha : a ≠ NULL := Heap.ne_null h.1
    simp [ptr, ha]

/-- Two siblings, one of them there. -/
theorem HoldsTree.ptr_ne_sibling (h : HoldsTree rest m (fill (f :: p) t)) (hone : t ≠ nil ∨ f.sib ≠ nil) :
    ptr t ≠ ptr f.sib := by
  have hsib := h.pathAt.2.1
  intro he
  have hboth : t ≠ nil ∧ f.sib ≠ nil := by
    rcases hone with ht | hs
    · exact ⟨ht, fun hnil => ht (h.treeAt.ptr_eq_null.1 (he ▸ hsib.ptr_eq_null.2 hnil))⟩
    · exact ⟨fun hnil => hs (hsib.ptr_eq_null.1 (he ▸ h.treeAt.ptr_eq_null.2 hnil)), hs⟩
  have hdisj := (nodup_fill.1 h.nodup).2.2
  exact hdisj (ptr_mem hboth.1) (mem_around_cons.2 (.inr (.inl (he ▸ ptr_mem hboth.2))))

theorem HoldsTree.getAbove (h : HoldsTree rest m (fill (f :: p) t)) :
    m.get f.val = some (mkNode (above p) f.color f.side (ptr t) (ptr f.sib)) := h.pathAt.1

/-- Every node knows its parent. -/
theorem HoldsTree.getParent (h : HoldsTree rest m (fill p t)) (ht : t ≠ nil) :
    ∃ r, m.get (ptr t) = some r ∧ rbParent r = above p := by
  have htree := h.treeAt
  cases t with
  | nil => exact absurd rfl ht
  | node c l a r => exact ⟨_, htree.1, rbParent_mkNode⟩

/-- The test for the side of a child. -/
theorem side_of_child {u v : Ptr} (hne : u ≠ v) :
    (if u = (mkNode q c d u v).rb_left then Side.left else .right) = d := by
  cases d <;> simp [mkNode, Side.pick, hne]

theorem side_of_child' {u v : Ptr} (hne : u ≠ v) :
    (if (mkNode q c d u v).rb_left = u then Side.left else .right) = d := by
  cases d <;> simp [mkNode, Side.pick, hne.symm]

theorem child_opp_side {u v : Ptr} {e : Side} :
    (mkNode q c e u v).child d.opp = if e = d then v else u := by
  cases d <;> cases e <;> rfl

end Trees

/-! ## Rotations -/

/-- The pointer to what stands at a place is changed. -/
def RbMem.relink (m : RbMem) (p : List (Frame Ptr)) (new : Ptr) : RbMem :=
  match p with
  | [] => { m with rb_node := new }
  | f :: _ => m.modify f.val (·.setChild f.side new)

section Relink

variable {m : RbMem} {p : List (Frame Ptr)} {child new q : Ptr}

theorem cell_relink (hq : q ∉ around p) : (m.relink p new).nodes.cell q = m.nodes.cell q := by
  cases p with
  | nil => rfl
  | cons f p =>
    simp only [mem_around_cons, not_or] at hq
    exact cell_modify_other hq.1

theorem PathAt.relink (hp : PathAt m p child) (hnodup : (around p).Nodup) (new : Ptr) :
    PathAt (m.relink p new) p new := by
  cases p with
  | nil => rfl
  | cons f p =>
    obtain ⟨⟨hsib, habove⟩, -⟩ := nodup_around_cons.1 hnodup
    obtain ⟨hcell, htree, hp⟩ := hp
    refine ⟨?_, (treeAt_modify hsib).2 htree, hp.modify habove⟩
    simp [RbMem.relink, hcell]

/-- The test in front of the assignment finds the right pointer. -/
theorem replaceChild_eq (new : Ptr) (hp : PathAt m p child) (hchild : child ≠ NULL)
    (hsib : child ∉ around p) (d : Side) :
    m.replaceChild d (above p) child new = some (m.relink p new) := by
  cases p with
  | nil => simp [RbMem.replaceChild, above, RbMem.relink]
  | cons f p =>
    have hne : child ≠ ptr f.sib := by
      cases hs : f.sib with
      | nil => exact hchild
      | node c l a r =>
        rintro rfl
        exact hsib (mem_around_cons.2 (.inr (.inl (by simp [hs, inorder]))))
    have hget : m.get f.val = some (mkNode (above p) f.color f.side child (ptr f.sib)) := hp.1
    have hnull : f.val ≠ NULL := Heap.ne_null hp.1
    simp only [RbMem.replaceChild, above, RbMem.relink, ne_eq, hnull, not_false_eq_true, if_true,
      hget, Option.bind_eq_bind, Option.bind_some]
    obtain rfl | rfl : d = f.side ∨ d = f.side.opp := by cases d <;> cases f.side <;> simp [Side.opp]
    · simp [update_of_get hget]
    · simp [hne, update_of_get hget]

end Relink

section Reparent

variable {m : RbMem} {parent q : Ptr} {t : RBTree Ptr}

theorem treeAt_reparent (ht : TreeAt m.nodes.cell parent t) (hnodup : t.inorder.Nodup) (q : Ptr) :
    TreeAt (m.modify (ptr t) (rbSetParent q)).nodes.cell q t := by
  cases t with
  | nil => trivial
  | node c l a r =>
    obtain ⟨⟨hal, har⟩, -⟩ := nodup_nodeOn.1 (show (nodeOn .left c l a r).inorder.Nodup from hnodup)
    refine ⟨?_, (treeAt_modify hal).2 ht.2.1, (treeAt_modify har).2 ht.2.2⟩
    rw [ptr, cell_modify_same, ht.1]
    simp

/-- Outside the tree nothing changes, and nothing at all if there is no tree. -/
theorem cell_modify_ptr {s : Ptr} {g : RbNode → RbNode} (hs : s ∉ t.inorder) :
    (m.modify (ptr t) g).nodes.cell s = m.nodes.cell s := by
  cases t with
  | nil => rw [ptr_nil, modify_null]
  | node c l a r => exact cell_modify_other (fun he => hs (by simp [he, inorder]))

theorem treeAt_modify_ptr {t' : RBTree Ptr} {g : RbNode → RbNode}
    (hdisj : t.inorder.Disjoint t'.inorder) :
    TreeAt (m.modify (ptr t) g).nodes.cell parent t' ↔ TreeAt m.nodes.cell parent t' :=
  treeAt_congr (fun _ hs => cell_modify_ptr (fun hmem => hdisj hmem hs))

/-- Nothing happens to a child that is not there. -/
theorem reparent_eq (ht : TreeAt m.nodes.cell parent t) (q : Ptr) :
    m.reparent (ptr t) q = some (m.modify (ptr t) (rbSetParent q)) := by
  cases t with
  | nil => simp [RbMem.reparent, ptr, modify_null]
  | node c l a r => rw [RbMem.reparent, ptr, if_pos (Heap.ne_null ht.1), update_of_get ht.1]

end Reparent

/-! The parts of a tree in the middle of a rotation of `a` towards the side `d`: the nodes `a` and
`b`, the trees `x`, `y` and `z` from this side to the other one, and the path. -/

section Parts

variable {rest : Cells} {m : RbMem} {a b q r child : Ptr} {x y z : RBTree Ptr}
variable {p : List (Frame Ptr)} {na nb : RbNode} {d : Side} {c c' : Color}

/-- No node is in two of the parts. -/
structure Apart (a b : Ptr) (x y z : RBTree Ptr) (p : List (Frame Ptr)) : Prop where
  nodes : a ≠ b
  upper : a ∉ x.inorder ∧ a ∉ y.inorder ∧ a ∉ z.inorder ∧ a ∉ around p
  lower : b ∉ x.inorder ∧ b ∉ y.inorder ∧ b ∉ z.inorder ∧ b ∉ around p
  inner : y.inorder.Nodup
  inner_disjoint : ∀ q ∈ y.inorder, q ∉ x.inorder ∧ q ∉ z.inorder ∧ q ∉ around p
  path : (around p).Nodup
  path_disjoint : ∀ q ∈ around p, q ∉ x.inorder ∧ q ∉ y.inorder ∧ q ∉ z.inorder

theorem apart_of_nodup (h : (fill p (nodeOn d c x a (nodeOn d c' y b z))).inorder.Nodup) :
    Apart a b x y z p := by
  simp only [nodup_fill, nodup_nodeOn, mem_inorder_nodeOn, List.disjoint_left] at h
  obtain ⟨⟨⟨hax, hayz⟩, -, ⟨hb, hy, -, hyz⟩, hx⟩, hp, htree⟩ := h
  constructor <;> grind

/-- The parts in memory: `q` is the parent of `y`, and `child` stands at the place. -/
structure Parts (rest : Cells) (a b : Ptr) (x y z : RBTree Ptr) (p : List (Frame Ptr)) (m : RbMem)
    (na nb : RbNode) (q child : Ptr) : Prop where
  upper : m.get a = some na
  lower : m.get b = some nb
  outerUpper : TreeAt m.nodes.cell a x
  inner : TreeAt m.nodes.cell q y
  outerLower : TreeAt m.nodes.cell b z
  path : PathAt m p child
  frame : ∀ s, s ≠ a → s ≠ b → s ∉ y.inorder → s ∉ around p → m.nodes.cell s = rest s

variable (hap : Apart a b x y z p)
include hap

theorem Parts.modifyUpper (h : Parts rest a b x y z p m na nb q child) (g : RbNode → RbNode) :
    Parts rest a b x y z p (m.modify a g) (g na) nb q child where
  upper := by simpa [RbMem.get] using congrArg (Option.map g) h.upper
  lower := (cell_modify_other hap.nodes.symm).trans h.lower
  outerUpper := (treeAt_modify hap.upper.1).2 h.outerUpper
  inner := (treeAt_modify hap.upper.2.1).2 h.inner
  outerLower := (treeAt_modify hap.upper.2.2.1).2 h.outerLower
  path := h.path.modify hap.upper.2.2.2
  frame s ha hb hy hp := (cell_modify_other ha).trans (h.frame s ha hb hy hp)

theorem Parts.modifyLower (h : Parts rest a b x y z p m na nb q child) (g : RbNode → RbNode) :
    Parts rest a b x y z p (m.modify b g) na (g nb) q child where
  upper := (cell_modify_other hap.nodes).trans h.upper
  lower := by simpa [RbMem.get] using congrArg (Option.map g) h.lower
  outerUpper := (treeAt_modify hap.lower.1).2 h.outerUpper
  inner := (treeAt_modify hap.lower.2.1).2 h.inner
  outerLower := (treeAt_modify hap.lower.2.2.1).2 h.outerLower
  path := h.path.modify hap.lower.2.2.2
  frame s ha hb hy hp := (cell_modify_other hb).trans (h.frame s ha hb hy hp)

theorem Parts.reparent (h : Parts rest a b x y z p m na nb q child) (r : Ptr) :
    Parts rest a b x y z p (m.modify (ptr y) (rbSetParent r)) na nb r child where
  upper := (cell_modify_ptr hap.upper.2.1).trans h.upper
  lower := (cell_modify_ptr hap.lower.2.1).trans h.lower
  outerUpper := (treeAt_modify_ptr (fun _ hq => (hap.inner_disjoint _ hq).1)).2 h.outerUpper
  inner := treeAt_reparent h.inner hap.inner r
  outerLower := (treeAt_modify_ptr (fun _ hq => (hap.inner_disjoint _ hq).2.1)).2 h.outerLower
  path := h.path.congr rfl (fun _ hq =>
    cell_modify_ptr (fun hmem => (hap.inner_disjoint _ hmem).2.2 hq))
  frame s ha hb hy hp := (cell_modify_ptr hy).trans (h.frame s ha hb hy hp)

theorem Parts.relink (h : Parts rest a b x y z p m na nb q child) (new : Ptr) :
    Parts rest a b x y z p (m.relink p new) na nb q new where
  upper := (cell_relink hap.upper.2.2.2).trans h.upper
  lower := (cell_relink hap.lower.2.2.2).trans h.lower
  outerUpper := (treeAt_congr (fun _ hq =>
    cell_relink (fun hmem => (hap.path_disjoint _ hmem).1 hq))).2 h.outerUpper
  inner := (treeAt_congr (fun _ hq =>
    cell_relink (fun hmem => (hap.path_disjoint _ hmem).2.1 hq))).2 h.inner
  outerLower := (treeAt_congr (fun _ hq =>
    cell_relink (fun hmem => (hap.path_disjoint _ hmem).2.2 hq))).2 h.outerLower
  path := h.path.relink hap.path new
  frame s ha hb hy hp := (cell_relink hp).trans (h.frame s ha hb hy hp)

end Parts

section Rotation

variable {rest : Cells} {m : RbMem} {a b : Ptr} {x y z : RBTree Ptr} {p : List (Frame Ptr)}
variable {d : Side} {c c' : Color}

theorem inorder_rotate : (nodeOn d c' (nodeOn d c x a y) b z).inorder =
    (nodeOn d c x a (nodeOn d c' y b z)).inorder := by
  cases d <;> simp [nodeOn, inorder]

/-- **A rotation.** -/
theorem holds_rbRotate (h : HoldsTree rest m (fill p (nodeOn d c x a (nodeOn d c' y b z)))) :
    ∃ m', rbRotate d m a = some m' ∧
      HoldsTree rest m' (fill p (nodeOn d c' (nodeOn d c x a y) b z)) := by
  obtain ⟨⟨hpath, htree⟩, hnodup, hframe⟩ := holds_fill.1 h
  have hap := apart_of_nodup hnodup
  have hin : (fill p (nodeOn d c' (nodeOn d c x a y) b z)).inorder =
      (fill p (nodeOn d c x a (nodeOn d c' y b z))).inorder := inorder_fill_congr inorder_rotate
  obtain ⟨ha, hx, hbyz⟩ := treeAt_nodeOn.1 htree
  obtain ⟨hb, hy, hz⟩ := treeAt_nodeOn.1 hbyz
  rw [ptr_nodeOn] at hpath ha
  have h₀ : Parts m.nodes.cell a b x y z p m (mkNode (above p) c d (ptr x) b)
      (mkNode a c' d (ptr y) (ptr z)) b a := ⟨ha, hb, hx, hy, hz, hpath, fun _ _ _ _ _ => rfl⟩
  have h₁ := h₀.modifyUpper hap (·.setChild d.opp (ptr y))
  have h₂ := h₁.reparent hap a
  have h₃ := h₂.modifyLower hap (·.setChild d a)
  have h₄ := h₃.modifyLower hap (rbSetParent (above p))
  have h₅ := h₄.relink hap b
  have h₆ := h₅.modifyUpper hap (rbSetParent b)
  have hrelink := replaceChild_eq b h₄.path (Heap.ne_null ha) hap.upper.2.2.2 d
  simp only [setChild_opp_mkNode, setChild_mkNode, rbSetParent_mkNode] at h₆
  refine ⟨_, ?_, holds_fill.2 ⟨⟨by simpa using h₆.path, ?_⟩, hin ▸ hnodup, ?_⟩⟩
  · simp only [rbRotate, h₀.upper, h₀.lower, Option.bind_eq_bind, Option.bind_some, child_mkNode,
      child_opp_mkNode, rbParent_mkNode, update_of_get h₀.upper, reparent_eq h₁.inner,
      update_of_get h₂.lower, update_of_get h₃.lower, hrelink, update_of_get h₅.upper]
  · rw [treeAt_nodeOn, treeAt_nodeOn, ptr_nodeOn]
    exact ⟨h₆.lower, ⟨h₆.upper, h₆.outerUpper, h₆.inner⟩, h₆.outerLower⟩
  · intro s hs
    rw [hin] at hs
    rw [← hframe s hs]
    simp only [mem_inorder_fill, mem_inorder_nodeOn, not_or] at hs
    exact h₆.frame s hs.1.1 hs.1.2.2.1 hs.1.2.2.2.1 hs.2

/-- The rotation the other way. -/
theorem holds_rbRotate_opp (h : HoldsTree rest m (fill p (nodeOn d c (nodeOn d c' x b y) a z))) :
    ∃ m', rbRotate d.opp m a = some m' ∧
      HoldsTree rest m' (fill p (nodeOn d c' x b (nodeOn d c y a z))) := by
  simp only [← nodeOn_opp (d := d)] at h ⊢
  exact holds_rbRotate h

end Rotation

/-! ## A small tree -/

/-- A black node with a red one on its right, and a third one that is in no tree. -/
def smallRbMem : RbMem where
  nodes := {
    cell := fun q =>
      if q = node8 then some (mkNode NULL .black .left NULL node16)
      else if q = node16 then some (mkNode node8 .red .left NULL NULL)
      else if q = node24 then some (mkNode NULL .red .left NULL NULL)
      else none
    null_free := by decide }
  rb_node := node8

def smallTree : RBTree Ptr := .node .black .nil node8 (.node .red .nil node16 .nil)

theorem holds_smallTree : HoldsTree smallRbMem.nodes.cell smallRbMem smallTree :=
  ⟨by simp only [smallTree, TreeAt, ptr]; decide, rfl, by decide, fun _ _ => rfl⟩

theorem rootBlack_smallTree : RootBlack smallTree :=
  ⟨rfl, 1, by simp [smallTree, RBTree.Balanced, isBlack]⟩

end Meshias
