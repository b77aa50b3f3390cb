import Meshias.RbShape

/-!
# Insertion into a red-black tree in memory

* `holds_rbLinkNode` — a node is hung at a free place.
* `rbInsertColorStep_red`, `rbInsertColorStep_black` — what one round of the loop does, by the
  colour of the uncle.

Principal results: `rbInsertColor_spec` — the repair follows no null pointer, ends within as many
rounds as there are nodes above the new one, and leaves the tree that `insertColor` makes — and
`rbInsertion_refines`.
-/

set_option autoImplicit false

namespace Meshias

open RedBlack
open RedBlack.RBTree
open Pointers (Heap)

section Insertion

variable {rest : Cells} {m : RbMem} {a node : Ptr} {d : Side} {c : Color} {n : Nat}
variable {t x y : RBTree Ptr} {f g : Frame Ptr} {p : List (Frame Ptr)}

/-! ## One round -/

/-- A red uncle: the three nodes change their colours, and the loop goes on from the upper one. -/
theorem rbInsertColorStep_red (h : HoldsTree rest m (fill (f :: g :: p) t))
    (huncle : g.sib.isBlack = false) :
    ∃ m', rbInsertColorStep g.side m (ptr t) f.val g.val = some (m', g.val) ∧
      HoldsTree rest m'
        (fill p (nodeOn g.side .red (nodeOn f.side .black t f.val f.sib) g.val g.sib.setBlack)) := by
  have hg := HoldsTree.getAbove (p := p) (f := g) (t := f.fill t) h
  have hsib := h.pathAt.2.2.2.1
  have hnull : ptr g.sib ≠ NULL := by
    rw [Ne, hsib.ptr_eq_null]
    rintro hnil
    simp [hnil, isBlack] at huncle
  obtain ⟨m₁, hm₁, h₁⟩ := HoldsTree.blackenSibling (p := p) (f := g) (t := f.fill t) h
  rw [blacken_eq hnull] at hm₁
  obtain ⟨m₂, hm₂, h₂⟩ := h₁.setBlack
  obtain ⟨m₃, hm₃, h₃⟩ := HoldsTree.setRed (p := p) (d := g.side) h₂
  refine ⟨m₃, ?_, h₃⟩
  simp [rbInsertColorStep, hg, child_opp_mkNode, hsib.redNode, huncle, hm₁, hm₂, hm₃]

/-- The loop stops at a node whose parent is black. -/
def RbMem.Settled (m : RbMem) (node : Ptr) : Prop :=
  ∃ r, m.get node = some r ∧ m.redNode (rbParent r) = some false

theorem HoldsTree.settled (h : HoldsTree rest m (fill (f :: p) t)) (ht : t ≠ nil)
    (hf : f.color = .black) : m.Settled (ptr t) := by
  have htree := h.treeAt
  have hpath := HoldsTree.treeAt (p := p) (t := f.fill t) h
  cases t with
  | nil => exact absurd rfl ht
  | node c l a r =>
    refine ⟨_, htree.1, ?_⟩
    have hred := hpath.redNode
    rw [Frame.fill, ptr_nodeOn, isBlack_nodeOn] at hred
    simpa [above, hf] using hred

/-- A black uncle: a rotation, or two, and the loop is over. -/
theorem rbInsertColorStep_black (h : HoldsTree rest m (fill (f :: g :: p) t)) (ht : t ≠ nil)
    (hf : f.color = .red) (huncle : g.sib.isBlack = true) :
    ∃ m' node', rbInsertColorStep g.side m (ptr t) f.val g.val = some (m', node') ∧
      HoldsTree rest m' (fill p (raised f g t)) ∧ m'.Settled node' := by
  obtain ⟨fs, fc, fv, fsib⟩ := f
  obtain ⟨gs, gc, gv, gsib⟩ := g
  obtain rfl : fc = .red := hf
  have hg := HoldsTree.getAbove (p := p) (t := nodeOn fs .red t fv fsib) h
  have hred := h.pathAt.2.2.2.1.redNode
  have hne := h.ptr_ne_sibling (.inl ht)
  have hget := h.getAbove
  obtain rfl | hopp : fs = gs ∨ fs = gs.opp := by cases fs <;> cases gs <;> simp [Side.opp]
  · -- the node is on the outer side
    obtain ⟨m₁, hm₁, h₁⟩ := HoldsTree.setBlack (p := ⟨fs, gc, gv, gsib⟩ :: p) (d := fs) h
    obtain ⟨m₂, hm₂, h₂⟩ := HoldsTree.setRed (p := p) (d := fs) h₁
    obtain ⟨m₃, hm₃, h₃⟩ := holds_rbRotate_opp h₂
    have hset : m₃.Settled (ptr t) :=
      HoldsTree.settled (f := ⟨fs, .black, fv, nodeOn fs .red fsib gv gsib⟩) h₃ ht rfl
    refine ⟨m₃, ptr t, ?_, by simpa [raised] using h₃, hset⟩
    simp [rbInsertColorStep, hg, hred, huncle, hget, hne.symm, hm₁, hm₂, hm₃]
  · -- on the inner side it takes the place of its parent first
    cases t with
    | nil => exact absurd rfl ht
    | node tc l v r =>
      have hside : fs ≠ gs := by rw [hopp]; cases gs <;> simp [Side.opp]
      have h₀ : HoldsTree rest m (fill (⟨gs, gc, gv, gsib⟩ :: p)
          (nodeOn gs .red fsib fv (nodeOn gs tc (gs.pick l r) v (gs.pick r l)))) := by
        rw [← node_eq_nodeOn, ← nodeOn_opp, ← hopp]
        exact h
      obtain ⟨m₁, hm₁, h₁⟩ := holds_rbRotate h₀
      obtain ⟨m₂, hm₂, h₂⟩ := h₁.setBlack
      obtain ⟨m₃, hm₃, h₃⟩ := HoldsTree.setRed (p := p) (d := gs) h₂
      obtain ⟨m₄, hm₄, h₄⟩ := holds_rbRotate_opp h₃
      have hset : m₄.Settled fv := by
        have := HoldsTree.settled (p := p)
          (f := ⟨gs, .black, v, nodeOn gs .red (gs.pick r l) gv gsib⟩)
          (t := nodeOn gs .red fsib fv (gs.pick l r)) h₄ (by cases gs <;> simp [nodeOn]) rfl
        simpa using this
      refine ⟨m₄, fv, ?_, by simpa [raised, hside] using h₄, hset⟩
      rw [ptr_node] at hget
      simp [rbInsertColorStep, hg, hred, huncle, hget, child_opp_side, hside, hm₁, hm₂, hm₃, hm₄]

/-! ## The loop -/

theorem rbInsertColorLoop_settled {fuel : Nat} (h : m.Settled node) :
    rbInsertColorLoop (fuel + 1) m node = some m := by
  obtain ⟨r, hr, hred⟩ := h
  simp [rbInsertColorLoop, hr, hred]

/-- One round, for a node below a red one. -/
theorem rbInsertColorLoop_round {fuel : Nat} (h : HoldsTree rest m (fill (f :: g :: p) t))
    (ht : t ≠ nil) (hf : f.color = .red) :
    rbInsertColorLoop (fuel + 1) m (ptr t) =
      (rbInsertColorStep g.side m (ptr t) f.val g.val).bind
        (fun q => rbInsertColorLoop fuel q.1 q.2) := by
  obtain ⟨r, hr, hparent⟩ := h.getParent ht
  have h' : HoldsTree rest m (fill (g :: p) (f.fill t)) := h
  have hfill : f.fill t ≠ nil := by cases hs : f.side <;> simp [Frame.fill, nodeOn, hs]
  have hred := h'.treeAt.redNode
  have hne := h'.ptr_ne_sibling (.inl hfill)
  simp only [Frame.fill, ptr_nodeOn, isBlack_nodeOn, hf] at hred hne
  have hside : ∀ q c, (if f.val = (mkNode q c g.side f.val (ptr g.sib)).rb_left then Side.left
      else .right) = g.side := fun q c => side_of_child hne
  have hg := h'.getAbove
  rw [Frame.fill, ptr_nodeOn] at hg
  simp [rbInsertColorLoop, hr, hparent, above, hred, h.getAbove, hg, hside]

/-- **The loop goes up the tree**, two nodes a round. -/
theorem rbInsertColorLoop_spec {fuel : Nat} (h : HoldsTree rest m (fill p t)) (hp : Hole p n)
    (ht : t ≠ nil) (hfuel : p.length < fuel) :
    ∃ m' t', rbInsertColorLoop fuel m (ptr t) = some m' ∧ HoldsTree rest m' t' ∧
      t'.setBlack = insertColor p t := by
  induction hlen : p.length using Nat.strong_induction_on generalizing p t m n fuel with
  | _ k ih =>
    obtain ⟨fuel, rfl⟩ : ∃ j, fuel = j + 1 := ⟨fuel - 1, by omega⟩
    match p, hp with
    | [], _ =>
      obtain ⟨r, hr, hparent⟩ := h.getParent ht
      have hset : m.Settled (ptr t) := ⟨r, hr, by simp [hparent, RbMem.redNode, above]⟩
      exact ⟨m, t, rbInsertColorLoop_settled hset, h, by simp [insertColor]⟩
    | ⟨fs, .black, fv, fsib⟩ :: p, hp =>
      refine ⟨m, _, rbInsertColorLoop_settled (h.settled ht rfl), h, ?_⟩
      cases p <;> simp [insertColor]
    | ⟨fs, .red, fv, fsib⟩ :: ⟨gs, .black, gv, gsib⟩ :: p, ⟨_, _, _, _, hp⟩ =>
      rw [rbInsertColorLoop_round h ht rfl]
      simp only [List.length_cons] at hfuel hlen
      rw [insertColor]
      cases huncle : gsib.isBlack with
      | false =>
        obtain ⟨m', hm', h'⟩ := rbInsertColorStep_red h huncle
        have hne : nodeOn gs .red (nodeOn fs .black t fv fsib) gv gsib.setBlack ≠ nil := by
          cases gs <;> simp [nodeOn]
        have hrest : p.length < fuel := by omega
        obtain ⟨m'', t', hm'', hres⟩ := ih p.length (by omega) h' hp hne hrest rfl
        rw [ptr_nodeOn] at hm''
        exact ⟨m'', t', by simp [hm', hm''], by simpa using hres⟩
      | true =>
        obtain ⟨m', node', hm', h', hset⟩ := rbInsertColorStep_black h ht rfl huncle
        obtain ⟨fuel, rfl⟩ : ∃ j, fuel = j + 1 := ⟨fuel - 1, by omega⟩
        exact ⟨m', _, by simp [hm', rbInsertColorLoop_settled hset], h', by simp⟩

theorem insertColor_ne_nil (ht : t ≠ nil) : insertColor p t ≠ nil := by
  intro hnil
  have hin := inorder_insertColor (p := p) ht
  have hmem : ptr t ∈ before p ++ t.inorder ++ after p := by simp [ptr_mem ht]
  rw [← hin, hnil] at hmem
  cases hmem

/-- **The repair after an insertion**: no null pointer is followed, the loop ends, and the memory
    holds the repaired tree. -/
theorem rbInsertColor_spec {fuel : Nat} (h : HoldsTree rest m (fill p t)) (hp : Hole p n)
    (ht : t ≠ nil) (hfuel : p.length < fuel) :
    ∃ m', rbInsertColor fuel m (ptr t) = some m' ∧ HoldsTree rest m' (insertColor p t) := by
  obtain ⟨m', t', hm', h', heq⟩ := rbInsertColorLoop_spec h hp ht hfuel
  have hne : t' ≠ nil := by
    rintro rfl
    exact insertColor_ne_nil ht heq.symm
  have hroot : m'.rb_node ≠ NULL := h'.root ▸ h'.ne_null (ptr_mem hne)
  obtain ⟨m'', hm'', h''⟩ := h'.blackenRoot
  rw [blacken_eq hroot] at hm''
  exact ⟨m'', by simp [rbInsertColor, hm', hm''], heq ▸ h''⟩

/-! ## A new node -/

/-- Where the pointer is that leads to a place. -/
def linkOf : List (Frame Ptr) → RbLink
  | [] => .root
  | f :: _ => .child f.val f.side

@[simp] theorem linkOf_nil : linkOf [] = .root := rfl

@[simp] theorem linkOf_cons : linkOf (f :: p) = .child f.val f.side := rfl

theorem assign_linkOf {child new : Ptr} (hp : PathAt m p child) :
    m.assign new (linkOf p) = some (m.relink p new) := by
  cases p with
  | nil => rfl
  | cons f p => exact update_of_get (show m.get f.val = some _ from hp.1) _

/-- **A node that is in memory, but not in the tree, is hung at a free place.** -/
theorem holds_rbLinkNode (h : HoldsTree rest m (fill p nil)) {r : RbNode} (hnode : m.get node = some r)
    (hnew : node ∉ around p) :
    ∃ m', rbLinkNode m node (above p) (linkOf p) = some m' ∧
      HoldsTree rest m' (fill p (nodeOn .left .red nil node nil)) := by
  obtain ⟨⟨hpath, -⟩, hnodup, hframe⟩ := holds_fill.1 h
  obtain ⟨-, haround, -⟩ := nodup_fill.1 hnodup
  let fresh : RbNode := ⟨(above p).addr, NULL, NULL⟩
  have hfresh : fresh = mkNode (above p) .red .left NULL NULL := by
    simp [fresh, mkNode, colorWord, RB_RED, Side.pick]
  have hpath' := hpath.modify hnew (g := fun _ => fresh)
  refine ⟨(m.modify node (fun _ => fresh)).relink p node, ?_, holds_fill.2 ⟨⟨?_, ?_⟩, ?_, ?_⟩⟩
  · rw [rbLinkNode, update_of_get hnode]
    exact assign_linkOf hpath'
  · exact hpath'.relink haround node
  · refine treeAt_nodeOn.2 ⟨?_, trivial, trivial⟩
    have hcell : m.nodes.cell node = some r := hnode
    rw [cell_relink hnew, cell_modify_same, hcell]
    exact congrArg some hfresh
  · refine nodup_fill.2 ⟨by simp [nodeOn, inorder], haround, ?_⟩
    simpa [nodeOn, inorder] using hnew
  · intro q hq
    simp only [mem_inorder_fill, mem_inorder_nodeOn, inorder, not_or] at hq hframe
    rw [cell_relink hq.2, cell_modify_other hq.1.1]
    exact hframe q ⟨by simp, hq.2⟩

/-- **`rb_link_node` and `rb_insert_color`** at any free place: no null pointer is followed, the loop
    ends, and the memory holds a balanced tree with the node at this place of the order. -/
theorem rbInsertion_refines {fuel : Nat} {r : RbNode} (h : HoldsTree rest m (fill p nil))
    (hroot : RootBlack (fill p nil)) (hnode : m.get node = some r) (hnew : node ∉ around p)
    (hfuel : 2 * Nat.log2 ((around p).length + 1) < fuel) :
    ∃ m₁ m₂ t, rbLinkNode m node (above p) (linkOf p) = some m₁ ∧
      rbInsertColor fuel m₁ node = some m₂ ∧ HoldsTree rest m₂ t ∧ RootBlack t ∧
      t.inorder = before p ++ node :: after p := by
  have hin : (fill p nil).inorder = around p := by simp [inorder_fill, inorder, around]
  have hheight := hroot.height_le
  rw [hin] at hheight
  have hlen := length_le_height (p := p) (t := (nil : RBTree Ptr))
  obtain ⟨m₁, hm₁, h₁⟩ := holds_rbLinkNode h hnode hnew
  obtain ⟨n, hp, hnil, -⟩ := hole_of_fill hroot
  have hne : nodeOn .left .red nil node nil ≠ nil := by simp [nodeOn]
  obtain ⟨m₂, hm₂, h₂⟩ := rbInsertColor_spec h₁ hp hne (show p.length < fuel by omega)
  have hleaf : Balanced n (nodeOn .left .red nil node nil) := balanced_red.2 ⟨rfl, rfl, hnil, hnil⟩
  refine ⟨m₁, m₂, _, hm₁, hm₂, h₂, rootBlack_insertColor hp hleaf rfl, ?_⟩
  rw [inorder_insertColor hne, inorder_nodeOn]
  simp [Side.pick, inorder]

/-- Below the red node the third one needs a rotation. -/
theorem rbInsertion_refines_small : ∃ m₁ m₂ t,
    rbLinkNode smallRbMem node24 node16 (.child node16 .right) = some m₁ ∧
      rbInsertColor 4 m₁ node24 = some m₂ ∧ HoldsTree smallRbMem.nodes.cell m₂ t ∧ RootBlack t ∧
      t.inorder = [node8, node16, node24] :=
  rbInsertion_refines (p := [⟨.right, .red, node16, nil⟩, ⟨.right, .black, node8, nil⟩])
    holds_smallTree rootBlack_smallTree rfl (by decide) (by decide)

end Insertion

end Meshias
