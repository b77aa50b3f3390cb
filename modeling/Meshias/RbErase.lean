import Meshias.RbInsert

/-!
# Removal from a red-black tree in memory

* `rbBlackSibling_red`, `rbOuterRed_spec`, `rbTakePlace_spec` — the parts of one round of the loop.
* `rbEraseColorStep_spec` — one round does what `balanceSibling` does.

Principal results: `rbEraseColor_spec` and `rbErase_spec` — the removal follows no null pointer,
ends, and leaves the tree that `erase` makes.
-/

set_option autoImplicit false

namespace Meshias

open RedBlack
open RedBlack.RBTree
open Pointers (Heap)

section Repair

variable {rest : Cells} {m m₀ : RbMem} {a o s : Ptr} {d : Side} {c oc : Color} {n : Nat}
variable {l r x near far : RBTree Ptr} {f : Frame Ptr} {p : List (Frame Ptr)}

/-! ## One round -/

theorem rbBlackSibling_black (h : HoldsTree rest m (fill (f :: p) x)) (hsib : f.sib = node .black l s r) :
    rbBlackSibling f.side m f.val = some (m, ptr f.sib) := by
  have htree := h.pathAt.2.1
  have hget := h.getAbove
  rw [hsib] at htree hget
  have hother : m.get s = some _ := htree.1
  simp [rbBlackSibling, hget, hother, hsib]

/-- A red sibling goes up, and its near child is the sibling after it. -/
theorem rbBlackSibling_red (h : HoldsTree rest m (fill (f :: p) x)) (hsib : f.sib = node .red l s r) :
    ∃ m', rbBlackSibling f.side m f.val = some (m', ptr (f.side.pick l r)) ∧
      HoldsTree rest m' (fill
        (⟨f.side, .red, f.val, f.side.pick l r⟩ :: ⟨f.side, .black, s, f.side.pick r l⟩ :: p) x) := by
  obtain ⟨d, c, a, sib⟩ := f
  obtain rfl : sib = node .red l s r := hsib
  have hget := h.getAbove
  have hother : m.get s = some _ := h.pathAt.2.1.1
  have hnull : s ≠ NULL := Heap.ne_null hother
  obtain ⟨m₁, hm₁, h₁⟩ := h.blackenSibling
  rw [ptr_node, blacken_eq hnull] at hm₁
  obtain ⟨m₂, hm₂, h₂⟩ := HoldsTree.setRed (p := p) (d := d) h₁
  have hlower : HoldsTree rest m₂
      (fill p (nodeOn d .red x a (nodeOn d .black (d.pick l r) s (d.pick r l)))) := by
    rw [← node_eq_nodeOn]
    exact h₂
  obtain ⟨m₃, hm₃, h₃⟩ := holds_rbRotate hlower
  have hget₃ := HoldsTree.get (p := ⟨d, .black, s, d.pick r l⟩ :: p) h₃
  refine ⟨m₃, ?_, h₃⟩
  simp [rbBlackSibling, hget, hother, hm₁, hm₂, hm₃, hget₃]

/-- A red far child stays, and a red near one comes there. -/
theorem rbOuterRed_spec (h : HoldsTree rest m (fill p (nodeOn d c x a (nodeOn d oc near o far))))
    (hone : ¬ (near.isBlack = true ∧ far.isBlack = true)) :
    ∃ m' o' oc' near' far', rbOuterRed d m a o = some (m', o') ∧
      HoldsTree rest m' (fill p (nodeOn d c x a (nodeOn d oc' near' o' far'))) ∧
        (if far.isBlack = true then
          ∃ nc nl nv nr, near = node nc nl nv nr ∧ near' = d.pick nl nr ∧ o' = nv ∧
            far' = nodeOn d .red (d.pick nr nl) o far
        else near' = near ∧ o' = o ∧ far' = far) := by
  have hother : HoldsTree rest m (fill (⟨d.opp, c, a, x⟩ :: p) (nodeOn d oc near o far)) := by
    rw [fill_cons, Frame.fill, nodeOn_opp]
    exact h
  have hget := hother.get
  have hfar := (treeAt_nodeOn.1 hother.treeAt).2.2.blackOrNull
  cases hb : far.isBlack with
  | false => exact ⟨m, o, oc, near, far, by simp [rbOuterRed, hget, hfar, hb], h, by simp⟩
  | true =>
    cases near with
    | nil => exact absurd ⟨rfl, hb⟩ hone
    | node nc nl nv nr =>
      obtain ⟨m₁, hm₁, h₁⟩ :=
        HoldsTree.blacken (p := ⟨d, oc, o, far⟩ :: ⟨d.opp, c, a, x⟩ :: p) hother
      obtain ⟨m₂, hm₂, h₂⟩ := HoldsTree.setRed (p := ⟨d.opp, c, a, x⟩ :: p) (d := d) h₁
      rw [RBTree.setBlack, node_eq_nodeOn d] at h₂
      obtain ⟨m₃, hm₃, h₃⟩ := holds_rbRotate_opp h₂
      rw [fill_cons, Frame.fill, nodeOn_opp] at h₃
      refine ⟨m₃, nv, _, _, _, ?_, h₃, ?_⟩
      · rw [ptr_node] at hget hm₁
        simp [rbOuterRed, hget, hfar, hb, hm₁, hm₂, hm₃, h₃.get]
      · rw [if_pos rfl]
        exact ⟨nc, nl, nv, nr, rfl, rfl, rfl, rfl⟩

theorem rbTakePlace_spec (h : HoldsTree rest m (fill p (nodeOn d c x a (nodeOn d oc near o far)))) :
    ∃ m', rbTakePlace d m a o = some m' ∧
      HoldsTree rest m' (fill p (nodeOn d c (nodeOn d .black x a near) o far.setBlack)) := by
  have hswap : ∀ {m : RbMem} {t : RBTree Ptr} {c : Color}, HoldsTree rest m (fill p (nodeOn d c x a t)) ↔
      HoldsTree rest m (fill (⟨d.opp, c, a, x⟩ :: p) t) := by
    intro m t c
    rw [fill_cons, Frame.fill, nodeOn_opp]
  obtain ⟨m₁, hm₁, h₁⟩ := (hswap.1 h).setColor c
  obtain ⟨m₂, hm₂, h₂⟩ := HoldsTree.setBlack (p := p) (d := d) (hswap.2 h₁)
  have hget := (hswap.1 h₂).get
  rw [hswap, ← nodeOn_opp (d := d)] at h₂
  obtain ⟨m₃, hm₃, h₃⟩ :=
    HoldsTree.blacken (p := ⟨d.opp, c, o, near⟩ :: ⟨d.opp, .black, a, x⟩ :: p) h₂
  simp only [fill_cons, Frame.fill, nodeOn_opp] at h₃
  obtain ⟨m₄, hm₄, h₄⟩ := holds_rbRotate h₃
  exact ⟨m₄, by simp [rbTakePlace, h.get, hm₁, hm₂, hget, hm₃, hm₄], h₄⟩

/-- With what the loop goes on when the node is still short. -/
def goesOn (node parent : Ptr) : Sunk Ptr → Option (Ptr × Ptr)
  | .settled _ => none
  | .short _ => some (node, parent)

/-- The rest of a round, once the sibling is black. -/
theorem rbEraseColorStep_of_sibling (hblack : rbBlackSibling f.side m₀ f.val = some (m, o))
    (h : HoldsTree rest m (fill (f :: p) x)) (hsib : f.sib = node oc l o r) :
    ∃ m', rbEraseColorStep f.side m₀ f.val =
        some (m', goesOn f.val (above p) (balanceSibling f.side f.color x f.val f.sib)) ∧
      HoldsTree rest m' (fill p (balanceSibling f.side f.color x f.val f.sib).tree) := by
  obtain ⟨d, c, a, sib⟩ := f
  obtain rfl : sib = node oc l o r := hsib
  obtain ⟨hcell, hl, hr⟩ := h.pathAt.2.1
  have hget : m.get o = some (mkNode a oc .left (ptr l) (ptr r)) := hcell
  by_cases hboth : l.isBlack = true ∧ r.isBlack = true
  · -- the sibling becomes red
    have hswap : HoldsTree rest m (fill (⟨d.opp, c, a, x⟩ :: p) (nodeOn .left oc l o r)) := by
      rw [fill_swap] at h
      exact h
    obtain ⟨m', hm', h'⟩ := hswap.setRed
    rw [fill_cons, Frame.fill, nodeOn_opp] at h'
    have hparent : m'.get a = some _ := h'.get
    have hshort : balanceSibling d c x a (node oc l o r) =
        .short (nodeOn d c x a (nodeOn .left .red l o r)) := by rw [balanceSibling, if_pos hboth]; rfl
    simp only [hshort]
    refine ⟨m', ?_, h'⟩
    simp [rbEraseColorStep, hblack, hget, hl.blackOrNull, hr.blackOrNull, hboth, hm',
      hparent, goesOn]
  · -- a child of the sibling is red
    have hone : ¬ ((d.pick l r).isBlack = true ∧ (d.pick r l).isBlack = true) := by
      cases d with
      | left => exact hboth
      | right => exact fun h => hboth h.symm
    have hupper : HoldsTree rest m
        (fill p (nodeOn d c x a (nodeOn d oc (d.pick l r) o (d.pick r l)))) := by
      rw [← node_eq_nodeOn]
      exact h
    obtain ⟨m₁, o', oc', near, far, hm₁, h₁, hparts⟩ := rbOuterRed_spec hupper hone
    obtain ⟨m₂, hm₂, h₂⟩ := rbTakePlace_spec h₁
    have hstep : rbEraseColorStep d m₀ a = some (m₂, none) := by
      cases hlb : l.isBlack with
      | false =>
        simp [rbEraseColorStep, hblack, hget, hl.blackOrNull, hlb, hm₁, hm₂]
      | true =>
        have hrb : r.isBlack = false := by simpa [hlb] using hboth
        simp [rbEraseColorStep, hblack, hget, hl.blackOrNull, hr.blackOrNull, hlb, hrb, hm₁,
          hm₂]
    have hsettled : balanceSibling d c x a (node oc l o r) =
        .settled (nodeOn d c (nodeOn d .black x a near) o' far.setBlack) := by
      rw [balanceSibling, if_neg hboth]
      split at hparts
      · rename_i hfar
        obtain ⟨nc, nl, nv, nr, hnear, rfl, rfl, rfl⟩ := hparts
        simp [hfar, hnear]
      · rename_i hfar
        obtain ⟨rfl, rfl, rfl⟩ := hparts
        simp [hfar]
    simp only [hsettled]
    exact ⟨m₂, hstep, h₂⟩

theorem exists_node (h : RBTree.Balanced (n + 1) x) : ∃ c l a r, x = node c l a r := by
  cases x with
  | nil => simp at h
  | node c l a r => exact ⟨c, l, a, r, rfl⟩

/-- One round, with a black sibling. -/
theorem rbEraseColorStep_black (h : HoldsTree rest m (fill (f :: p) x))
    (hbal : RBTree.Balanced (n + 1) f.sib) (hblack : f.sib.isBlack = true) :
    ∃ m', rbEraseColorStep f.side m f.val =
        some (m', goesOn f.val (above p) (balanceSibling f.side f.color x f.val f.sib)) ∧
      HoldsTree rest m' (fill p (balanceSibling f.side f.color x f.val f.sib).tree) := by
  obtain ⟨c, l, s, r, hsib⟩ := exists_node hbal
  have hc : c = .black := by cases c <;> simp_all [isBlack]
  subst hc
  have hkeep := rbBlackSibling_black h hsib
  rw [hsib, ptr_node] at hkeep
  exact rbEraseColorStep_of_sibling hkeep h hsib

/-- One round, with a red sibling: the place is one step deeper in it. -/
theorem rbEraseColorStep_red (h : HoldsTree rest m (fill (f :: p) x)) (hp : Hole (f :: p) (n + 1))
    (hsib : f.sib = node .red l s r) :
    ∃ m', rbEraseColorStep f.side m f.val =
        some (m', goesOn f.val s (balanceSibling f.side .red x f.val (f.side.pick l r))) ∧
      HoldsTree rest m' (fill (⟨f.side, .black, s, f.side.pick r l⟩ :: p)
        (balanceSibling f.side .red x f.val (f.side.pick l r)).tree) := by
  obtain ⟨⟨hbal, -⟩, -⟩ := hp.of_red_sibling hsib
  obtain ⟨c, nl, v, nr, hnear⟩ := exists_node hbal
  obtain ⟨m₁, hm₁, h₁⟩ := rbBlackSibling_red h hsib
  rw [hnear, ptr_node] at hm₁
  exact rbEraseColorStep_of_sibling (f := ⟨f.side, .red, f.val, f.side.pick l r⟩) hm₁ h₁ hnear

/-! ## The loop -/

theorem ptr_fill_mem : ptr (fill (f :: p) x) ∈ around (f :: p) := by
  induction p generalizing f x with
  | nil => simp [fill, Frame.fill]
  | cons g p ih => exact mem_around_cons.2 (.inr (.inr (ih (f := g) (x := f.fill x))))

/-- Below the root there is not the root. -/
theorem HoldsTree.ptr_ne_root (h : HoldsTree rest m (fill (f :: p) x)) : ptr x ≠ m.rb_node := by
  have hmem := ptr_fill_mem (f := f) (p := p) (x := x)
  rw [h.root]
  intro he
  have hx : x ≠ nil := by
    rintro rfl
    exact h.ne_null (mem_inorder_fill.2 (.inr hmem)) he.symm
  exact (nodup_fill.1 h.nodup).2.2 (ptr_mem hx) (he ▸ hmem)

/-- The loop does not run for a red node. -/
theorem rbEraseColor_red (fuel : Nat) (q : Ptr) (h : HoldsTree rest m (fill p x))
    (hred : x.isBlack = false) :
    ∃ m', rbEraseColor (fuel + 1) m (ptr x) q = some m' ∧ HoldsTree rest m' (eraseColor p x) := by
  obtain ⟨m', hm', h'⟩ := h.blacken
  rw [eraseColor_of_red hred]
  exact ⟨m', by simp [rbEraseColor, rbEraseColorLoop, h.treeAt.blackOrNull, hred, hm'], h'⟩

/-- What is left to do after one round. -/
def rbEraseColorRest (fuel : Nat) : RbMem × Option (Ptr × Ptr) → Option RbMem
  | (m, some (u, v)) => rbEraseColor fuel m u v
  | (m, none) => m.blacken m.rb_node

/-- It runs for a black one below the root. -/
theorem rbEraseColor_round {fuel : Nat} (h : HoldsTree rest m (fill (f :: p) x))
    (hblack : x.isBlack = true) (hsib : f.sib ≠ nil) :
    rbEraseColor (fuel + 1) m (ptr x) f.val =
      (rbEraseColorStep f.side m f.val).bind (rbEraseColorRest fuel) := by
  have hside := side_of_child' (q := above p) (c := f.color) (d := f.side)
    (h.ptr_ne_sibling (.inr hsib))
  simp only [rbEraseColor, rbEraseColorLoop, h.treeAt.blackOrNull, hblack, h.ptr_ne_root, h.getAbove,
    hside, Option.bind_eq_bind, Option.bind_some, ne_eq, not_false_eq_true, and_self, if_true]
  rw [Option.bind_assoc]
  congr 1
  funext ⟨m', next⟩
  cases next <;> rfl

theorem ptr_of_short {t other : RBTree Ptr} (ht : balanceSibling d c x a other = .short t) :
    ptr t = a := by
  unfold balanceSibling at ht
  split at ht
  · cases ht
  · split at ht
    · obtain rfl := Sunk.short.inj ht
      simp
    · split at ht
      · split at ht <;> cases ht
      · cases ht

/-- **The repair after a removal**: no null pointer is followed, the loop ends, and the memory
    holds the repaired tree. -/
theorem rbEraseColor_spec {fuel : Nat} (h : HoldsTree rest m (fill p x)) (hp : Hole p (n + 1))
    (hx : RBTree.Balanced n x) (hfuel : p.length + 1 < fuel) :
    ∃ m', rbEraseColor fuel m (ptr x) (above p) = some m' ∧ HoldsTree rest m' (eraseColor p x) := by
  obtain ⟨fuel, rfl⟩ : ∃ j, fuel = j + 1 := ⟨fuel - 1, by omega⟩
  fun_induction eraseColor p x generalizing n m fuel with
  | case1 x =>
    obtain ⟨m', hm', h'⟩ := h.blacken
    have hroot : m.rb_node = ptr x := h.root
    exact ⟨m', by simp [rbEraseColor, rbEraseColorLoop, h.treeAt.blackOrNull, hroot, hm'], h'⟩
  | case2 f p x hred =>
    obtain ⟨m', hm', h'⟩ := rbEraseColor_red _ _ h hred
    exact ⟨m', hm', by rwa [eraseColor_of_red hred] at h'⟩
  | case3 f p x hblack l s r hsib q t =>
    rename_i ht
    obtain ⟨m₁, hm₁, h₁⟩ := rbEraseColorStep_red h hp hsib
    rw [ht] at hm₁ h₁
    obtain ⟨m₂, hm₂, h₂⟩ := h₁.blackenRoot
    refine ⟨m₂, ?_, h₂⟩
    rw [above, rbEraseColor_round h (by simpa using hblack) (by simp [hsib]), hm₁]
    exact hm₂
  | case4 f p x hblack l s r hsib q t =>
    -- the node above is red now, and the next round is the last one
    rename_i ht
    obtain ⟨m₁, hm₁, h₁⟩ := rbEraseColorStep_red h hp hsib
    obtain ⟨⟨hnear, hnb⟩, -⟩ := hp.of_red_sibling hsib
    obtain ⟨hred, -⟩ := (balanceSibling_spec hnear hnb hx).2 t ht
    rw [ht] at hm₁ h₁
    obtain ⟨fuel, rfl⟩ : ∃ j, fuel = j + 1 := ⟨fuel - 1, by simp at hfuel; omega⟩
    obtain ⟨m₂, hm₂, h₂⟩ := rbEraseColor_red fuel s h₁ (by simpa [Sunk.tree] using hred)
    refine ⟨m₂, ?_, ?_⟩
    · rw [above, rbEraseColor_round h (by simpa using hblack) (by simp [hsib]), hm₁]
      rw [Sunk.tree, ptr_of_short ht] at hm₂
      exact hm₂
    · rwa [eraseColor_of_red (by simpa [Sunk.tree] using hred)] at h₂
  | case5 f p x hblack t hsib ht =>
    obtain ⟨hbal, -⟩ := hp.of_black_sibling
    obtain ⟨_, _, _, _, hnode⟩ := exists_node hbal
    obtain ⟨m₁, hm₁, h₁⟩ := rbEraseColorStep_black h hbal (isBlack_of_not_red hsib)
    rw [ht] at hm₁ h₁
    obtain ⟨m₂, hm₂, h₂⟩ := h₁.blackenRoot
    refine ⟨m₂, ?_, h₂⟩
    rw [above, rbEraseColor_round h (by simpa using hblack) (by simp [hnode]), hm₁]
    exact hm₂
  | case6 f p x hblack t hsib ht ih =>
    obtain ⟨hbal, hp', -⟩ := hp.of_black_sibling
    obtain ⟨_, _, _, _, hnode⟩ := exists_node hbal
    have hsb := isBlack_of_not_red hsib
    obtain ⟨m₁, hm₁, h₁⟩ := rbEraseColorStep_black h hbal hsb
    obtain ⟨htb, htbal⟩ := (balanceSibling_spec hbal hsb hx).2 t ht
    rw [ht] at hm₁ h₁
    obtain ⟨fuel, rfl⟩ : ∃ j, fuel = j + 1 := ⟨fuel - 1, by simp at hfuel; omega⟩
    have hnext : ∃ m₂, rbEraseColor (fuel + 1) m₁ (ptr t) (above p) = some m₂ ∧
        HoldsTree rest m₂ (eraseColor p t) := by
      cases hc : f.color with
      | black =>
        simp only [hc, if_true] at hp' htbal
        exact ih h₁ hp' htbal fuel (by simpa using hfuel)
      | red =>
        simp only [hc, reduceCtorEq, decide_false] at htb
        exact rbEraseColor_red _ _ h₁ htb
    obtain ⟨m₂, hm₂, h₂⟩ := hnext
    refine ⟨m₂, ?_, h₂⟩
    rw [above, rbEraseColor_round h (by simpa using hblack) (by simp [hnode]), hm₁]
    rw [ptr_of_short ht] at hm₂
    exact hm₂

end Repair

/-! ## A node leaves the tree -/

section Removal

variable {rest : Cells} {m : RbMem} {a b : Ptr} {d : Side} {c : Color} {n : Nat}
variable {t l r x : RBTree Ptr} {p : List (Frame Ptr)}

/-- What was at an address before is forgotten when a node of the tree is there. -/
theorem HoldsTree.forget {u o : Option RbNode}
    (h : HoldsTree (Function.update (Function.update rest b u) a o) m t) (hb : b ∈ t.inorder) :
    HoldsTree (Function.update rest a o) m t := by
  refine ⟨h.tree, h.root, h.nodup, fun q hq => (h.frame q hq).trans ?_⟩
  have hqb : q ≠ b := fun he => hq (he ▸ hb)
  by_cases hqa : q = a
  · rw [hqa, Function.update_self, Function.update_self]
  · rw [Function.update_of_ne hqa, Function.update_of_ne hqa, Function.update_of_ne hqb]

/-- The only child of a node takes its place. -/
theorem holds_splice (h : HoldsTree rest m (fill p (nodeOn d c nil a x))) :
    PathAt (m.modify (ptr x) (rbSetParent (above p))) p a ∧
      HoldsTree (Function.update rest a (m.get a))
        ((m.modify (ptr x) (rbSetParent (above p))).relink p (ptr x)) (fill p x) := by
  obtain ⟨⟨hpath, htree⟩, hnodup, hframe⟩ := holds_fill.1 h
  obtain ⟨-, -, hx⟩ := treeAt_nodeOn.1 htree
  obtain ⟨hnode, haround, hdisj⟩ := nodup_fill.1 hnodup
  obtain ⟨⟨-, hax⟩, -, hxnodup, -⟩ := nodup_nodeOn.1 hnode
  rw [ptr_nodeOn] at hpath
  have hxp : ∀ q ∈ x.inorder, q ∉ around p := fun q hq hmem => hdisj (by simp [hq]) hmem
  have hpath' : PathAt (m.modify (ptr x) (rbSetParent (above p))) p a :=
    hpath.congr rfl (fun q hq => cell_modify_ptr (fun hmem => hxp q hmem hq))
  have hx' := treeAt_reparent hx hxnodup (above p)
  refine ⟨hpath', holds_fill.2 ⟨⟨hpath'.relink haround _, ?_⟩, ?_, ?_⟩⟩
  · exact (treeAt_congr (fun q hq => cell_relink (hxp q hq))).2 hx'
  · exact nodup_fill.2 ⟨hxnodup, haround, fun q hq hmem => hxp q hq hmem⟩
  · intro q hq
    have hcell : m.nodes.cell q = Function.update rest a (m.get a) q := by
      by_cases hqa : q = a
      · subst hqa
        simp [RbMem.get]
      · rw [Function.update_of_ne hqa]
        refine hframe q (fun hmem => hq ?_)
        simp only [mem_inorder_fill, mem_inorder_nodeOn, inorder, List.not_mem_nil, false_or, hqa]
          at hmem ⊢
        exact hmem
    simp only [mem_inorder_fill, not_or] at hq
    rw [cell_relink hq.2, ← hcell, cell_modify_ptr hq.1]

/-- `rb_erase` for a node with at most one child. -/
theorem rbEraseOne_spec {fuel : Nat} (h : HoldsTree rest m (fill p (nodeOn d c nil a x)))
    (hp : Hole p n) (hbal : RBTree.Balanced n (nodeOn d c nil a x)) (hfuel : p.length + 1 < fuel) :
    ∃ m', rbEraseOne fuel m a (ptr x) = some m' ∧
      HoldsTree (Function.update rest a (m.get a)) m' (unlink p c x) := by
  obtain ⟨hpath, hsplice⟩ := holds_splice h
  have hx := (treeAt_nodeOn.1 h.treeAt).2.2
  have ha : a ≠ NULL := h.ne_null (by simp [mem_inorder_fill])
  have hap : a ∉ around p := fun hmem => (nodup_fill.1 h.nodup).2.2 (by simp) hmem
  have hreplace := replaceChild_eq (ptr x) hpath ha hap .left
  cases c with
  | red =>
    refine ⟨_, ?_, hsplice⟩
    simp [rbEraseOne, h.get, reparent_eq hx, hreplace, colorWord, RB_RED, RB_BLACK]
  | black =>
    cases n with
    | zero => exact absurd hbal not_balanced_black
    | succ n =>
      obtain ⟨m', hm', h'⟩ := rbEraseColor_spec hsplice hp (balanced_black.1 hbal).2 hfuel
      refine ⟨m', ?_, h'⟩
      simp [rbEraseOne, h.get, reparent_eq hx, hreplace, colorWord, hm']

/-- The memory after `b` has taken the place of `a`, with its links and its colour. -/
def RbMem.renamed (m : RbMem) (p : List (Frame Ptr)) (b : Ptr) (o : RbNode) (l r : Ptr) : RbMem :=
  (((m.modify b (fun _ => o)).relink p b).modify l (rbSetParent b)).modify r (rbSetParent b)

/-- **A node takes the place of another one**, which has a left child. -/
theorem holds_rbTakeOver {o rb : RbNode} (h : HoldsTree rest m (fill p (node c l a r))) (hl : l ≠ nil)
    (ho : m.get a = some o) (hb : m.get b = some rb) (hnew : b ∉ (fill p (node c l a r)).inorder) :
    ∃ m', rbTakeOver m a b = some m' ∧
      HoldsTree (Function.update rest a (some o)) m' (fill p (node c l b r)) := by
  obtain ⟨⟨hpath, hcell, hlt, hrt⟩, hnodup, hframe⟩ := holds_fill.1 h
  obtain ⟨hnode, haround, hdisj⟩ := nodup_fill.1 hnodup
  have hnode' : (nodeOn .left c l a r).inorder.Nodup := hnode
  obtain ⟨⟨hal, -⟩, hlnodup, hrnodup, hlr⟩ := nodup_nodeOn.1 hnode'
  simp only [mem_inorder_fill, inorder, List.mem_append, List.mem_cons, not_or] at hnew
  obtain ⟨⟨hbl, hba, hbr⟩, hbp⟩ := hnew
  have hlp : ∀ q ∈ around p, q ∉ l.inorder := fun q hq hmem => hdisj (by simp [inorder, hmem]) hq
  have hrp : ∀ q ∈ around p, q ∉ r.inorder := fun q hq hmem => hdisj (by simp [inorder, hmem]) hq
  have hcell₁ : ∀ q, q ≠ b → q ∉ around p →
      ((m.modify b (fun _ => o)).relink p b).nodes.cell q = m.nodes.cell q :=
    fun q hqb hqp => (cell_relink hqp).trans (cell_modify_other hqb)
  have hl₁ : TreeAt ((m.modify b (fun _ => o)).relink p b).nodes.cell a l :=
    (treeAt_congr (fun q hq => hcell₁ q (fun he => hbl (he ▸ hq)) (fun hmem => hlp q hmem hq))).2 hlt
  have hr₁ : TreeAt ((m.modify b (fun _ => o)).relink p b).nodes.cell a r :=
    (treeAt_congr (fun q hq => hcell₁ q (fun he => hbr (he ▸ hq)) (fun hmem => hrp q hmem hq))).2 hrt
  have hr₂ := (treeAt_modify_ptr (g := rbSetParent b) hlr).2 hr₁
  have hl₃ := (treeAt_modify_ptr (g := rbSetParent b) hlr.symm).2 (treeAt_reparent hl₁ hlnodup b)
  have hr₃ := treeAt_reparent hr₂ hrnodup b
  have hpath₁ := (hpath.modify hbp (g := fun _ => o)).relink haround b
  refine ⟨m.renamed p b o (ptr l) (ptr r), ?_, holds_fill.2 ⟨⟨?_, ?_, hl₃, hr₃⟩, ?_, ?_⟩⟩
  · have hap : a ∉ around p := fun hmem => hdisj (by simp [inorder]) hmem
    have hreplace := replaceChild_eq b (hpath.modify hbp (g := fun _ => o))
      (Heap.ne_null hcell) hap .left
    rw [ptr_node] at hreplace
    have ho₁ : ((m.modify b (fun _ => o)).relink p b).get a = some o :=
      (hcell₁ a (Ne.symm hba) hap).trans ho
    have ho₂ : (((m.modify b (fun _ => o)).relink p b).modify (ptr l) (rbSetParent b)).get a =
        some o := (cell_modify_ptr hal).trans ho₁
    obtain ⟨n, hn⟩ : ∃ n, ((m.modify b (fun _ => o)).relink p b).get (ptr l) = some n := by
      cases l with
      | nil => exact absurd rfl hl
      | node lc ll la lr => exact ⟨_, hl₁.1⟩
    obtain rfl : mkNode (above p) c .left (ptr l) (ptr r) = o := Option.some.inj (hcell.symm.trans ho)
    simp only [rbTakeOver, ho, Option.bind_eq_bind, Option.bind_some, update_of_get hb,
      rbParent_mkNode, hreplace, ho₁, rb_left_mkNode, update_of_get hn, ho₂, rb_right_mkNode,
      reparent_eq hr₂, RbMem.renamed]
  · exact hpath₁.congr rfl (fun q hq =>
      (cell_modify_ptr (hrp q hq)).trans (cell_modify_ptr (hlp q hq)))
  · have hfrom : m.nodes.cell b = some rb := hb
    rw [RbMem.renamed, cell_modify_ptr hbr, cell_modify_ptr hbl, cell_relink hbp, cell_modify_same,
      hfrom]
    exact congrArg some (Option.some.inj (ho.symm.trans hcell))
  · refine nodup_fill.2 ⟨?_, haround, fun q hq hmem => ?_⟩
    · exact (nodup_nodeOn (d := .left) (c := c)).2 ⟨⟨hbl, hbr⟩, hlnodup, hrnodup, hlr⟩
    · simp only [inorder, List.mem_append, List.mem_cons] at hq
      rcases hq with hq | rfl | hq
      · exact hlp q hmem hq
      · exact hbp hmem
      · exact hrp q hmem hq
  · intro q hq
    simp only [mem_inorder_fill, inorder, List.mem_append, List.mem_cons, not_or] at hq
    obtain ⟨⟨hql, hqb, hqr⟩, hqp⟩ := hq
    rw [RbMem.renamed, cell_modify_ptr hqr, cell_modify_ptr hql, hcell₁ q hqb hqp]
    by_cases hqa : q = a
    · subst hqa
      rw [Function.update_self]
      exact ho
    · rw [Function.update_of_ne hqa]
      exact hframe q (by simp [mem_inorder_fill, inorder, hql, hqa, hqr, hqp])

/-- Down to the last node on the side `d`. -/
theorem rbOutermost_spec {fuel : Nat} {parent : Ptr} {q : List (Frame Ptr)}
    (h : TreeAt m.nodes.cell parent x) (hx : x ≠ nil) (hfuel : x.height ≤ fuel) :
    rbOutermost d fuel m (ptr x) = some (ptr (extreme d x q).2) := by
  induction x generalizing fuel parent q with
  | nil => exact absurd rfl hx
  | node c l a r ihl ihr =>
    obtain ⟨hcell, hl, hr⟩ := h
    have hget : m.get a = some (mkNode parent c .left (ptr l) (ptr r)) := hcell
    simp only [height] at hfuel
    obtain ⟨fuel, rfl⟩ : ∃ j, fuel = j + 1 := ⟨fuel - 1, by omega⟩
    cases d with
    | left =>
      by_cases hnil : l = nil
      · subst hnil
        simp [rbOutermost, hget, extreme, isNil]
      · have hdeep : rbOutermost .left fuel m (ptr l) =
            some (ptr (extreme .left l (⟨.left, c, a, r⟩ :: q)).2) := ihl hl hnil (by omega)
        simp [rbOutermost, hget, extreme, isNil_of_ne hnil, hl.ptr_eq_null, hnil, hdeep]
    | right =>
      have hchild : ∀ u v, (mkNode parent c .left u v).child .right = v := fun _ _ => rfl
      by_cases hnil : r = nil
      · subst hnil
        simp [rbOutermost, hget, extreme, isNil, hchild]
      · have hdeep : rbOutermost .right fuel m (ptr r) =
            some (ptr (extreme .right r (⟨.right, c, a, l⟩ :: q)).2) := ihr hr hnil (by omega)
        simp [rbOutermost, hget, extreme, isNil_of_ne hnil, hchild, hr.ptr_eq_null, hnil, hdeep]

theorem rbDetach_eq {l : RBTree Ptr} {q : List (Frame Ptr)} {y : Ptr} (new : Ptr)
    (hpath : PathAt m (q ++ ⟨.right, c, a, l⟩ :: p) y) (hside : ∀ f ∈ q, f.side = .left)
    (hne : ∀ f ∈ q, f.val ≠ a) :
    rbDetach m a y (above (q ++ ⟨.right, c, a, l⟩ :: p)) new =
      some (m.relink (q ++ ⟨.right, c, a, l⟩ :: p) new, above (q ++ ⟨.right, c, y, l⟩ :: p)) := by
  cases q with
  | nil =>
    have hget : m.get a = some _ := hpath.1
    simp [rbDetach, above, update_of_get hget, RbMem.relink]
  | cons f q =>
    have hget : m.get f.val = some _ := hpath.1
    have hleft := hside f (by simp)
    have hval := hne f (by simp)
    simp [rbDetach, above, update_of_get hget, RbMem.relink, hleft, hval]

/-- `rb_erase` for a node with two children. -/
theorem rbEraseTwo_spec {fuel : Nat} (h : HoldsTree rest m (fill p (node c l a r)))
    (hroot : RootBlack (fill p (node c l a r))) (hl : l ≠ nil) (hr : r ≠ nil)
    (hfuel : (fill p (node c l a r)).height < fuel) :
    ∃ m' o, rbEraseTwo fuel m a = some m' ∧
      HoldsTree (Function.update rest a (some o)) m' (erase p c l r) := by
  obtain ⟨q, yc, y, yr, heq, hfill, hside⟩ :=
    extreme_spec (d := .left) (p := []) (x := r) (isNil_of_ne hr)
  rw [List.append_nil] at heq
  have hplace : fill (q ++ ⟨.right, c, a, l⟩ :: p) (nodeOn .left yc nil y yr) =
      fill p (node c l a r) := by
    rw [fill_append, hfill]
    rfl
  have herase : erase p c l r = unlink (q ++ ⟨.right, c, y, l⟩ :: p) yc yr := by
    rw [erase, isNil_of_ne hl, isNil_of_ne hr, heq]
    rfl
  have hdeep : r.height < (fill p (node c l a r)).height := by
    have hlen := length_le_height (p := p) (t := node c l a r)
    simp only [height] at hlen
    omega
  have hlong : (q ++ ⟨.right, c, y, l⟩ :: p).length + 1 < fuel := by
    have hlen := length_le_height (p := q ++ ⟨.right, c, a, l⟩ :: p) (t := nodeOn .left yc nil y yr)
    rw [hplace] at hlen
    simp only [nodeOn, height, List.length_append, List.length_cons] at hlen ⊢
    omega
  have hcell : m.get a = some (mkNode (above p) c .left (ptr l) (ptr r)) := h.treeAt.1
  have houter : rbOutermost .left fuel m (ptr r) = some y := by
    rw [rbOutermost_spec (q := []) h.treeAt.2.2 hr (by omega), heq]
    simp
  have har : a ∉ r.inorder := by
    have hnode : (nodeOn .left c l a r).inorder.Nodup := (nodup_fill.1 h.nodup).1
    exact (nodup_nodeOn.1 hnode).1.2
  have hne : ∀ f ∈ q, f.val ≠ a := by
    rintro f hf rfl
    exact har (hfill ▸ mem_inorder_fill.2 (.inr (val_mem_around hf)))
  rw [← hplace] at h hroot
  have hy := h.get
  have hyr := (treeAt_nodeOn.1 h.treeAt).2.2
  obtain ⟨hpath, hsplice⟩ := holds_splice h
  have hdetach := rbDetach_eq (ptr yr) hpath hside hne
  have hnew : y ∉ (fill (q ++ ⟨.right, c, a, l⟩ :: p) yr).inorder := by
    obtain ⟨hsub, -, hdisj⟩ := nodup_fill.1 h.nodup
    have hout := hdisj (a := y) (by simp)
    rw [mem_inorder_fill, not_or]
    exact ⟨(nodup_nodeOn.1 hsub).1.2, hout⟩
  rw [hy] at hsplice
  rw [fill_append] at hsplice hnew
  -- the successor takes the place of the node
  have hmiddle : HoldsTree _ _ (fill p (node c l a (fill q yr))) := hsplice
  have ho : RbMem.get _ a = some _ := hmiddle.treeAt.1
  have hkeep : RbMem.get _ y = some _ := (hmiddle.frame y hnew).trans (Function.update_self ..)
  obtain ⟨m', hm', h'⟩ := holds_rbTakeOver hmiddle hl ho hkeep hnew
  have h'' := h'.forget (by simp [mem_inorder_fill, inorder])
  have hview : fill p (node c l y (fill q yr)) = fill (q ++ ⟨.right, c, y, l⟩ :: p) yr := by
    rw [fill_append]
    rfl
  rw [hview] at h''
  have hexec : rbEraseTwo fuel m a = if colorWord yc = RB_BLACK then
      rbEraseColor fuel m' (ptr yr) (above (q ++ ⟨.right, c, y, l⟩ :: p)) else some m' := by
    simp only [rbEraseTwo, hcell, Option.bind_eq_bind, Option.bind_some, rb_right_mkNode, houter, hy,
      rbParent_mkNode, rbColor_mkNode, reparent_eq hyr, hdetach, hm']
  obtain ⟨n, hq, hbal, -⟩ := hole_of_fill hroot
  rw [herase, hexec]
  cases yc with
  | red => exact ⟨m', _, by simp [colorWord, RB_RED, RB_BLACK], h''⟩
  | black =>
    cases n with
    | zero => exact absurd hbal not_balanced_black
    | succ n =>
      obtain ⟨m₃, hm₃, h₃⟩ := rbEraseColor_spec h'' (hq.set_val y) (balanced_black.1 hbal).2 hlong
      exact ⟨m₃, _, by simp [colorWord, hm₃], h₃⟩

/-- **`rb_erase`**: no null pointer is followed, the loops end, and the memory holds the tree without
    the node.  The node stays in memory. -/
theorem rbErase_spec {fuel : Nat} (h : HoldsTree rest m (fill p (node c l a r)))
    (hroot : RootBlack (fill p (node c l a r))) (hfuel : (fill p (node c l a r)).height < fuel) :
    ∃ m' o, rbErase fuel m a = some m' ∧
      HoldsTree (Function.update rest a (some o)) m' (erase p c l r) := by
  obtain ⟨n, hp, hbal, -⟩ := hole_of_fill hroot
  have hlen := length_le_height (p := p) (t := node c l a r)
  have hcell : m.get a = some (mkNode (above p) c .left (ptr l) (ptr r)) := h.treeAt.1
  obtain ⟨-, hlt, hrt⟩ := h.treeAt
  have hdepth : p.length + 1 < fuel := by
    simp only [height] at hlen
    omega
  by_cases hl : l = nil
  · subst hl
    obtain ⟨m', hm', h'⟩ := rbEraseOne_spec (d := .left) h hp hbal hdepth
    refine ⟨m', mkNode (above p) c .left NULL (ptr r), by simp [rbErase, hcell, hm'], ?_⟩
    simpa [erase, isNil, hcell] using h'
  · by_cases hr : r = nil
    · subst hr
      obtain ⟨m', hm', h'⟩ := rbEraseOne_spec (d := .right) h hp hbal hdepth
      refine ⟨m', mkNode (above p) c .left (ptr l) NULL, ?_, ?_⟩
      · simp [rbErase, hcell, hlt.ptr_eq_null, hl, hm']
      · rw [hcell] at h'
        rwa [erase, isNil_of_ne hl]
    · obtain ⟨m', o, hm', h'⟩ := rbEraseTwo_spec h hroot hl hr hfuel
      refine ⟨m', o, ?_, h'⟩
      simp [rbErase, hcell, hlt.ptr_eq_null, hrt.ptr_eq_null, hl, hr, hm']

/-- **`rb_erase` in a balanced tree** leaves a balanced tree without the node, and the others in their
    order; it needs no more rounds than twice the logarithm of the number of nodes. -/
theorem rbRemoval_refines {fuel : Nat} (h : HoldsTree rest m t) (hroot : RootBlack t)
    (ha : a ∈ t.inorder) (hfuel : 2 * Nat.log2 (t.inorder.length + 1) < fuel) :
    ∃ m' t' o, rbErase fuel m a = some m' ∧ HoldsTree (Function.update rest a (some o)) m' t' ∧
      RootBlack t' ∧ t'.inorder = t.inorder.erase a := by
  have hheight := hroot.height_le
  obtain ⟨p, c, l, r, rfl⟩ := exists_place ha
  obtain ⟨m', o, hm', h'⟩ := rbErase_spec h hroot (show _ < fuel by omega)
  obtain ⟨hroot', hin⟩ := erase_spec hroot
  refine ⟨m', _, o, hm', h', hroot', hin.trans ?_⟩
  have hnodup := h.nodup
  have hview : (fill p (node c l a r)).inorder =
      (before p ++ l.inorder) ++ a :: (r.inorder ++ after p) := by
    simp [inorder_fill, inorder]
  rw [hview] at hnodup ⊢
  have hout := (List.nodup_cons.1 (List.nodup_middle.1 hnodup)).1
  rw [List.erase_append_right _ (fun hmem => hout (List.mem_append_left _ hmem)),
    List.erase_cons_head]
  simp

/-- The root goes, and its red child takes its place. -/
theorem rbRemoval_refines_small : ∃ m' t' o, rbErase 3 smallRbMem node8 = some m' ∧
    HoldsTree (Function.update smallRbMem.nodes.cell node8 (some o)) m' t' ∧ RootBlack t' ∧
      t'.inorder = [node16] :=
  rbRemoval_refines holds_smallTree rootBlack_smallTree (by decide) (by decide)

end Removal

end Meshias
