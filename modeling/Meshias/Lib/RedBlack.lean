import Mathlib.Data.List.Sort
import Mathlib.Tactic

/-!
# Red-black trees

Binary search trees with coloured nodes, and the repair of a tree after an insertion or a removal,
from the place where it happened up to the root.

* `RBTree`, `RBTree.inorder`, `RBTree.Balanced` — the trees; no red node has a red child, and every way
  down meets the same number of black nodes.
* `Frame`, `fill` — the way from a place up to the root, and the tree with something put there.
* `insertColor`, `eraseColor` — the repair of a red node below a red one, and of a place that is
  one black node short; rotations and changes of colour on the way up.
* `insert`, `erase` — a value is put behind all those that it is not less than; the value at a
  place is taken out.

Principal results: `inorder_insert`, `RootBlack.insert`, `inorder_erase`, `RootBlack.erase`;
`Balanced.height_le` and `RootBlack.height_le` — how deep a tree is.
-/

set_option autoImplicit false

namespace RedBlack

variable {α : Type}

/-! ## Trees -/

inductive Color where
  | red
  | black
  deriving DecidableEq, Repr

inductive Side where
  | left
  | right
  deriving DecidableEq, Repr

def Side.opp : Side → Side
  | .left => .right
  | .right => .left

@[simp] theorem Side.opp_opp (d : Side) : d.opp.opp = d := by cases d <;> rfl

/-- Of a pair of children the one on this side. -/
def Side.pick {β : Type} (d : Side) (l r : β) : β :=
  match d with
  | .left => l
  | .right => r

inductive RBTree (α : Type) where
  | nil
  | node (c : Color) (l : RBTree α) (a : α) (r : RBTree α)
  deriving DecidableEq, Repr

namespace RBTree

def inorder : RBTree α → List α
  | nil => []
  | node _ l a r => l.inorder ++ a :: r.inorder

def isNil : RBTree α → Bool
  | nil => true
  | node _ _ _ _ => false

def isBlack : RBTree α → Bool
  | node .red _ _ _ => false
  | _ => true

def setBlack : RBTree α → RBTree α
  | nil => nil
  | node _ l a r => node .black l a r

/-- A node with `x` on the side `d` and `y` on the other one. -/
def nodeOn (d : Side) (c : Color) (x : RBTree α) (a : α) (y : RBTree α) : RBTree α :=
  match d with
  | .left => node c x a y
  | .right => node c y a x

def height : RBTree α → Nat
  | nil => 0
  | node _ l _ r => max l.height r.height + 1

/-- Black height, and no red node below a red one. -/
def Balanced : Nat → RBTree α → Prop
  | 0, nil => True
  | _ + 1, nil => False
  | n, node .red l _ r => l.isBlack = true ∧ r.isBlack = true ∧ Balanced n l ∧ Balanced n r
  | 0, node .black _ _ _ => False
  | n + 1, node .black l _ r => Balanced n l ∧ Balanced n r

variable {n : Nat} {d : Side} {c : Color} {a : α} {t l r x y : RBTree α}

@[simp] theorem inorder_setBlack : t.setBlack.inorder = t.inorder := by cases t <;> rfl

@[simp] theorem isBlack_setBlack : t.setBlack.isBlack = true := by cases t <;> rfl

theorem setBlack_of_isBlack (h : t.isBlack = true) : t.setBlack = t := by
  match t, h with
  | nil, _ => rfl
  | node .black _ _ _, _ => rfl

@[simp] theorem isBlack_nodeOn : (nodeOn d c x a y).isBlack = decide (c = .black) := by
  cases d <;> cases c <;> rfl

@[simp] theorem setBlack_nodeOn : (nodeOn d c x a y).setBlack = nodeOn d .black x a y := by cases d <;> rfl

theorem nodeOn_opp : nodeOn d.opp c x a y = nodeOn d c y a x := by cases d <;> rfl

theorem node_eq_nodeOn (d : Side) (c : Color) (l : RBTree α) (a : α) (r : RBTree α) :
    node c l a r = nodeOn d c (d.pick l r) a (d.pick r l) := by cases d <;> rfl

theorem inorder_nodeOn :
    (nodeOn d c x a y).inorder =
      d.pick x.inorder (y.inorder ++ [a]) ++ d.pick (a :: y.inorder) x.inorder := by
  cases d <;> simp [nodeOn, inorder, Side.pick]

@[simp] theorem balanced_nil : Balanced n (nil : RBTree α) ↔ n = 0 := by
  cases n <;> simp [Balanced]

@[simp] theorem balanced_red :
    Balanced n (nodeOn d .red x a y) ↔
      x.isBlack = true ∧ y.isBlack = true ∧ Balanced n x ∧ Balanced n y := by
  cases n <;> cases d <;> simp [nodeOn, Balanced] <;> tauto

@[simp] theorem balanced_black :
    Balanced (n + 1) (nodeOn d .black x a y) ↔ Balanced n x ∧ Balanced n y := by
  cases d <;> simp [nodeOn, Balanced, and_comm]

@[simp] theorem not_balanced_black : ¬ Balanced 0 (nodeOn d .black x a y) := by
  cases d <;> simp [nodeOn, Balanced]

/-- The children of a balanced red node. -/
theorem Balanced.of_red (h : Balanced n (node .red l a r)) (d : Side) :
    ((d.pick l r).isBlack = true ∧ (d.pick r l).isBlack = true) ∧
      Balanced n (d.pick l r) ∧ Balanced n (d.pick r l) := by
  rw [node_eq_nodeOn d, balanced_red] at h
  exact ⟨⟨h.1, h.2.1⟩, h.2.2⟩

theorem Balanced.of_black (h : Balanced (n + 1) (node .black l a r)) (d : Side) :
    Balanced n (d.pick l r) ∧ Balanced n (d.pick r l) := by
  rw [node_eq_nodeOn d, balanced_black] at h
  exact h

/-- A red root made black. -/
theorem Balanced.setBlack_of_red (h : Balanced n t) (hred : t.isBlack = false) :
    Balanced (n + 1) t.setBlack := by
  match t, hred with
  | node .red l a r, _ =>
    rw [node_eq_nodeOn .left, balanced_red] at h
    exact h.2.2

/-! ### How deep a tree is -/

theorem Balanced.pow_le (h : Balanced n t) : 2 ^ n ≤ t.inorder.length + 1 := by
  induction t generalizing n with
  | nil => simp [balanced_nil.1 h, inorder]
  | node c l a r ihl ihr =>
    match c, n, h with
    | .red, n, h =>
      have hl := ihl (h.of_red .left).2.1
      simp only [inorder, List.length_append, List.length_cons]
      omega
    | .black, n + 1, h =>
      have hl := ihl (h.of_black .left).1
      have hr := ihr (h.of_black .left).2
      simp only [inorder, List.length_append, List.length_cons, pow_succ]
      omega

/-- A red root may add one to twice the black height. -/
theorem Balanced.height_le (h : Balanced n t) :
    t.height ≤ 2 * n + (if t.isBlack = true then 0 else 1) := by
  induction t generalizing n with
  | nil => simp [height]
  | node c l a r ihl ihr =>
    match c, n, h with
    | .red, n, h =>
      obtain ⟨⟨hlb, hrb⟩, hl, hr⟩ := h.of_red .left
      have hl := ihl hl
      have hr := ihr hr
      simp only [Side.pick] at hlb hrb
      simp only [hlb, hrb, if_true] at hl hr
      simp only [height, isBlack]
      simp
      omega
    | .black, n + 1, h =>
      have hl := ihl (h.of_black .left).1
      have hr := ihr (h.of_black .left).2
      simp only [height, isBlack, if_true]
      split at hl <;> split at hr <;> omega

/-- A balanced tree with a black root. -/
def RootBlack (t : RBTree α) : Prop := t.isBlack = true ∧ ∃ n, Balanced n t

/-- **A tree of `k` values is at most `2 * log2 (k + 1)` deep.** -/
theorem RootBlack.height_le (h : RootBlack t) :
    t.height ≤ 2 * Nat.log2 (t.inorder.length + 1) := by
  obtain ⟨hb, n, hbal⟩ := h
  have hheight := hbal.height_le
  have hlog : n ≤ Nat.log2 (t.inorder.length + 1) := by
    rw [Nat.le_log2 (by omega)]
    exact hbal.pow_le
  simp only [hb, if_true] at hheight
  omega

end RBTree

open RedBlack.RBTree

/-! ## Places in a tree -/

/-- One step up: the node above, on which side of it the place is, and what is on the other. -/
structure Frame (α : Type) where
  side : Side
  color : Color
  val : α
  sib : RBTree α
  deriving DecidableEq, Repr

def Frame.fill (f : Frame α) (t : RBTree α) : RBTree α := nodeOn f.side f.color t f.val f.sib

/-- The frames of a place begin with the one just above it. -/
def fill (p : List (Frame α)) (t : RBTree α) : RBTree α := p.foldl (fun t f => f.fill t) t

/-- The frame of the sibling. -/
def Frame.swap (f : Frame α) (t : RBTree α) : Frame α := ⟨f.side.opp, f.color, f.val, t⟩

/-- What is in front of the place, in order. -/
def before : List (Frame α) → List α
  | [] => []
  | f :: p => before p ++ f.side.pick [] (f.sib.inorder ++ [f.val])

def after : List (Frame α) → List α
  | [] => []
  | f :: p => f.side.pick (f.val :: f.sib.inorder) [] ++ after p

/-- A red tree may stand here. -/
def blackAbove : List (Frame α) → Prop
  | [] => False
  | f :: _ => f.color = .black

/-- The tree around the place is balanced if what stands there has black height `n`. -/
def Hole : List (Frame α) → Nat → Prop
  | [], _ => True
  | ⟨_, .red, _, sib⟩ :: p, n => sib.isBlack = true ∧ Balanced n sib ∧ blackAbove p ∧ Hole p n
  | ⟨_, .black, _, sib⟩ :: p, n => Balanced n sib ∧ Hole p (n + 1)

section Places

variable {n : Nat} {f : Frame α} {p q : List (Frame α)} {t : RBTree α}

@[simp] theorem fill_nil : fill [] t = t := rfl

@[simp] theorem fill_cons : fill (f :: p) t = fill p (f.fill t) := rfl

theorem fill_append : fill (p ++ q) t = fill q (fill p t) := List.foldl_append

/-- The same tree, seen from the sibling. -/
theorem fill_swap : fill (f :: p) t = fill (f.swap t :: p) f.sib := by
  obtain ⟨side, c, a, sib⟩ := f
  cases side <;> rfl

theorem inorder_fill : (fill p t).inorder = before p ++ t.inorder ++ after p := by
  induction p generalizing t with
  | nil => simp [before, after]
  | cons f p ih =>
    rw [fill_cons, ih, Frame.fill, inorder_nodeOn, before, after]
    cases f.side <;> simp [Side.pick]

theorem inorder_fill_congr {t' : RBTree α} (h : t.inorder = t'.inorder) :
    (fill p t).inorder = (fill p t').inorder := by rw [inorder_fill, inorder_fill, h]

theorem length_le_height : p.length + t.height ≤ (fill p t).height := by
  induction p generalizing t with
  | nil => simp
  | cons f p ih =>
    have hf : t.height + 1 ≤ (f.fill t).height := by
      unfold Frame.fill
      cases f.side <;> simp [nodeOn, height]
    have := ih (t := f.fill t)
    simp only [List.length_cons, fill_cons]
    omega

/-- **What fits into a place makes a balanced tree.** -/
theorem Hole.fill (hp : Hole p n) (ht : Balanced n t) (hfit : t.isBlack = true ∨ blackAbove p) :
    RootBlack (fill p t) := by
  induction p generalizing n t with
  | nil => exact ⟨hfit.resolve_right (fun h => h), n, ht⟩
  | cons f p ih =>
    match f, hp with
    | ⟨side, .red, a, sib⟩, ⟨hsb, hsib, habove, hp⟩ =>
      have htb : t.isBlack = true := hfit.resolve_right (fun h => by cases h)
      exact ih hp (balanced_red.2 ⟨htb, hsb, ht, hsib⟩) (.inr habove)
    | ⟨side, .black, a, sib⟩, ⟨hsib, hp⟩ =>
      exact ih hp (balanced_black.2 ⟨ht, hsib⟩) (.inl (by simp [Frame.fill]))

/-- **Every place of a balanced tree is a hole for what stands there.** -/
theorem hole_of_fill (h : RootBlack (RedBlack.fill p t)) :
    ∃ n, Hole p n ∧ Balanced n t ∧ (t.isBlack = true ∨ blackAbove p) := by
  induction p generalizing t with
  | nil => exact ⟨_, trivial, h.2.choose_spec, .inl h.1⟩
  | cons f p ih =>
    obtain ⟨n, hp, hbal, hfit⟩ := ih h
    match f, n, hbal with
    | ⟨side, .red, a, sib⟩, n, hbal =>
      obtain ⟨htb, hsb, ht, hsib⟩ := balanced_red.1 hbal
      refine ⟨n, ⟨hsb, hsib, hfit.resolve_left (by simp [Frame.fill]), hp⟩, ht, .inl htb⟩
    | ⟨side, .black, a, sib⟩, 0, hbal => exact absurd hbal not_balanced_black
    | ⟨side, .black, a, sib⟩, n + 1, hbal =>
      obtain ⟨ht, hsib⟩ := balanced_black.1 hbal
      exact ⟨n, ⟨hsib, hp⟩, ht, .inr rfl⟩

/-! ### Different values -/

/-- What is not at the place. -/
def around (p : List (Frame α)) : List α := before p ++ after p

@[simp] theorem mem_inorder_nodeOn {d : Side} {c : Color} {a b : α} {x y : RBTree α} :
    b ∈ (nodeOn d c x a y).inorder ↔ b = a ∨ b ∈ x.inorder ∨ b ∈ y.inorder := by
  cases d <;> simp [nodeOn, inorder] <;> tauto

@[simp] theorem mem_around_cons {a : α} :
    a ∈ around (f :: p) ↔ a = f.val ∨ a ∈ f.sib.inorder ∨ a ∈ around p := by
  simp only [around, before, after]
  cases f.side <;> simp [Side.pick] <;> tauto

theorem mem_inorder_fill {a : α} :
    a ∈ (fill p t).inorder ↔ a ∈ t.inorder ∨ a ∈ around p := by
  rw [inorder_fill]
  simp only [around, List.mem_append]
  tauto

theorem nodup_nodeOn {d : Side} {c : Color} {a : α} {x y : RBTree α} :
    (nodeOn d c x a y).inorder.Nodup ↔
      (a ∉ x.inorder ∧ a ∉ y.inorder) ∧ x.inorder.Nodup ∧ y.inorder.Nodup ∧
        x.inorder.Disjoint y.inorder := by
  have hperm : (nodeOn d c x a y).inorder.Perm (a :: (x.inorder ++ y.inorder)) := by
    cases d
    · exact List.perm_middle
    · exact List.perm_middle.trans (List.perm_append_comm.cons a)
  rw [hperm.nodup_iff, List.nodup_cons, List.nodup_append', List.mem_append]
  tauto

theorem perm_around_cons :
    (around (f :: p)).Perm (f.val :: (f.sib.inorder ++ around p)) := by
  simp only [around, before, after]
  cases f.side
  · simp only [Side.pick, List.append_nil, List.cons_append]
    refine List.perm_middle.trans (.cons _ ?_)
    rw [← List.append_assoc, ← List.append_assoc]
    exact List.perm_append_comm.append_right _
  · simp only [Side.pick, List.nil_append, List.append_assoc, List.cons_append]
    rw [← List.append_assoc, ← List.append_assoc f.sib.inorder]
    exact List.perm_middle.trans (.cons _ (List.perm_append_comm.append_right _))

theorem nodup_around_cons :
    (around (f :: p)).Nodup ↔
      (f.val ∉ f.sib.inorder ∧ f.val ∉ around p) ∧ f.sib.inorder.Nodup ∧ (around p).Nodup ∧
        f.sib.inorder.Disjoint (around p) := by
  rw [perm_around_cons.nodup_iff, List.nodup_cons, List.nodup_append', List.mem_append]
  tauto

theorem val_mem_around (hf : f ∈ p) : f.val ∈ around p := by
  induction p with
  | nil => cases hf
  | cons g p ih =>
    rw [mem_around_cons]
    rcases List.mem_cons.1 hf with rfl | hf
    · exact .inl rfl
    · exact .inr (.inr (ih hf))

theorem nodup_fill :
    (fill p t).inorder.Nodup ↔
      t.inorder.Nodup ∧ (around p).Nodup ∧ t.inorder.Disjoint (around p) := by
  have hperm : (fill p t).inorder.Perm (t.inorder ++ around p) := by
    rw [inorder_fill, around, ← List.append_assoc]
    exact List.perm_append_comm.append_right _
  rw [hperm.nodup_iff, List.nodup_append']

end Places

/-! ## Insertion -/

/-- One rotation, or two, for a red node `t` below a red one that has no red sibling. -/
def raised (f g : Frame α) (t : RBTree α) : RBTree α :=
  if f.side = g.side then
    nodeOn g.side .black t f.val (nodeOn g.side .red f.sib g.val g.sib)
  else
    match t with
    | nil => nil
    | node _ l v r =>
      nodeOn g.side .black (nodeOn g.side .red f.sib f.val (g.side.pick l r)) v
        (nodeOn g.side .red (g.side.pick r l) g.val g.sib)

/-- A red tree `t` is put where a red node may be above it.  Two red siblings become black and
    the node above them red, which goes on from there. -/
def insertColor : List (Frame α) → RBTree α → RBTree α
  | f :: g :: p, t =>
    if f.color = .black then (fill (f :: g :: p) t).setBlack
    else if g.sib.isBlack = false then
      insertColor p
        (nodeOn g.side .red (nodeOn f.side .black t f.val f.sib) g.val g.sib.setBlack)
    else (fill p (raised f g t)).setBlack
  | p, t => (fill p t).setBlack

/-- The place for a new value, which goes to the left of all that satisfy `lt`. -/
def locate (lt : α → Bool) : RBTree α → List (Frame α) → List (Frame α)
  | nil, p => p
  | node c l a r, p =>
    if lt a then locate lt l (⟨.left, c, a, r⟩ :: p) else locate lt r (⟨.right, c, a, l⟩ :: p)

def insert (lt : α → Bool) (v : α) (t : RBTree α) : RBTree α :=
  insertColor (locate lt t []) (node .red nil v nil)

section Insertion

variable {n : Nat} {f g : Frame α} {p : List (Frame α)} {t : RBTree α} {lt : α → Bool} {v : α}

theorem inorder_raised (ht : t ≠ nil) :
    (raised f g t).inorder = (g.fill (f.fill t)).inorder := by
  unfold raised Frame.fill
  split
  · rename_i hside
    rw [hside]
    cases g.side <;> simp [nodeOn, inorder]
  · rename_i hside
    cases t with
    | nil => exact absurd rfl ht
    | node c l v r =>
      cases hf : f.side <;> cases hg : g.side <;>
        simp [nodeOn, inorder, Side.pick] <;> simp [hf, hg] at hside

theorem inorder_insertColor (ht : t ≠ nil) :
    (insertColor p t).inorder = before p ++ t.inorder ++ after p := by
  rw [← inorder_fill]
  fun_induction insertColor p t with
  | case1 f g p t hblack => simp
  | case2 f g p t hred huncle ih =>
    rw [ih (by cases g.side <;> simp [nodeOn])]
    simp only [fill_cons, Frame.fill, inorder_fill]
    cases f.side <;> cases g.side <;> simp [nodeOn, inorder]
  | case3 f g p t hred huncle =>
    rw [inorder_setBlack, inorder_fill, inorder_raised ht, ← inorder_fill]
    rfl
  | case4 p t hshort => simp

/-- What a repair does to the balance where it ends. -/
theorem raised_balanced (hf : f.color = .red) (hp : Hole (f :: g :: p) n) (ht : Balanced n t)
    (hred : t.isBlack = false) (hg : g.sib.isBlack = true) :
    Balanced (n + 1) (raised f g t) ∧ (raised f g t).isBlack = true ∧ Hole p (n + 1) := by
  obtain ⟨side, c, a, sib⟩ := f
  obtain ⟨gside, gc, ga, gsib⟩ := g
  obtain rfl : c = .red := hf
  obtain ⟨hsb, hsib, habove, hp⟩ := hp
  obtain rfl : gc = .black := habove
  obtain ⟨hgsib, hp⟩ := hp
  match t, hred with
  | node .red l v r, _ =>
    obtain ⟨⟨hlb, hrb⟩, hl, hr⟩ := ht.of_red gside
    unfold raised
    split
    · exact ⟨balanced_black.2 ⟨ht, balanced_red.2 ⟨hsb, hg, hsib, hgsib⟩⟩, by simp, hp⟩
    · exact ⟨balanced_black.2 ⟨balanced_red.2 ⟨hsb, hlb, hsib, hl⟩,
        balanced_red.2 ⟨hrb, hg, hr, hgsib⟩⟩, by simp, hp⟩

theorem RootBlack.setBlack (h : RootBlack t) : RootBlack t.setBlack := by
  rwa [setBlack_of_isBlack h.1]

/-- **The repair after an insertion** makes a balanced tree. -/
theorem rootBlack_insertColor (hp : Hole p n) (ht : Balanced n t) (hred : t.isBlack = false) :
    RootBlack (insertColor p t) := by
  fun_induction insertColor p t generalizing n with
  | case1 f g p t hblack => exact RootBlack.setBlack (hp.fill ht (.inr hblack))
  | case2 f g p t hfred huncle ih =>
    obtain ⟨side, c, a, sib⟩ := f
    obtain ⟨gside, gc, ga, gsib⟩ := g
    obtain rfl : c = .red := by cases c <;> simp_all
    obtain ⟨hsb, hsib, habove, hp⟩ := hp
    obtain rfl : gc = .black := habove
    obtain ⟨hgsib, hp⟩ := hp
    match t, hred with
    | node .red l v r, _ =>
      have huncleBlack := hgsib.setBlack_of_red huncle
      have hchild : Balanced (n + 1) (nodeOn side .black (node .red l v r) a sib) :=
        balanced_black.2 ⟨ht, hsib⟩
      exact ih hp (balanced_red.2 ⟨by simp, by simp, hchild, huncleBlack⟩) (by simp)
  | case3 f g p t hfred huncle =>
    have hf : f.color = .red := by cases hc : f.color <;> simp_all
    obtain ⟨hbal, hblack, hp⟩ := raised_balanced hf hp ht hred (by simpa using huncle)
    exact RootBlack.setBlack (hp.fill hbal (.inl hblack))
  | case4 p t hshort =>
    match p, hp, hshort with
    | [], _, _ => exact ⟨by simp, n + 1, ht.setBlack_of_red hred⟩
    | [f], hp, _ =>
      obtain ⟨side, c, a, sib⟩ := f
      cases c with
      | red => exact absurd hp.2.2.1 (fun h => h)
      | black => exact RootBlack.setBlack (hp.fill ht (.inr rfl))
    | f :: g :: p, _, hshort => exact absurd rfl (hshort f g p)

theorem takeWhile_append_stop (test : α → Bool) {a : α} (ha : test a = false) (l r : List α) :
    (l ++ a :: r).takeWhile test = l.takeWhile test ∧
      (l ++ a :: r).dropWhile test = l.dropWhile test ++ a :: r := by
  induction l with
  | nil => simp [ha]
  | cons b l ih => cases hb : test b <;> simp [hb, ih.1, ih.2]

theorem locate_congr {lt' : α → Bool} (heq : ∀ a ∈ t.inorder, lt a = lt' a) :
    locate lt t p = locate lt' t p := by
  induction t generalizing p with
  | nil => rfl
  | node c l a r ihl ihr =>
    simp only [inorder, List.mem_append, List.mem_cons] at heq
    rw [locate, locate, heq a (.inr (.inl rfl)), ihl (fun b hb => heq b (.inl hb)),
      ihr (fun b hb => heq b (.inr (.inr hb)))]

/-- The place that is found lies between the values that are not above the new one and those that
    are, if the order of the tree is one for `lt`. -/
theorem locate_spec (hsorted : t.inorder.Pairwise (fun a b => lt a = true → lt b = true)) :
    before (locate lt t p) = before p ++ t.inorder.takeWhile (fun a => !lt a) ∧
      after (locate lt t p) = t.inorder.dropWhile (fun a => !lt a) ++ after p := by
  induction t generalizing p with
  | nil => simp [locate, inorder]
  | node c l a r ihl ihr =>
    simp only [inorder, List.pairwise_append, List.pairwise_cons] at hsorted
    obtain ⟨hl, ⟨-, hr⟩, hlr⟩ := hsorted
    rw [locate, inorder]
    cases ha : lt a with
    | true =>
      obtain ⟨hbefore, hafter⟩ := ihl (p := ⟨.left, c, a, r⟩ :: p) hl
      have hstop : (!lt a) = false := by simp [ha]
      obtain ⟨htake, hdrop⟩ :=
        takeWhile_append_stop (fun a => !lt a) hstop l.inorder r.inorder
      simp [hbefore, hafter, htake, hdrop, before, after, Side.pick]
    | false =>
      obtain ⟨hbefore, hafter⟩ := ihr (p := ⟨.right, c, a, l⟩ :: p) hr
      have hall : ∀ b ∈ l.inorder, (!lt b) = true := by
        intro b hb
        cases hlt : lt b with
        | false => rfl
        | true => simp [hlr b hb a List.mem_cons_self hlt] at ha
      rw [List.takeWhile_append_of_pos hall, List.dropWhile_append_of_pos hall]
      simp [hbefore, hafter, ha, before, after, Side.pick]

/-- Nothing stands at the place that is found. -/
theorem fill_locate : fill (locate lt t p) nil = fill p t := by
  induction t generalizing p with
  | nil => rfl
  | node c l a r ihl ihr =>
    rw [locate]
    split
    · exact ihl
    · exact ihr

/-- **The new value goes behind all those that it is not less than.** -/
theorem inorder_insert (hsorted : t.inorder.Pairwise (fun a b => lt a = true → lt b = true)) :
    (insert lt v t).inorder =
      t.inorder.takeWhile (fun a => !lt a) ++ v :: t.inorder.dropWhile (fun a => !lt a) := by
  obtain ⟨hbefore, hafter⟩ := locate_spec (p := []) hsorted
  rw [insert, inorder_insertColor (by simp), hbefore, hafter]
  simp [before, after, inorder]

theorem RootBlack.insert (h : RootBlack t) (lt : α → Bool) (v : α) :
    RootBlack (insert lt v t) := by
  have hfill : fill (locate lt t []) nil = t := fill_locate
  obtain ⟨n, hp, hnil, -⟩ := hole_of_fill (hfill ▸ h)
  have hleaf : Balanced n (nodeOn .left .red nil v nil) := balanced_red.2 ⟨rfl, rfl, hnil, hnil⟩
  exact rootBlack_insertColor hp hleaf rfl

end Insertion

/-! ## Removal -/

/-- What becomes of a node one of whose children is a black node short. -/
inductive Sunk (α : Type) where
  | settled (t : RBTree α)
  | short (t : RBTree α)
  deriving DecidableEq, Repr

/-- The child `x` of a node of colour `c` is a black node short, and its sibling `other` is black.
    Black children make the sibling red, which hands the shortage on; a red one gives a black
    node to the side of `x`. -/
def balanceSibling (d : Side) (c : Color) (x : RBTree α) (a : α) (other : RBTree α) : Sunk α :=
  match other with
  | nil => .settled nil
  | node _ l o r =>
    if l.isBlack = true ∧ r.isBlack = true then .short (nodeOn d c x a (node .red l o r))
    else if (d.pick r l).isBlack = true then
      match d.pick l r with
      | nil => .settled nil
      | node _ nl nv nr =>
        .settled (nodeOn d c (nodeOn d .black x a (d.pick nl nr)) nv
          (nodeOn d .black (d.pick nr nl) o (d.pick r l)))
    else .settled (nodeOn d c (nodeOn d .black x a (d.pick l r)) o (d.pick r l).setBlack)

/-- What stands at the place is a black node short.  A red sibling is rotated away first. -/
def eraseColor : List (Frame α) → RBTree α → RBTree α
  | [], x => x.setBlack
  | f :: p, x =>
    if x.isBlack = false then fill (f :: p) x.setBlack
    else
      match f.sib with
      | node .red l s r =>
        let q := ⟨f.side, .black, s, f.side.pick r l⟩ :: p
        match balanceSibling f.side .red x f.val (f.side.pick l r) with
        | .settled t => (fill q t).setBlack
        | .short t => fill q t.setBlack
      | sib =>
        match balanceSibling f.side f.color x f.val sib with
        | .settled t => (fill p t).setBlack
        | .short t => eraseColor p t

/-- The leftmost node, and the way to it, or the rightmost one. -/
def extreme (d : Side) : RBTree α → List (Frame α) → List (Frame α) × RBTree α
  | nil, p => (p, nil)
  | node c l a r, p =>
    match d with
    | .left => if l.isNil then (p, node c l a r) else extreme .left l (⟨.left, c, a, r⟩ :: p)
    | .right => if r.isNil then (p, node c l a r) else extreme .right r (⟨.right, c, a, l⟩ :: p)

/-- `x` stands where a node of colour `c` has been. -/
def unlink (p : List (Frame α)) (c : Color) (x : RBTree α) : RBTree α :=
  if c = .black then eraseColor p x else fill p x

/-- The node is taken out; if it has two children its successor takes its place and colour. -/
def erase (p : List (Frame α)) (c : Color) (l r : RBTree α) : RBTree α :=
  if l.isNil then unlink p c r
  else if r.isNil then unlink p c l
  else
    match extreme .left r [] with
    | (_, nil) => nil
    | (q, node yc _ y yr) => unlink (q ++ ⟨.right, c, y, l⟩ :: p) yc yr

section Removal

variable {n : Nat} {d : Side} {c : Color} {a : α} {p : List (Frame α)} {l r x other : RBTree α}

/-- The tree that is left, settled or short. -/
def Sunk.tree : Sunk α → RBTree α
  | .settled t => t
  | .short t => t

/-- What has to hold of the colours of the sibling's children: where a rotation needs a child, there
    is one. -/
theorem balanceSibling_spec (hother : Balanced (n + 1) other) (hblack : other.isBlack = true)
    (hx : Balanced n x) :
    (∀ t, balanceSibling d c x a other = .settled t →
      Balanced (if c = .black then n + 2 else n + 1) t ∧ (t.isBlack = true ↔ c = .black)) ∧
    (∀ t, balanceSibling d c x a other = .short t →
      t.isBlack = decide (c = .black) ∧
      if c = .black then Balanced (n + 1) t else Balanced (n + 1) t.setBlack) := by
  match other, hblack, hother with
  | node .black ol o or, _, hother =>
    obtain ⟨hnear, hfar⟩ := hother.of_black d
    simp only [balanceSibling]
    split
    · rename_i hboth
      have hred : Balanced n (node .red ol o or) := by
        rw [node_eq_nodeOn d, balanced_red]
        refine ⟨?_, ?_, hnear, hfar⟩ <;> cases d <;> simp [Side.pick, hboth.1, hboth.2]
      refine ⟨fun t ht => by simp at ht, fun t ht => ?_⟩
      simp only [Sunk.short.injEq] at ht
      subst ht
      cases c <;> simp [hx, hred]
    · rename_i hone
      split
      · rename_i hfarb
        have hnearRed : (d.pick ol or).isBlack = false := by
          by_contra hb
          cases d <;> simp_all [Side.pick]
        match hp : d.pick ol or, hnearRed with
        | node .red nl nv nr, _ =>
          rw [hp] at hnear
          obtain ⟨⟨hnlb, hnrb⟩, hnl, hnr⟩ := hnear.of_red d
          refine ⟨fun t ht => ?_, fun t ht => by simp at ht⟩
          simp only [Sunk.settled.injEq] at ht
          subst ht
          cases c <;> simp [hx, hnl, hnr, hfar]
      · rename_i hfarRed
        have hfarBal := hfar.setBlack_of_red (by simpa using hfarRed)
        refine ⟨fun t ht => ?_, fun t ht => by simp at ht⟩
        simp only [Sunk.settled.injEq] at ht
        subst ht
        cases c <;> simp [hx, hnear, hfarBal]

/-- Rotations move no value past another one. -/
theorem inorder_balanceSibling (hother : Balanced (n + 1) other) (hblack : other.isBlack = true)
    {t : RBTree α} (ht : (balanceSibling d c x a other).tree = t) :
    t.inorder = (nodeOn d c x a other).inorder := by
  subst ht
  match other, hblack, hother with
  | node .black ol o or, _, hother =>
    simp only [balanceSibling]
    split
    · cases d <;> simp [Sunk.tree, nodeOn, inorder]
    · rename_i hone
      split
      · rename_i hfarb
        match hp : d.pick ol or with
        | nil => cases d <;> simp_all [Side.pick, isBlack]
        | node _ nl nv nr => cases d <;> simp_all [Sunk.tree, nodeOn, inorder, Side.pick]
      · cases d <;> simp [Sunk.tree, nodeOn, inorder, Side.pick]

theorem eraseColor_of_red (hred : x.isBlack = false) : eraseColor p x = fill p x.setBlack := by
  cases p with
  | nil => rfl
  | cons f p => rw [eraseColor, if_pos hred]

/-- The frame of a black place whose sibling is red: the node above is black, and so are the
    sibling's children, which are there. -/
theorem Hole.of_red_sibling {f : Frame α} {s : α} (hp : Hole (f :: p) (n + 1))
    (hsib : f.sib = node .red l s r) :
    (Balanced (n + 1) (f.side.pick l r) ∧ (f.side.pick l r).isBlack = true) ∧
      Hole (⟨f.side, .black, s, f.side.pick r l⟩ :: p) (n + 1) := by
  obtain ⟨side, c, a, sib⟩ := f
  obtain rfl : sib = node .red l s r := hsib
  cases c with
  | red => exact absurd hp.1 (by simp [isBlack])
  | black =>
    obtain ⟨hbal, hp⟩ := hp
    obtain ⟨⟨hnb, -⟩, hnear, hfar⟩ := hbal.of_red side
    exact ⟨⟨hnear, hnb⟩, hfar, hp⟩

theorem inorder_fill_red_sibling {f : Frame α} {s : α} (hsib : f.sib = node .red l s r) :
    (fill (⟨f.side, .black, s, f.side.pick r l⟩ :: p)
      (nodeOn f.side .red x f.val (f.side.pick l r))).inorder = (fill (f :: p) x).inorder := by
  refine inorder_fill_congr (p := p) ?_
  obtain ⟨side, c, a, sib⟩ := f
  subst hsib
  cases side <;> simp [Frame.fill, nodeOn, inorder, Side.pick]

theorem isBlack_of_not_red (h : ∀ l a r, x = node .red l a r → False) : x.isBlack = true := by
  match x, h with
  | nil, _ => rfl
  | node .black _ _ _, _ => rfl
  | node .red l a r, h => exact absurd rfl (h l a r)

theorem Hole.of_black_sibling {f : Frame α} (hp : Hole (f :: p) (n + 1)) :
    Balanced (n + 1) f.sib ∧ Hole p (if f.color = .black then n + 2 else n + 1) ∧
      (f.color = .red → blackAbove p) := by
  obtain ⟨side, c, a, sib⟩ := f
  cases c with
  | red => exact ⟨hp.2.1, hp.2.2.2, fun _ => hp.2.2.1⟩
  | black => exact ⟨hp.1, hp.2, fun h => by cases h⟩

/-- **The repair after a removal** makes a balanced tree and moves no value past another one. -/
theorem eraseColor_spec (hp : Hole p (n + 1)) (hx : Balanced n x) :
    RootBlack (eraseColor p x) ∧ (eraseColor p x).inorder = (fill p x).inorder := by
  fun_induction eraseColor p x generalizing n with
  | case1 x =>
    refine ⟨⟨by simp, ?_⟩, by simp⟩
    cases hb : x.isBlack with
    | true => exact ⟨n, by rwa [setBlack_of_isBlack hb]⟩
    | false => exact ⟨n + 1, hx.setBlack_of_red hb⟩
  | case2 f p x hred =>
    exact ⟨hp.fill (hx.setBlack_of_red hred) (.inl (by simp)), inorder_fill_congr (by simp)⟩
  | case3 f p x hblack l s r hsib q t =>
    rename_i ht
    -- the sibling is red: after the rotation the node above `x` is red
    obtain ⟨⟨hnear, hnb⟩, hq⟩ := hp.of_red_sibling hsib
    obtain ⟨hbal, -⟩ := (balanceSibling_spec hnear hnb hx).1 t ht
    have hin : t.inorder = _ := inorder_balanceSibling hnear hnb (congrArg Sunk.tree ht)
    refine ⟨RootBlack.setBlack (hq.fill hbal (.inr rfl)), ?_⟩
    rw [inorder_setBlack, inorder_fill_congr hin, inorder_fill_red_sibling hsib]
  | case4 f p x hblack l s r hsib q t =>
    rename_i ht
    obtain ⟨⟨hnear, hnb⟩, hq⟩ := hp.of_red_sibling hsib
    obtain ⟨-, hbal⟩ := (balanceSibling_spec hnear hnb hx).2 t ht
    have hin : t.inorder = _ := inorder_balanceSibling hnear hnb (congrArg Sunk.tree ht)
    refine ⟨hq.fill hbal (.inl (by simp)), ?_⟩
    rw [inorder_fill_congr inorder_setBlack, inorder_fill_congr hin,
      inorder_fill_red_sibling hsib]
  | case5 f p x hblack t hsib ht =>
    obtain ⟨hbal, hp, habove⟩ := hp.of_black_sibling
    have hsb : f.sib.isBlack = true := isBlack_of_not_red hsib
    have hin : t.inorder = _ := inorder_balanceSibling hbal hsb (congrArg Sunk.tree ht)
    obtain ⟨ht, htb⟩ := (balanceSibling_spec hbal hsb hx).1 t ht
    have hfit : t.isBlack = true ∨ blackAbove p := by
      cases hc : f.color with
      | red => exact .inr (habove hc)
      | black => exact .inl (htb.2 hc)
    refine ⟨RootBlack.setBlack (hp.fill ht hfit), ?_⟩
    rw [inorder_setBlack, inorder_fill_congr hin]
    rfl
  | case6 f p x hblack t hsib ht ih =>
    obtain ⟨hbal, hp, habove⟩ := hp.of_black_sibling
    have hsb : f.sib.isBlack = true := isBlack_of_not_red hsib
    have hin : t.inorder = _ := inorder_balanceSibling hbal hsb (congrArg Sunk.tree ht)
    have hfill : (fill p t).inorder = (fill (f :: p) x).inorder := inorder_fill_congr hin
    obtain ⟨htb, ht⟩ := (balanceSibling_spec hbal hsb hx).2 t ht
    rw [← hfill]
    cases hc : f.color with
    | black =>
      simp only [hc, if_true] at hp ht
      exact ih hp ht
    | red =>
      -- the node above was red: it is made black, and nothing is short any more
      simp only [hc, reduceCtorEq, if_false, decide_false] at hp ht htb
      rw [eraseColor_of_red htb]
      exact ⟨hp.fill ht (.inl (by simp)), inorder_fill_congr (by simp)⟩

/-- A node with at most one child is replaced by it. -/
theorem unlink_spec (hp : Hole p n) (h : Balanced n (nodeOn d c nil a x)) :
    RootBlack (unlink p c x) ∧ (unlink p c x).inorder = (fill p x).inorder := by
  unfold unlink
  cases c with
  | red =>
    obtain ⟨-, hxb, -, hx⟩ := balanced_red.1 h
    exact ⟨hp.fill hx (.inl hxb), rfl⟩
  | black =>
    cases n with
    | zero => exact absurd h not_balanced_black
    | succ n => exact eraseColor_spec hp (balanced_black.1 h).2

/-- The place of the outermost node: nothing hangs on its side. -/
theorem extreme_spec (hx : x.isNil = false) :
    ∃ q c a y, extreme d x p = (q ++ p, nodeOn d c nil a y) ∧
      fill q (nodeOn d c nil a y) = x ∧ ∀ f ∈ q, f.side = d := by
  induction x generalizing p with
  | nil => cases hx
  | node c l a r ihl ihr =>
    cases d with
    | left =>
      rw [extreme]
      cases l with
      | nil => exact ⟨[], c, a, r, rfl, rfl, by simp⟩
      | node cl ll al rl =>
        obtain ⟨q, c', a', y, heq, hfill, hside⟩ := ihl (p := ⟨.left, c, a, r⟩ :: p) rfl
        refine ⟨q ++ [⟨.left, c, a, r⟩], c', a', y, ?_, ?_, ?_⟩
        · simp [isNil, heq]
        · rw [fill_append, hfill]; rfl
        · simp only [List.mem_append, List.mem_singleton]
          rintro f (hf | rfl)
          · exact hside f hf
          · rfl
    | right =>
      rw [extreme]
      cases r with
      | nil => exact ⟨[], c, a, l, rfl, rfl, by simp⟩
      | node cr lr ar rr =>
        obtain ⟨q, c', a', y, heq, hfill, hside⟩ := ihr (p := ⟨.right, c, a, l⟩ :: p) rfl
        refine ⟨q ++ [⟨.right, c, a, l⟩], c', a', y, ?_, ?_, ?_⟩
        · simp [isNil, heq]
        · rw [fill_append, hfill]; rfl
        · simp only [List.mem_append, List.mem_singleton]
          rintro f (hf | rfl)
          · exact hside f hf
          · rfl

theorem eq_nil_of_isNil (h : x.isNil = true) : x = nil := by
  cases x with
  | nil => rfl
  | node c l a r => cases h

theorem isNil_of_ne (h : x ≠ nil) : x.isNil = false := by
  cases x with
  | nil => exact absurd rfl h
  | node c l a r => rfl

/-- The balance of a place does not depend on the values around it. -/
theorem Hole.set_val {q : List (Frame α)} {f : Frame α} (h : Hole (q ++ f :: p) n) (b : α) :
    Hole (q ++ { f with val := b } :: p) n := by
  induction q generalizing n with
  | nil =>
    obtain ⟨side, c, a, sib⟩ := f
    cases c <;> exact h
  | cons g q ih =>
    obtain ⟨side, c, a, sib⟩ := g
    cases c with
    | black => exact ⟨h.1, ih h.2⟩
    | red =>
      refine ⟨h.1, h.2.1, ?_, ih h.2.2.2⟩
      have habove := h.2.2.1
      cases q <;> exact habove

theorem before_of_left {q : List (Frame α)} (h : ∀ f ∈ q, f.side = .left) : before q = [] := by
  induction q with
  | nil => rfl
  | cons f q ih =>
    simp only [List.forall_mem_cons] at h
    simp [before, ih h.2, h.1, Side.pick]

/-- **The value at a place is taken out**, and the others stay in their order. -/
theorem erase_spec (h : RootBlack (fill p (node c l a r))) :
    RootBlack (erase p c l r) ∧
      (erase p c l r).inorder = before p ++ (l.inorder ++ r.inorder) ++ after p := by
  obtain ⟨n, hp, hbal, hfit⟩ := hole_of_fill h
  unfold erase
  split
  · rename_i hl
    obtain rfl := eq_nil_of_isNil hl
    obtain ⟨hroot, hin⟩ := unlink_spec hp (d := .left) hbal
    exact ⟨hroot, by rw [hin, inorder_fill]; rfl⟩
  · split
    · rename_i hr
      obtain rfl := eq_nil_of_isNil hr
      obtain ⟨hroot, hin⟩ := unlink_spec hp (d := .right) hbal
      exact ⟨hroot, by rw [hin, inorder_fill]; simp [inorder]⟩
    · -- two children: the place of the successor is seen from the root
      rename_i hl hr
      obtain ⟨q, yc, y, yr, heq, hfill, hside⟩ :=
        extreme_spec (d := .left) (p := []) (x := r) (by simpa using hr)
      rw [heq, List.append_nil]
      have hplace : fill (q ++ ⟨.right, c, a, l⟩ :: p) (nodeOn .left yc nil y yr) =
          fill p (node c l a r) := by
        rw [fill_append, hfill]
        rfl
      obtain ⟨m, hq, hy, -⟩ := hole_of_fill (hplace ▸ h)
      obtain ⟨hroot, hin⟩ := unlink_spec (hq.set_val y) hy
      refine ⟨hroot, hin.trans ?_⟩
      rw [fill_append, fill_cons, inorder_fill, ← hfill, inorder_fill, before_of_left hside]
      simp [Frame.fill, nodeOn, inorder, inorder_fill, before_of_left hside]

end Removal

/-! ## The order from one side -/

/-- The values from the side `d` to the other one. -/
def walk (d : Side) (t : RBTree α) : List α := d.pick t.inorder t.inorder.reverse

/-- What follows a place on the way from the side `d`. -/
def beyond (d : Side) (p : List (Frame α)) : List α := d.pick (after p) (before p).reverse

section Walk

variable {d : Side} {c : Color} {a : α} {t x y : RBTree α} {f : Frame α} {p : List (Frame α)}

theorem walk_nodeOn : walk d (nodeOn d c x a y) = walk d x ++ a :: walk d y := by
  cases d <;> simp [walk, nodeOn, inorder, Side.pick]

theorem walk_fill :
    walk d (fill p t) = (beyond d.opp p).reverse ++ walk d t ++ beyond d p := by
  cases d <;> simp [walk, beyond, inorder_fill, Side.pick, Side.opp]

theorem beyond_cons :
    beyond d (f :: p) =
      if f.side = d then f.val :: walk d f.sib ++ beyond d p else beyond d p := by
  cases d <;> cases hf : f.side <;> simp [beyond, before, after, walk, Side.pick, hf]

theorem beyond_of_side (h : ∀ f ∈ p, f.side = d) : beyond d.opp p = [] := by
  induction p with
  | nil => cases d <;> rfl
  | cons f p ih =>
    simp only [List.forall_mem_cons] at h
    have hne : d ≠ d.opp := by cases d <;> simp [Side.opp]
    rw [beyond_cons, h.1, if_neg hne, ih h.2]

/-- The outermost node is the first one. -/
theorem walk_extreme (hx : x.isNil = false) :
    ∃ c a y, (extreme d x p).2 = nodeOn d c nil a y ∧ (walk d x).head? = some a := by
  obtain ⟨q, c, a, y, heq, hfill, hside⟩ := extreme_spec (d := d) (p := p) hx
  have hnil : walk d (nil : RBTree α) = [] := by cases d <;> rfl
  refine ⟨c, a, y, by rw [heq], ?_⟩
  rw [← hfill, walk_fill, beyond_of_side hside, walk_nodeOn, hnil]
  simp

theorem exists_place (ha : a ∈ t.inorder) : ∃ p c l r, fill p (node c l a r) = t := by
  induction t with
  | nil => cases ha
  | node c l b r ihl ihr =>
    simp only [inorder, List.mem_append, List.mem_cons] at ha
    rcases ha with ha | rfl | ha
    · obtain ⟨p, c', l', r', heq⟩ := ihl ha
      exact ⟨p ++ [⟨.left, c, b, r⟩], c', l', r', by rw [fill_append, heq]; rfl⟩
    · exact ⟨[], c, l, r, rfl⟩
    · obtain ⟨p, c', l', r', heq⟩ := ihr ha
      exact ⟨p ++ [⟨.right, c, b, l⟩], c', l', r', by rw [fill_append, heq]; rfl⟩

end Walk

end RedBlack
