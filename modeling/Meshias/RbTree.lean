import Mathlib.Tactic
import Meshias.Lib.Heap
import Meshias.Lib.RedBlack

/-!
# Red-black trees in memory

`libmeshias/alarm/rbtree.c` and `linux_rbtree.h`: the tree behind the alarms, on nodes that point
to their children and to their parent.

* `Ptr` — an address; a `struct rb_node` is aligned, so the two low bits are free, and
  `rb_parent_color` keeps the colour there.
* `RbMem` — the nodes in memory, and the root.
* `rbRotate`, `rbInsertColor`, `rbEraseColor`, `rbErase`, `rbFirst`, `rbNext`.

The two halves of each function of the source, with left and right exchanged, are one definition
with the side as a parameter.  A function is `none` when it follows a null pointer, and when a loop
runs more often than `fuel` says.
-/

set_option autoImplicit false

namespace Meshias

open RedBlack (Side Color)
open Pointers (Heap)

/-! ## Nodes -/

/-- A pointer to an object that is aligned. -/
structure Ptr where
  addr : BitVec 64
  aligned : addr &&& 3 = 0
  deriving DecidableEq, Repr

def NULL : Ptr := ⟨0, by decide⟩

/-- Four addresses for examples. -/
def node8 : Ptr := ⟨8, by decide⟩
def node16 : Ptr := ⟨16, by decide⟩
def node24 : Ptr := ⟨24, by decide⟩
def node32 : Ptr := ⟨32, by decide⟩

/-- `struct rb_node`. -/
structure RbNode where
  rb_parent_color : BitVec 64
  rb_right : Ptr
  rb_left : Ptr
  deriving DecidableEq, Repr

def RB_RED : BitVec 64 := 0
def RB_BLACK : BitVec 64 := 1

def rbParent (r : RbNode) : Ptr :=
  ⟨r.rb_parent_color &&& ~~~3, by rw [BitVec.and_assoc]; simp⟩

def rbColor (r : RbNode) : BitVec 64 := r.rb_parent_color &&& 1

def rbIsRed (r : RbNode) : Bool := rbColor r == 0

def rbIsBlack (r : RbNode) : Bool := rbColor r != 0

def rbSetRed (r : RbNode) : RbNode := { r with rb_parent_color := r.rb_parent_color &&& ~~~1 }

def rbSetBlack (r : RbNode) : RbNode := { r with rb_parent_color := r.rb_parent_color ||| 1 }

def rbSetParent (p : Ptr) (rb : RbNode) : RbNode :=
  { rb with rb_parent_color := rb.rb_parent_color &&& 3 ||| p.addr }

def rbSetColor (color : BitVec 64) (rb : RbNode) : RbNode :=
  { rb with rb_parent_color := rb.rb_parent_color &&& ~~~1 ||| color }

/-- `rb_left` or `rb_right`. -/
def RbNode.child (d : Side) (r : RbNode) : Ptr := d.pick r.rb_left r.rb_right

def RbNode.setChild (d : Side) (p : Ptr) (r : RbNode) : RbNode :=
  match d with
  | .left => { r with rb_left := p }
  | .right => { r with rb_right := p }

/-- The nodes, and `struct rb_root`. -/
structure RbMem where
  nodes : Heap Ptr RbNode NULL
  rb_node : Ptr

def RbMem.get (m : RbMem) (p : Ptr) : Option RbNode := m.nodes.cell p

def RbMem.update (m : RbMem) (p : Ptr) (f : RbNode → RbNode) : Option RbMem :=
  (m.nodes.update p f).map ({ m with nodes := · })

/-- `node && rb_is_red (node)`. -/
def RbMem.redNode (m : RbMem) (node : Ptr) : Option Bool :=
  if node = NULL then some false else (m.get node).map rbIsRed

/-- `!node || rb_is_black (node)`. -/
def RbMem.blackOrNull (m : RbMem) (node : Ptr) : Option Bool :=
  if node = NULL then some true else (m.get node).map rbIsBlack

/-- `RB_EMPTY_NODE`: a node that is in no tree is its own parent. -/
def RbMem.emptyNode (m : RbMem) (node : Ptr) : Option Bool := do
  return rbParent (← m.get node) == node

/-- `RB_CLEAR_NODE`. -/
def RbMem.clearNode (m : RbMem) (node : Ptr) : Option RbMem := m.update node (rbSetParent node)

/-- `if (child) rb_set_parent (child, parent)`. -/
def RbMem.reparent (m : RbMem) (child parent : Ptr) : Option RbMem :=
  if child ≠ NULL then m.update child (rbSetParent parent) else some m

/-- `if (node) rb_set_black (node)`. -/
def RbMem.blacken (m : RbMem) (node : Ptr) : Option RbMem :=
  if node ≠ NULL then m.update node rbSetBlack else some m

/-- In place of a child the parent gets another one; the child is looked for on the side `d` first.
    Without a parent it is the root that is replaced. -/
def RbMem.replaceChild (d : Side) (m : RbMem) (parent child new : Ptr) : Option RbMem :=
  if parent ≠ NULL then do
    if child = (← m.get parent).child d then m.update parent (·.setChild d new)
    else m.update parent (·.setChild d.opp new)
  else some { m with rb_node := new }

/-! ## Rotations -/

/-- The node moves down to the side `d`, and its other child takes its place. -/
def rbRotate (d : Side) (m : RbMem) (node : Ptr) : Option RbMem := do
  let other := (← m.get node).child d.opp
  let parent := rbParent (← m.get node)
  let inner := (← m.get other).child d
  let m ← m.update node (·.setChild d.opp inner)
  let m ← m.reparent inner node
  let m ← m.update other (·.setChild d node)
  let m ← m.update other (rbSetParent parent)
  let m ← m.replaceChild d parent node other
  m.update node (rbSetParent other)

/-- `__rb_rotate_left`. -/
def rbRotateLeft (m : RbMem) (node : Ptr) : Option RbMem := rbRotate .left m node

/-- `__rb_rotate_right`. -/
def rbRotateRight (m : RbMem) (node : Ptr) : Option RbMem := rbRotate .right m node

/-! ## Insertion -/

/-- A place for a pointer to a node: `&root->rb_node`, or a child of a node. -/
inductive RbLink where
  | root
  | child (p : Ptr) (d : Side)
  deriving DecidableEq, Repr

def RbMem.deref (m : RbMem) : RbLink → Option Ptr
  | .root => some m.rb_node
  | .child p d => (m.get p).map (·.child d)

def RbMem.assign (m : RbMem) (node : Ptr) : RbLink → Option RbMem
  | .root => some { m with rb_node := node }
  | .child p d => m.update p (·.setChild d node)

/-- `rb_link_node`. -/
def rbLinkNode (m : RbMem) (node parent : Ptr) (rb_link : RbLink) : Option RbMem := do
  let m ← m.update node (fun _ => ⟨parent.addr, NULL, NULL⟩)
  m.assign node rb_link

/-- The body of the loop of `rb_insert_color` for a parent on the side `d` of `gparent`, and the
    node with which the loop goes on. -/
def rbInsertColorStep (d : Side) (m : RbMem) (node parent gparent : Ptr) :
    Option (RbMem × Ptr) := do
  let uncle := (← m.get gparent).child d.opp
  if ← m.redNode uncle then
    let m ← m.update uncle rbSetBlack
    let m ← m.update parent rbSetBlack
    let m ← m.update gparent rbSetRed
    return (m, gparent)
  else
    let (m, parent, node) ←
      if (← m.get parent).child d.opp = node then
        (rbRotate d m parent).map (fun m => (m, node, parent))
      else some (m, parent, node)
    let m ← m.update parent rbSetBlack
    let m ← m.update gparent rbSetRed
    let m ← rbRotate d.opp m gparent
    return (m, node)

/-- The loop of `rb_insert_color`. -/
def rbInsertColorLoop : Nat → RbMem → Ptr → Option RbMem
  | 0, _, _ => none
  | fuel + 1, m, node => do
    let parent := rbParent (← m.get node)
    if ← m.redNode parent then
      let gparent := rbParent (← m.get parent)
      let d : Side := if parent = (← m.get gparent).rb_left then .left else .right
      let (m, node) ← rbInsertColorStep d m node parent gparent
      rbInsertColorLoop fuel m node
    else some m

/-- `rb_insert_color`. -/
def rbInsertColor (fuel : Nat) (m : RbMem) (node : Ptr) : Option RbMem := do
  let m ← rbInsertColorLoop fuel m node
  m.update m.rb_node rbSetBlack

/-! ## Removal -/

/-! The body of the loop of `__rb_erase_color` for a node on the side `d` of `parent` has three
parts. -/

/-- A red sibling is rotated away; the sibling after it. -/
def rbBlackSibling (d : Side) (m : RbMem) (parent : Ptr) : Option (RbMem × Ptr) := do
  let other := (← m.get parent).child d.opp
  if rbIsRed (← m.get other) then
    let m ← m.update other rbSetBlack
    let m ← m.update parent rbSetRed
    let m ← rbRotate d m parent
    return (m, (← m.get parent).child d.opp)
  else return (m, other)

/-- A red child of the sibling comes to its outer side, if it is not there; the sibling after
    it. -/
def rbOuterRed (d : Side) (m : RbMem) (parent other : Ptr) : Option (RbMem × Ptr) := do
  if ← m.blackOrNull ((← m.get other).child d.opp) then
    let m ← m.blacken ((← m.get other).child d)
    let m ← m.update other rbSetRed
    let m ← rbRotate d.opp m other
    return (m, (← m.get parent).child d.opp)
  else return (m, other)

/-- The sibling takes the colour of the parent and its place. -/
def rbTakePlace (d : Side) (m : RbMem) (parent other : Ptr) : Option RbMem := do
  let color := rbColor (← m.get parent)
  let m ← m.update other (rbSetColor color)
  let m ← m.update parent rbSetBlack
  let m ← m.blacken ((← m.get other).child d.opp)
  rbRotate d m parent

/-- The two nodes with which the loop goes on, or none after the `break`. -/
def rbEraseColorStep (d : Side) (m : RbMem) (parent : Ptr) :
    Option (RbMem × Option (Ptr × Ptr)) := do
  let (m, other) ← rbBlackSibling d m parent
  let bothBlack ←
    if ← m.blackOrNull (← m.get other).rb_left then m.blackOrNull (← m.get other).rb_right
    else some false
  if bothBlack then
    let m ← m.update other rbSetRed
    return (m, some (parent, rbParent (← m.get parent)))
  else
    let (m, other) ← rbOuterRed d m parent other
    let m ← rbTakePlace d m parent other
    return (m, none)

/-- The loop of `__rb_erase_color`, and the node that is made black after it. -/
def rbEraseColorLoop : Nat → RbMem → Ptr → Ptr → Option (RbMem × Ptr)
  | 0, _, _, _ => none
  | fuel + 1, m, node, parent => do
    if (← m.blackOrNull node) ∧ node ≠ m.rb_node then
      let d : Side := if (← m.get parent).rb_left = node then .left else .right
      match ← rbEraseColorStep d m parent with
      | (m, some (node, parent)) => rbEraseColorLoop fuel m node parent
      | (m, none) => return (m, m.rb_node)
    else return (m, node)

/-- `__rb_erase_color`. -/
def rbEraseColor (fuel : Nat) (m : RbMem) (node parent : Ptr) : Option RbMem := do
  let (m, node) ← rbEraseColorLoop fuel m node parent
  m.blacken node

/-- Down on the side `d` as far as it goes. -/
def rbOutermost (d : Side) : Nat → RbMem → Ptr → Option Ptr
  | 0, _, _ => none
  | fuel + 1, m, n => do
    let next := (← m.get n).child d
    if next ≠ NULL then rbOutermost d fuel m next else return n

/-- `rb_erase` for a node with one child or none. -/
def rbEraseOne (fuel : Nat) (m : RbMem) (node child : Ptr) : Option RbMem := do
  let parent := rbParent (← m.get node)
  let color := rbColor (← m.get node)
  let m ← m.reparent child parent
  let m ← m.replaceChild .left parent node child
  if color = RB_BLACK then rbEraseColor fuel m child parent else some m

/-- `node` gets the links and the colour of `old`, and the nodes around point to it. -/
def rbTakeOver (m : RbMem) (old node : Ptr) : Option RbMem := do
  let o ← m.get old
  let m ← m.update node (fun _ => o)
  let m ← m.replaceChild .left (rbParent o) old node
  let m ← m.update (← m.get old).rb_left (rbSetParent node)
  m.reparent (← m.get old).rb_right node

/-- The pointer to the successor `node` of `old` becomes one to its child; the child's parent after
    it. -/
def rbDetach (m : RbMem) (old node parent child : Ptr) : Option (RbMem × Ptr) :=
  if parent = old then (m.update parent (·.setChild .right child)).map (·, node)
  else (m.update parent (·.setChild .left child)).map (·, parent)

/-- `rb_erase` for a node with two children: its successor takes its place. -/
def rbEraseTwo (fuel : Nat) (m : RbMem) (old : Ptr) : Option RbMem := do
  let node ← rbOutermost .left fuel m (← m.get old).rb_right
  let child := (← m.get node).rb_right
  let parent := rbParent (← m.get node)
  let color := rbColor (← m.get node)
  let m ← m.reparent child parent
  let (m, parent) ← rbDetach m old node parent child
  let m ← rbTakeOver m old node
  if color = RB_BLACK then rbEraseColor fuel m child parent else some m

/-- `rb_erase`. -/
def rbErase (fuel : Nat) (m : RbMem) (node : Ptr) : Option RbMem := do
  if (← m.get node).rb_left = NULL then rbEraseOne fuel m node (← m.get node).rb_right
  else if (← m.get node).rb_right = NULL then rbEraseOne fuel m node (← m.get node).rb_left
  else rbEraseTwo fuel m node

/-! ## Walking through the tree -/

/-- `rb_first` (`.left`) and `rb_last` (`.right`). -/
def rbEnd (d : Side) (fuel : Nat) (m : RbMem) : Option Ptr :=
  if m.rb_node = NULL then some NULL else rbOutermost d fuel m m.rb_node

/-- Up as long as the node hangs on the side `d`. -/
def rbClimb (d : Side) : Nat → RbMem → Ptr → Option Ptr
  | 0, _, _ => none
  | fuel + 1, m, node => do
    let parent := rbParent (← m.get node)
    if parent = NULL then return parent
    else if node = (← m.get parent).child d then rbClimb d fuel m parent
    else return parent

/-- `rb_next` (`.left`) and `rb_prev` (`.right`). -/
def rbStep (d : Side) (fuel : Nat) (m : RbMem) (node : Ptr) : Option Ptr := do
  if rbParent (← m.get node) = node then return NULL
  else if (← m.get node).child d.opp ≠ NULL then
    rbOutermost d fuel m ((← m.get node).child d.opp)
  else rbClimb d.opp fuel m node

def rbFirst (fuel : Nat) (m : RbMem) : Option Ptr := rbEnd .left fuel m

def rbLast (fuel : Nat) (m : RbMem) : Option Ptr := rbEnd .right fuel m

def rbNext (fuel : Nat) (m : RbMem) (node : Ptr) : Option Ptr := rbStep .left fuel m node

def rbPrev (fuel : Nat) (m : RbMem) (node : Ptr) : Option Ptr := rbStep .right fuel m node

end Meshias
