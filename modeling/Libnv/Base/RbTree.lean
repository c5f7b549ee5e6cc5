import Libnv.Lib.CellHeap
import Libnv.Lib.RedBlack

/-!
# The red-black tree

`nv_rb_tree.c` over a heap of nodes.  A pointer is an address or `NULL`; reading
or writing through `NULL`, or where no node was made, is undefined in C and has no
result here.  So does a loop or a recursion that is still running when its fuel is
used up.  The two rotations, and the two halves of the repair loop, are mirror
images of each other and share a definition over the side.
-/

namespace Libnv.Rb

open RedBlack CellHeap

/-- `nv_rb_Node`. -/
structure RbNode where
  data : Int
  color : Color
  left : Option Nat
  right : Option Nat
  parent : Option Nat
deriving DecidableEq

namespace RbNode

def child (n : RbNode) : Side → Option Nat
  | .left => n.left
  | .right => n.right

/-- `n->left = p` or `n->right = p`. -/
def setChild (n : RbNode) (s : Side) (p : Option Nat) : RbNode :=
  match s with
  | .left => { n with left := p }
  | .right => { n with right := p }

/-- `n->parent = p`. -/
def setParent (n : RbNode) (p : Option Nat) : RbNode :=
  { n with parent := p }

/-- `n->color = c`. -/
def setColor (n : RbNode) (c : Color) : RbNode :=
  { n with color := c }

end RbNode

/-- The nodes made so far. -/
abbrev RbHeap := Heap Nat RbNode

/-- `nv_rb_newNode`, when `malloc` returns the address `p`. -/
def nvRbNewNode (h : RbHeap) (p : Nat) (data : Int) : RbHeap :=
  store h p ⟨data, .red, none, none, none⟩

/-- `if (c != NULL) c->parent = pt`. -/
def adopt (h : RbHeap) (c : Option Nat) (pt : Nat) : Option RbHeap :=
  match c with
  | none => some h
  | some c => modify h c (·.setParent (some pt))

/-- The parent of `pt`, or the root, points to `up` instead; the left link is tried first. -/
def replaceChild (h : RbHeap) (root parent : Option Nat) (pt up : Nat) :
    Option (RbHeap × Option Nat) :=
  match parent with
  | none => some (h, some up)
  | some g => do
      let gn ← h g
      let s := if gn.left = some pt then Side.left else Side.right
      let h ← modify h g (·.setChild s (some up))
      some (h, root)

/-- The rotation of `pt` towards a side: the child on the other side takes its place. -/
def rotate (s : Side) (h : RbHeap) (root : Option Nat) (pt : Nat) :
    Option (RbHeap × Option Nat) := do
  let n ← h pt
  let up ← n.child s.other
  let upNode ← h up
  let h ← modify h pt (·.setChild s.other (upNode.child s))
  let h ← adopt h (upNode.child s) pt
  let h ← modify h up (·.setParent n.parent)
  let (h, root) ← replaceChild h root n.parent pt up
  let h ← modify h up (·.setChild s (some pt))
  let h ← modify h pt (·.setParent (some up))
  some (h, root)

def nvRbLeftRotate (h : RbHeap) (root : Option Nat) (pt : Nat) : Option (RbHeap × Option Nat) :=
  rotate .left h root pt

def nvRbRightRotate (h : RbHeap) (root : Option Nat) (pt : Nat) : Option (RbHeap × Option Nat) :=
  rotate .right h root pt

def redUncle (h : RbHeap) (uncle : Option Nat) : Option (Option Nat) :=
  match uncle with
  | none => some none
  | some u => do
      let un ← h u
      some (if un.color = .red then some u else none)

/-- The inner rotation of case 2: `pt` and its parent change places if `pt` hangs on the side
away from the parent's. -/
def straighten (s : Side) (h : RbHeap) (root : Option Nat) (pt parent : Nat) :
    Option (RbHeap × Option Nat × Nat) := do
  let pn ← h parent
  if pn.child s.other = some pt then
    let (h, root) ← rotate s h root parent
    let n ← h parent
    let up ← n.parent
    some (h, root, up)
  else some (h, root, parent)

/-- The outer rotation of case 2 and the exchange of the two colours. -/
def rotateGrand (s : Side) (h : RbHeap) (root : Option Nat) (parent grand : Nat) :
    Option (RbHeap × Option Nat × Nat) := do
  let (h, root) ← rotate s.other h root grand
  let pn ← h parent
  let gn ← h grand
  let h ← modify h parent (·.setColor gn.color)
  let h ← modify h grand (·.setColor pn.color)
  some (h, root, parent)

/-- Case 2 of `nv_rb_insertFix` for a parent on the given side. -/
def fixRotate (s : Side) (h : RbHeap) (root : Option Nat) (pt parent grand : Nat) :
    Option (RbHeap × Option Nat × Nat) := do
  let (h, root, parent) ← straighten s h root pt parent
  rotateGrand s h root parent grand

/-- The body of the loop of `nv_rb_insertFix`, cases A and B. -/
def fixSide (s : Side) (h : RbHeap) (root : Option Nat) (pt parent grand : Nat) :
    Option (RbHeap × Option Nat × Nat) := do
  let gn ← h grand
  match ← redUncle h (gn.child s.other) with
  | some uncle =>
      let h ← modify h grand (·.setColor .red)
      let h ← modify h parent (·.setColor .black)
      let h ← modify h uncle (·.setColor .black)
      some (h, root, grand)
  | none => fixRotate s h root pt parent grand

/-- The loop of `nv_rb_insertFix`. -/
def nvRbFixLoop : Nat → RbHeap → Option Nat → Nat → Option (RbHeap × Option Nat)
  | 0, _, _, _ => none
  | fuel + 1, h, root, pt =>
      if root = some pt then some (h, root)
      else do
        let n ← h pt
        if n.color = .black then some (h, root)
        else
          let parent ← n.parent
          let pn ← h parent
          if pn.color = .black then some (h, root)
          else
            let grand ← pn.parent
            let gn ← h grand
            let s := if gn.left = some parent then Side.left else Side.right
            let (h, root, pt) ← fixSide s h root pt parent grand
            nvRbFixLoop fuel h root pt

def nvRbInsertFix (fuel : Nat) (h : RbHeap) (root : Option Nat) (pt : Nat) :
    Option (RbHeap × Option Nat) := do
  let (h, root) ← nvRbFixLoop fuel h root pt
  let r ← root
  let h ← modify h r (·.setColor .black)
  some (h, some r)

/-- `root->left = c; root->left->parent = root`, or the same on the right. -/
def hang (h : RbHeap) (s : Side) (root : Nat) (c : Option Nat) : Option RbHeap := do
  let h ← modify h root (·.setChild s c)
  let n ← h root
  let c ← n.child s
  modify h c (·.setParent (some root))

def nvRbInsertBST : Nat → RbHeap → Option Nat → Nat → Option (RbHeap × Option Nat)
  | 0, _, _, _ => none
  | _ + 1, h, none, pt => some (h, some pt)
  | fuel + 1, h, some root, pt => do
      let n ← h root
      let pn ← h pt
      if pn.data < n.data then
        let (h, c) ← nvRbInsertBST fuel h n.left pt
        let h ← hang h .left root c
        some (h, some root)
      else if n.data < pn.data then
        let (h, c) ← nvRbInsertBST fuel h n.right pt
        let h ← hang h .right root c
        some (h, some root)
      else some (h, some root)

/-- `nv_rb_insert`, when `malloc` returns the address `p`. -/
def nvRbInsert (fuel : Nat) (h : RbHeap) (root : Option Nat) (p : Nat) (data : Int) :
    Option (RbHeap × Option Nat) := do
  let h := nvRbNewNode h p data
  let (h, root) ← nvRbInsertBST fuel h root p
  nvRbInsertFix fuel h root p

def nvRbSearch : Nat → RbHeap → Option Nat → Int → Option (Option Nat)
  | 0, _, _, _ => none
  | _ + 1, _, none, _ => some none
  | fuel + 1, h, some root, data => do
      let n ← h root
      if n.data = data then some (some root)
      else if n.data < data then nvRbSearch fuel h n.right data
      else nvRbSearch fuel h n.left data

/-- The numbers that `nv_rb_inorder` prints. -/
def nvRbInorder : Nat → RbHeap → Option Nat → Option (List Int)
  | 0, _, _ => none
  | _ + 1, _, none => some []
  | fuel + 1, h, some root => do
      let n ← h root
      let before ← nvRbInorder fuel h n.left
      let after ← nvRbInorder fuel h n.right
      some (before ++ n.data :: after)

/-- The tree and the nodes after calls of `nv_rb_insert` that start with an empty tree; each call
comes with the address it gets from `malloc`. -/
def nvRbBuild (fuel : Nat) (calls : List (Nat × Int)) : Option (RbHeap × Option Nat) :=
  calls.foldlM (fun state call => nvRbInsert fuel state.1 state.2 call.1 call.2)
    ((fun _ => none : RbHeap), none)

end Libnv.Rb
