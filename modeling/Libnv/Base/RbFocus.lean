import Mathlib.Tactic.Abel
import Mathlib.Algebra.Order.Group.Multiset
import Libnv.Base.RbTree

/-!
# Red-black trees on the heap

A tree whose values are addresses with keys describes the nodes it occupies; so
does the path from a node to the root.  `Focus` says that the heap holds a tree,
seen from one of its nodes, and each write of the program has a rule for it.
-/

namespace Libnv.Rb

open RedBlack RedBlack.ColorTree CellHeap

abbrev PtrTree := RedBlack.ColorTree (Nat × Int)

abbrev PtrPath := List (Frame (Nat × Int))

/-- The pointer to a tree. -/
def addr : PtrTree → Option Nat
  | .nil => none
  | .node _ _ v _ => some v.1

/-- A node with the child `near` on side `s`. -/
def sideNode (s : Side) (data : Int) (c : Color) (near far parent : Option Nat) : RbNode :=
  match s with
  | .left => ⟨data, c, near, far, parent⟩
  | .right => ⟨data, c, far, near, parent⟩

/-- The nodes of a tree, below the given parent. -/
def cells (parent : Option Nat) : PtrTree → Multiset (Nat × RbNode)
  | .nil => 0
  | .node c l v r =>
      {(v.1, ⟨v.2, c, addr l, addr r, parent⟩)} + (cells (some v.1) l + cells (some v.1) r)

/-- The parent of what stands at the end of a path. -/
def pathAddr : PtrPath → Option Nat
  | [] => none
  | f :: _ => some f.value.1

/-- The nodes of a path and beside it, with the given child at its end. -/
def pathCells (child : Option Nat) : PtrPath → Multiset (Nat × RbNode)
  | [] => 0
  | f :: p =>
      {(f.value.1, sideNode f.side f.value.2 f.color child (addr f.sibling) (pathAddr p))} +
        (cells (some f.value.1) f.sibling + pathCells (some f.value.1) p)

/-- The heap holds the tree around the focus `t`, and `root` points to it. -/
structure Focus (h : RbHeap) (root : Option Nat) (p : PtrPath) (t : PtrTree) : Prop where
  models : Models h (cells (pathAddr p) t + pathCells (addr t) p)
  root_eq : root = addr (fill p t)

section Sides

variable {s : Side} {data : Int} {c : Color} {near far parent p : Option Nat}

@[simp] theorem child_sideNode : (sideNode s data c near far parent).child s = near := by
  cases s <;> rfl

@[simp] theorem child_other_sideNode : (sideNode s data c near far parent).child s.other = far := by
  cases s <;> rfl

@[simp] theorem setChild_sideNode :
    (sideNode s data c near far parent).setChild s p = sideNode s data c p far parent := by
  cases s <;> rfl

@[simp] theorem setChild_other_sideNode :
    (sideNode s data c near far parent).setChild s.other p = sideNode s data c near p parent := by
  cases s <;> rfl

@[simp] theorem setParent_sideNode :
    (sideNode s data c near far parent).setParent p = sideNode s data c near far p := by
  cases s <;> rfl

@[simp] theorem parent_sideNode : (sideNode s data c near far parent).parent = parent := by
  cases s <;> rfl

@[simp] theorem color_sideNode : (sideNode s data c near far parent).color = c := by
  cases s <;> rfl

end Sides

@[simp] theorem addr_nil : addr .nil = none := rfl

@[simp] theorem addr_node (c : Color) (l : PtrTree) (v : Nat × Int) (r : PtrTree) :
    addr (.node c l v r) = some v.1 := rfl

@[simp] theorem pathAddr_cons (f : Frame (Nat × Int)) (p : PtrPath) :
    pathAddr (f :: p) = some f.value.1 := rfl

@[simp] theorem addr_branch (s : Side) (c : Color) (t : PtrTree) (v : Nat × Int) (y : PtrTree) :
    addr (branch s c t v y) = some v.1 := by
  cases s <;> rfl

theorem cells_branch
    (s : Side) (c : Color) (t : PtrTree) (v : Nat × Int) (y : PtrTree) (parent : Option Nat) :
    cells parent (branch s c t v y) =
      {(v.1, sideNode s v.2 c (addr t) (addr y) parent)} +
        (cells (some v.1) t + cells (some v.1) y) := by
  cases s with
  | left => rfl
  | right =>
      simp only [branch, cells, sideNode]
      abel

theorem mem_cells_of_addr {t : PtrTree} {a : Nat} (h : addr t = some a) (parent : Option Nat) :
    a ∈ (cells parent t).map Prod.fst := by
  cases t with
  | nil => exact absurd h (by simp [addr])
  | node c l v r =>
      rw [addr, Option.some.injEq] at h
      simp [cells, h]

/-- The pointer to the whole depends on the focus only at the root. -/
theorem addr_fill_congr {p : PtrPath} {t t' : PtrTree} (h : addr t = addr t') :
    addr (fill p t) = addr (fill p t') := by
  induction p generalizing t t' with
  | nil => exact h
  | cons f p ih => exact ih (by simp [Frame.plug])

theorem focus_cons_iff {h : RbHeap} {root : Option Nat} {f : Frame (Nat × Int)} {p : PtrPath}
    {t : PtrTree} : Focus h root (f :: p) t ↔ Focus h root p (f.plug t) := by
  have hcells :
      cells (pathAddr (f :: p)) t + pathCells (addr t) (f :: p) =
        cells (pathAddr p) (f.plug t) + pathCells (addr (f.plug t)) p := by
    simp only [Frame.plug, cells_branch, addr_branch, pathAddr, pathCells]
    abel
  constructor
  · rintro ⟨hmodels, hroot⟩
    exact ⟨hmodels.congr hcells, hroot⟩
  · rintro ⟨hmodels, hroot⟩
    exact ⟨hmodels.congr hcells.symm, hroot⟩

section Writes

variable {h : RbHeap} {m : Multiset (Nat × RbNode)}

theorem adopt_spec {parent : Option Nat} {t : PtrTree}
    (hm : Models h (cells parent t + m)) (a : Nat) :
    ∃ h', adopt h (addr t) a = some h' ∧ Models h' (cells (some a) t + m) := by
  cases t with
  | nil => exact ⟨h, rfl, hm⟩
  | node c l v r =>
      simp only [cells, add_assoc] at hm ⊢
      exact hm.modify (·.setParent (some a))

/-- A tree is not entered at a node that lies outside of it. -/
theorem addr_ne_of_mem {parent : Option Nat} {t : PtrTree} {a : Nat}
    (hm : Models h (cells parent t + m)) (ha : a ∈ m.map Prod.fst) : addr t ≠ some a := by
  cases t with
  | nil => simp [addr]
  | node c l v r =>
      simp only [cells, add_assoc] at hm
      have hfresh := hm.separate.1
      simp only [Multiset.map_add, Multiset.mem_add, not_or] at hfresh
      intro heq
      rw [addr, Option.some.injEq] at heq
      exact hfresh.2.2 (heq ▸ ha)

/-- A child hangs on the left exactly when the left link is the one that leads to it. -/
theorem side_of_child
    {s : Side} {data : Int} {c : Color} {a b : Nat} {y : PtrTree} {parent : Option Nat}
    (hm : Models h ({(b, sideNode s data c (some a) (addr y) parent)} + (cells (some b) y + m)))
    (ha : a ∈ m.map Prod.fst) :
    (if (sideNode s data c (some a) (addr y) parent).left = some a then Side.left
      else Side.right) = s := by
  have hsibling : addr y ≠ some a :=
    addr_ne_of_mem (hm.congr (add_left_comm _ _ _)) (by simp [ha])
  cases s with
  | left => simp [sideNode]
  | right => simp [sideNode, hsibling]

/-- Another tree takes the place of the focus in its parent, or at the root. -/
theorem replaceChild_spec {p : PtrPath} {t t' : PtrTree} {root : Option Nat} {a a' : Nat}
    (hm : Models h (pathCells (some a) p + m)) (hother : a ∈ m.map Prod.fst)
    (ht' : addr t' = some a') (hroot : root = addr (fill p t)) :
    ∃ h', replaceChild h root (pathAddr p) a a' = some (h', addr (fill p t')) ∧
      Models h' (pathCells (some a') p + m) := by
  cases p with
  | nil => exact ⟨h, by simp [replaceChild, pathAddr, fill, ht'], hm⟩
  | cons f p =>
      have hroot' : root = addr (fill (f :: p) t') := by
        rw [hroot]
        exact addr_fill_congr (p := p) (by simp [Frame.plug])
      simp only [pathCells, add_assoc] at hm ⊢
      have hread := hm.read
      have hside := side_of_child hm (by simp [hother])
      obtain ⟨h', hwrite, hm'⟩ := hm.modify (·.setChild f.side (some a'))
      rw [setChild_sideNode] at hm'
      refine ⟨h', ?_, hm'⟩
      simp only [replaceChild, pathAddr_cons, hread, Option.bind_eq_bind, Option.bind_some, hside, hwrite,
        ← hroot']

theorem rotate_spec {root : Option Nat} {p : PtrPath} {s : Side} {c d : Color} {x y : Nat × Int}
    {t u w : PtrTree} (hfocus : Focus h root p (branch s c t x (branch s d u y w))) :
    ∃ h' root', rotate s h root x.1 = some (h', root') ∧
      Focus h' root' p (branch s d (branch s c t x u) y w) := by
  obtain ⟨hm, hroot⟩ := hfocus
  simp only [cells_branch, addr_branch] at hm
  -- the two nodes that turn, the tree between them, the path, and the two trees that stay
  have hm₀ : Models h
      ({(x.1, sideNode s x.2 c (addr t) (some y.1) (pathAddr p))} +
        (cells (some y.1) u + ({(y.1, sideNode s y.2 d (addr u) (addr w) (some x.1))} +
          (pathCells (some x.1) p + (cells (some x.1) t + cells (some y.1) w))))) :=
    hm.congr (by abel)
  have hx := hm₀.read
  have hy : h y.1 = some (sideNode s y.2 d (addr u) (addr w) (some x.1)) :=
    (hm₀.mem_iff _ _).mpr (by simp)
  obtain ⟨h₁, hw₁, hm₁⟩ := hm₀.modify (·.setChild s.other (addr u))
  rw [setChild_other_sideNode] at hm₁
  obtain ⟨h₂, hw₂, hm₂⟩ := adopt_spec (hm₁.congr (add_left_comm _ _ _)) x.1
  have hm₂' : Models h₂
      ({(y.1, sideNode s y.2 d (addr u) (addr w) (some x.1))} +
        (pathCells (some x.1) p + ({(x.1, sideNode s x.2 c (addr t) (addr u) (pathAddr p))} +
          (cells (some x.1) u + (cells (some x.1) t + cells (some y.1) w))))) :=
    hm₂.congr (by abel)
  obtain ⟨h₃, hw₃, hm₃⟩ := hm₂'.modify (·.setParent (pathAddr p))
  rw [setParent_sideNode] at hm₃
  obtain ⟨h₄, hw₄, hm₄⟩ := replaceChild_spec (hm₃.congr (add_left_comm _ _ _)) (by simp)
    (addr_branch s d (branch s c t x u) y w) hroot
  obtain ⟨h₅, hw₅, hm₅⟩ := (hm₄.congr (add_left_comm _ _ _)).modify (·.setChild s (some x.1))
  rw [setChild_sideNode] at hm₅
  have hm₅' : Models h₅
      ({(x.1, sideNode s x.2 c (addr t) (addr u) (pathAddr p))} +
        ({(y.1, sideNode s y.2 d (some x.1) (addr w) (pathAddr p))} +
          (cells (some x.1) u + (cells (some x.1) t + (cells (some y.1) w +
            pathCells (some y.1) p))))) :=
    hm₅.congr (by abel)
  obtain ⟨h₆, hw₆, hm₆⟩ := hm₅'.modify (·.setParent (some y.1))
  rw [setParent_sideNode] at hm₆
  refine ⟨h₆, addr (fill p (branch s d (branch s c t x u) y w)), ?_, ?_, rfl⟩
  · simp only [rotate, hx, hy, Option.bind_eq_bind, Option.bind_some, child_other_sideNode,
      child_sideNode, parent_sideNode, hw₁, hw₂, hw₃, hw₄, hw₅, hw₆]
  · simp only [cells_branch, addr_branch]
    exact hm₆.congr (by abel)

end Writes

end Libnv.Rb
