import Mathlib.Order.Basic
import Mathlib.Data.List.Perm.Basic
import Mathlib.Order.Defs.LinearOrder
import Mathlib.Order.Lattice
import Mathlib.Algebra.Group.Nat.Defs

/-!
# Red-black trees

Trees with coloured nodes, and insertion the way an iterative implementation does
it: the new red leaf is hung where the search ends, and the one place where red may
meet red moves up along the path to the root.  A path is the list of the frames
around the focus, the innermost first.  Mirror images are one definition over the
side on which the focus hangs.
-/

namespace Libnv.RedBlack

universe u v

/-- The colour of a node. -/
inductive Color where
  | red
  | black
deriving DecidableEq

/-- The side of a parent on which a child hangs. -/
inductive Side where
  | left
  | right
deriving DecidableEq

def Side.other : Side → Side
  | left => right
  | right => left

/-- Trees with a colour and a value at each node. -/
inductive ColorTree (α : Type u) where
  | nil
  | node (color : Color) (left : ColorTree α) (value : α) (right : ColorTree α)

/-- What surrounds a child: its side, its parent without it, and the other child. -/
structure Frame (α : Type u) where
  side : Side
  color : Color
  value : α
  sibling : ColorTree α

section Definitions

variable {α : Type u}

namespace ColorTree

/-- The colour of the root; an empty tree counts as black. -/
def color : ColorTree α → Color
  | nil => .black
  | node c _ _ _ => c

/-- The values from left to right. -/
def toList : ColorTree α → List α
  | nil => []
  | node _ l v r => l.toList ++ v :: r.toList

/-- The length of the longest path down. -/
def depth : ColorTree α → Nat
  | nil => 0
  | node _ l _ r => max l.depth r.depth + 1

/-- The same tree with a black root. -/
def blacken : ColorTree α → ColorTree α
  | nil => nil
  | node _ l v r => node .black l v r

/-- A node whose child on side `s` is `near`. -/
def branch (s : Side) (c : Color) (near : ColorTree α) (v : α) (far : ColorTree α) : ColorTree α :=
  match s with
  | .left => node c near v far
  | .right => node c far v near

/-- A new node. -/
def leaf (v : α) : ColorTree α :=
  node .red nil v nil

end ColorTree

open ColorTree

/-- The parent with its child put back. -/
def Frame.plug (f : Frame α) (t : ColorTree α) : ColorTree α :=
  branch f.side f.color t f.value f.sibling

/-- The whole tree around a focus. -/
def fill : List (Frame α) → ColorTree α → ColorTree α
  | [], t => t
  | f :: p, t => fill p (f.plug t)

/-- The rotations below a grandparent `g`, with the colours of its old and its new child
exchanged; `t` is the red child of the red frame `f`. -/
def rotateUp (f g : Frame α) (t : ColorTree α) : ColorTree α :=
  if f.side = g.side then
    branch g.side g.color t f.value (branch g.side f.color f.sibling g.value g.sibling)
  else
    match g.side, t with
    | .left, node c a w b =>
        node g.color (node f.color f.sibling f.value a) w (node c b g.value g.sibling)
    | .right, node c b w a =>
        node g.color (node c g.sibling g.value b) w (node f.color a f.value f.sibling)
    | _, nil => g.plug (f.plug nil)

/-- Moves a red focus below a red parent up until there is none. -/
def fixup : List (Frame α) → ColorTree α → ColorTree α
  | f :: g :: p, t =>
      if t.color = .red ∧ f.color = .red then
        if g.sibling.color = .red then
          fixup p (branch g.side .red (branch f.side .black t f.value f.sibling) g.value
            g.sibling.blacken)
        else fill p (rotateUp f g t)
      else fill (f :: g :: p) t
  | p, t => fill p t

end Definitions

section Balance

variable {α : Type u} {c : Color} {f : Frame α} {n n₀ : Nat} {p : List (Frame α)} {t : ColorTree α}

/-- A tree with the given root colour and number of black nodes on each path, where no red node
has a red child. -/
inductive Balanced : ColorTree α → Color → Nat → Prop
  | nil : Balanced .nil .black 0
  | red {l r : ColorTree α} {v : α} {n : Nat} (hl : Balanced l .black n) (hr : Balanced r .black n) :
      Balanced (.node .red l v r) .red n
  | black {l r : ColorTree α} {v : α} {c d : Color} {n : Nat} (hl : Balanced l c n)
      (hr : Balanced r d n) : Balanced (.node .black l v r) .black (n + 1)

/-- A path into which a tree with the given colour and black height fits, such that the whole has
a black root and height `n₀`. -/
inductive Hole (n₀ : Nat) : List (Frame α) → Color → Nat → Prop
  | root : Hole n₀ [] .black n₀
  | red {s : Side} {v : α} {t : ColorTree α} {p : List (Frame α)} {n : Nat}
      (ht : Balanced t .black n) (hp : Hole n₀ p .red n) : Hole n₀ (⟨s, .red, v, t⟩ :: p) .black n
  | black {s : Side} {v : α} {t : ColorTree α} {p : List (Frame α)} {c d : Color} {n : Nat}
      (ht : Balanced t d n) (hp : Hole n₀ p .black (n + 1)) : Hole n₀ (⟨s, .black, v, t⟩ :: p) c n

open ColorTree

theorem Balanced.color_eq (h : Balanced t c n) : t.color = c := by
  cases h <;> rfl

theorem Balanced.redBranch (s : Side) {t' : ColorTree α} {v : α}
    (ht : Balanced t .black n) (ht' : Balanced t' .black n) :
    Balanced (branch s .red t v t') .red n := by
  cases s with
  | left => exact .red ht ht'
  | right => exact .red ht' ht

theorem Balanced.blackBranch (s : Side) {t' : ColorTree α} {v : α} {d : Color}
    (ht : Balanced t c n) (ht' : Balanced t' d n) :
    Balanced (branch s .black t v t') .black (n + 1) := by
  cases s with
  | left => exact .black ht ht'
  | right => exact .black ht' ht

theorem Balanced.blacken_red (h : Balanced t .red n) : Balanced t.blacken .black (n + 1) := by
  cases h with
  | red hl hr => exact .black hl hr

theorem Balanced.blacken_black (h : Balanced t .black n) : Balanced t.blacken .black n := by
  cases h with
  | nil => exact .nil
  | black hl hr => exact .black hl hr

theorem Hole.fill (hp : Hole n₀ p c n) (ht : Balanced t c n) :
    Balanced (RedBlack.fill p t) .black n₀ := by
  induction hp generalizing t with
  | root => exact ht
  | red hsib _ ih => exact ih (.redBranch _ ht hsib)
  | black hsib _ ih => exact ih (.blackBranch _ ht hsib)

theorem Hole.above_red (hp : Hole n₀ (f :: p) c n) (hf : f.color = .red) :
    Balanced f.sibling .black n ∧ ∃ g q, p = g :: q ∧ g.color = .black ∧
      (∃ d, Balanced g.sibling d n) ∧ Hole n₀ q .black (n + 1) := by
  cases hp with
  | black _ _ => exact absurd hf (by simp)
  | red hsib hp =>
      cases hp with
      | black huncle hq => exact ⟨hsib, _, _, rfl, rfl, ⟨_, huncle⟩, hq⟩

theorem Balanced.black_of_ne_red (h : Balanced t c n) (hc : t.color ≠ .red) :
    Balanced t .black n := by
  cases h with
  | nil => exact .nil
  | red _ _ => exact absurd rfl hc
  | black hl hr => exact .black hl hr

/-- Recolouring gives a red subtree that is one black node higher. -/
theorem recolor_balanced {g : Frame α} {d : Color}
    (ht : Balanced t .red n) (hy : Balanced f.sibling .black n) (hu : Balanced g.sibling d n)
    (hred : g.sibling.color = .red) :
    Balanced (branch g.side .red (branch f.side .black t f.value f.sibling) g.value
      g.sibling.blacken) .red (n + 1) := by
  rw [hu.color_eq] at hred
  subst hred
  exact .redBranch _ (.blackBranch _ ht hy) hu.blacken_red

/-- The rotations give a black subtree of the height the grandparent had. -/
theorem rotateUp_balanced {g : Frame α} (hf : f.color = .red) (hg : g.color = .black)
    (ht : Balanced t .red n) (hy : Balanced f.sibling .black n) (hu : Balanced g.sibling .black n) :
    Balanced (rotateUp f g t) .black (n + 1) := by
  unfold rotateUp
  rw [hf, hg]
  cases ht with
  | red hl hr =>
      split
      · exact .blackBranch _ (.red hl hr) (.redBranch _ hy hu)
      · cases g.side with
        | left => exact .black (.red hy hl) (.red hr hu)
        | right => exact .black (.red hu hl) (.red hr hy)

/-- The loop ends with a balanced tree once its root is made black. -/
theorem fixup_balanced (hp : Hole n₀ p c n) (ht : Balanced t .red n) :
    ∃ m, Balanced (fixup p t).blacken .black m := by
  fun_induction fixup p t generalizing n c with
  | case1 f g p t hred huncle ih =>
      obtain ⟨hy, _, _, heq, -, ⟨_, hu⟩, hq⟩ := hp.above_red hred.2
      cases heq
      exact ih hq (recolor_balanced ht hy hu huncle)
  | case2 f g p t hred huncle =>
      obtain ⟨hy, _, _, heq, hg, ⟨_, hu⟩, hq⟩ := hp.above_red hred.2
      cases heq
      have hturn := rotateUp_balanced hred.2 hg ht hy (hu.black_of_ne_red huncle)
      exact ⟨n₀, (hq.fill hturn).blacken_black⟩
  | case3 f g p t hstop =>
      cases hp with
      | black hsib hp => exact ⟨n₀, (hp.fill (.blackBranch _ ht hsib)).blacken_black⟩
      | red _ _ => exact absurd ⟨ht.color_eq, rfl⟩ hstop
  | case4 p t hshort =>
      cases hp with
      | root => exact ⟨_, ht.blacken_red⟩
      | black hsib hp => exact ⟨n₀, (hp.fill (.blackBranch _ ht hsib)).blacken_black⟩
      | red _ hp =>
          cases hp with
          | black _ _ => exact absurd rfl (hshort _ _ _)

/-- A path has at most one red node for each black one, and one more below a red root. -/
theorem Balanced.depth_le (h : Balanced t c n) : t.depth ≤ 2 * n + if c = .red then 1 else 0 := by
  induction h with
  | nil => exact Nat.le_refl 0
  | red _ _ ihl ihr =>
      simp only [depth, reduceCtorEq, if_true, if_false] at ihl ihr ⊢
      omega
  | black _ _ ihl ihr =>
      simp only [depth, reduceCtorEq, if_false]
      split at ihl <;> split at ihr <;> omega

theorem Balanced.two_pow_le (h : Balanced t c n) : 2 ^ n ≤ t.toList.length + 1 := by
  induction h with
  | nil => exact Nat.le_refl 1
  | red _ _ ihl ihr | black _ _ ihl ihr =>
      simp only [toList, List.length_append, List.length_cons, Nat.pow_succ]
      omega

/-- A balanced tree is at most twice as deep as the logarithm of its size. -/
theorem Balanced.depth_le_log (h : Balanced t .black n) :
    t.depth ≤ 2 * Nat.log2 (t.toList.length + 1) := by
  have hlog : n ≤ Nat.log2 (t.toList.length + 1) :=
    (Nat.le_log2 (Nat.succ_ne_zero _)).mpr h.two_pow_le
  have hdepth := h.depth_le
  simp only [reduceCtorEq, if_false] at hdepth
  omega

end Balance

section Values

variable {α : Type u}

open ColorTree

@[simp] theorem toList_blacken (t : ColorTree α) : t.blacken.toList = t.toList := by
  cases t <;> rfl

theorem toList_branch_congr {s : Side} {c c' : Color} {t t' y y' : ColorTree α} {v : α}
    (ht : t.toList = t'.toList) (hy : y.toList = y'.toList) :
    (branch s c t v y).toList = (branch s c' t' v y').toList := by
  cases s <;> simp [branch, toList, ht, hy]

theorem toList_fill_congr (p : List (Frame α)) {t t' : ColorTree α} (h : t.toList = t'.toList) :
    (fill p t).toList = (fill p t').toList := by
  induction p generalizing t t' with
  | nil => exact h
  | cons f p ih => exact ih (toList_branch_congr h rfl)

theorem toList_rotateUp (f g : Frame α) (t : ColorTree α) :
    (rotateUp f g t).toList = (g.plug (f.plug t)).toList := by
  obtain ⟨s, c, v, y⟩ := f
  obtain ⟨s', c', v', u⟩ := g
  cases s <;> cases s' <;> cases t <;> simp [rotateUp, Frame.plug, branch, toList]

/-- The loop moves no value past another. -/
theorem toList_fixup (p : List (Frame α)) (t : ColorTree α) :
    (fixup p t).toList = (fill p t).toList := by
  fun_induction fixup p t with
  | case1 f g p t hred huncle ih =>
      rw [ih]
      apply toList_fill_congr p
      exact toList_branch_congr (toList_branch_congr rfl rfl) (toList_blacken _)
  | case2 f g p t hred huncle => exact toList_fill_congr p (toList_rotateUp f g t)
  | case3 f g p t hstop => rfl
  | case4 p t hshort => rfl

theorem mem_toList_fill {v : α} (p : List (Frame α)) {t : ColorTree α} (h : v ∈ t.toList) :
    v ∈ (fill p t).toList := by
  induction p generalizing t with
  | nil => exact h
  | cons f p ih =>
      apply ih
      unfold Frame.plug
      cases f.side <;> simp [branch, toList, h]

theorem fixup_ne_nil (p : List (Frame α)) {t : ColorTree α} (ht : t.color = .red) :
    fixup p t ≠ .nil := by
  cases t with
  | nil => exact absurd ht (by simp [color])
  | node c l v r =>
      intro hfix
      have hlist := toList_fixup p (.node c l v r)
      have hmem := mem_toList_fill p (show v ∈ (node c l v r).toList by simp [toList])
      rw [← hlist, hfix] at hmem
      exact List.not_mem_nil hmem

theorem depth_le_length (t : ColorTree α) : t.depth ≤ t.toList.length := by
  induction t with
  | nil => exact Nat.le_refl 0
  | node c l v r ihl ihr =>
      simp only [depth, toList, List.length_append, List.length_cons]
      omega

end Values

section Order

variable {α : Type u} {κ : Type v} [LinearOrder κ] (key : α → κ)

open ColorTree
variable {c : Color} {l r t : ColorTree α} {w : α}

/-- The keys increase from left to right. -/
def Sorted (t : ColorTree α) : Prop :=
  (t.toList.map key).Pairwise (· < ·)

/-- The tree with a new leaf where the search for its key ends. -/
def graft (v : α) : ColorTree α → ColorTree α
  | .nil => leaf v
  | .node c l w r =>
      if key v < key w then .node c (graft v l) w r else .node c l w (graft v r)

/-- The path to the place where the search for a key ends, in front of a given path. -/
def descend (v : α) : ColorTree α → List (Frame α) → List (Frame α)
  | .nil, p => p
  | .node c l w r, p =>
      if key v < key w then descend v l (⟨.left, c, w, r⟩ :: p)
      else descend v r (⟨.right, c, w, l⟩ :: p)

/-- Insertion of a value whose key is new. -/
def insert (v : α) (t : ColorTree α) : ColorTree α :=
  (fixup (descend key v t []) (leaf v)).blacken

theorem fill_descend (v : α) (t : ColorTree α) (p : List (Frame α)) :
    fill (descend key v t p) (leaf v) = fill p (graft key v t) := by
  induction t generalizing p with
  | nil => rfl
  | node c l w r ihl ihr =>
      simp only [descend, graft]
      split
      · rw [ihl]
        rfl
      · rw [ihr]
        rfl

theorem length_descend_le (v : α) (t : ColorTree α) (p : List (Frame α)) :
    (descend key v t p).length ≤ t.depth + p.length := by
  induction t generalizing p with
  | nil => simp [descend]
  | node c l w r ihl ihr =>
      simp only [descend, depth]
      split
      · have := ihl (⟨.left, c, w, r⟩ :: p)
        simp only [List.length_cons] at this
        omega
      · have := ihr (⟨.right, c, w, l⟩ :: p)
        simp only [List.length_cons] at this
        omega

theorem hole_descend {n₀ n : Nat} {p : List (Frame α)}
    (ht : Balanced t c n) (hp : Hole n₀ p c n) (v : α) : ∃ d, Hole n₀ (descend key v t p) d 0 := by
  induction ht generalizing p with
  | nil => exact ⟨.black, hp⟩
  | red hl hr ihl ihr =>
      simp only [descend]
      split
      · exact ihl (.red hr hp)
      · exact ihr (.red hl hp)
  | black hl hr ihl ihr =>
      simp only [descend]
      split
      · exact ihl (.black hr hp)
      · exact ihr (.black hl hp)

theorem perm_toList_graft (v : α) (t : ColorTree α) :
    (graft key v t).toList.Perm (v :: t.toList) := by
  induction t with
  | nil => exact List.Perm.refl _
  | node c l w r ihl ihr =>
      simp only [graft]
      split
      · exact ihl.append_right _
      · simp only [toList]
        refine ((ihr.cons w).append_left l.toList).trans ?_
        refine ((List.Perm.swap v w r.toList).append_left l.toList).trans ?_
        exact List.perm_middle

theorem toList_insert (v : α) (t : ColorTree α) :
    (insert key v t).toList = (graft key v t).toList := by
  rw [insert, toList_blacken, toList_fixup, fill_descend, fill]

theorem sorted_node_iff :
    Sorted key (.node c l w r) ↔
      Sorted key l ∧ Sorted key r ∧ (∀ x ∈ l.toList, key x < key w) ∧
        (∀ x ∈ r.toList, key w < key x) := by
  simp only [Sorted, toList, List.map_append, List.map_cons, List.pairwise_append,
    List.pairwise_cons, List.mem_map, List.mem_cons]
  constructor
  · rintro ⟨hl, ⟨hw, hr⟩, hcross⟩
    refine ⟨hl, hr, ?_, ?_⟩
    · intro x hx
      exact hcross _ ⟨x, hx, rfl⟩ _ (Or.inl rfl)
    · intro x hx
      exact hw _ ⟨x, hx, rfl⟩
  · rintro ⟨hl, hr, hlw, hwr⟩
    refine ⟨hl, ⟨?_, hr⟩, ?_⟩
    · rintro _ ⟨x, hx, rfl⟩
      exact hwr x hx
    · rintro _ ⟨x, hx, rfl⟩ _ (rfl | ⟨y, hy, rfl⟩)
      · exact hlw x hx
      · exact lt_trans (hlw x hx) (hwr y hy)

theorem exists_mem_node {p : α → Prop} :
    (∃ x ∈ (ColorTree.node c l w r).toList, p x) ↔
      (∃ x ∈ l.toList, p x) ∨ p w ∨ ∃ x ∈ r.toList, p x := by
  simp only [toList, List.mem_append, List.mem_cons, or_and_right, exists_or, exists_eq_left]

theorem exists_key_right {k : κ} (ht : Sorted key (.node c l w r)) (hk : key w < k) :
    (∃ x ∈ (ColorTree.node c l w r).toList, key x = k) ↔ ∃ x ∈ r.toList, key x = k := by
  obtain ⟨-, -, hlw, -⟩ := (sorted_node_iff key).mp ht
  have hleft : ¬∃ x ∈ l.toList, key x = k := fun ⟨x, hx, hxk⟩ =>
    ne_of_lt (lt_trans (hlw x hx) hk) hxk
  rw [exists_mem_node, or_iff_right hleft, or_iff_right (ne_of_lt hk)]

theorem exists_key_left {k : κ} (ht : Sorted key (.node c l w r)) (hk : k < key w) :
    (∃ x ∈ (ColorTree.node c l w r).toList, key x = k) ↔ ∃ x ∈ l.toList, key x = k := by
  obtain ⟨-, -, -, hwr⟩ := (sorted_node_iff key).mp ht
  have hright : ¬∃ x ∈ r.toList, key x = k := fun ⟨x, hx, hxk⟩ =>
    ne_of_gt (lt_trans hk (hwr x hx)) hxk
  rw [exists_mem_node, or_iff_left (not_or.mpr ⟨ne_of_gt hk, hright⟩)]

theorem sorted_graft {v : α} (ht : Sorted key t) (hnew : ∀ x ∈ t.toList, key x ≠ key v) :
    Sorted key (graft key v t) := by
  induction t with
  | nil => simp [Sorted, graft, leaf, toList]
  | node c l w r ihl ihr =>
      obtain ⟨hl, hr, hlw, hwr⟩ := (sorted_node_iff key).mp ht
      have hnewl : ∀ x ∈ l.toList, key x ≠ key v := fun x hx => hnew x (by simp [toList, hx])
      have hnewr : ∀ x ∈ r.toList, key x ≠ key v := fun x hx => hnew x (by simp [toList, hx])
      have hw : key w ≠ key v := hnew w (by simp [toList])
      simp only [graft]
      split
      next hlt =>
        refine (sorted_node_iff key).mpr ⟨ihl hl hnewl, hr, ?_, hwr⟩
        intro x hx
        rcases List.mem_cons.mp ((perm_toList_graft key v l).mem_iff.mp hx) with rfl | hx
        · exact hlt
        · exact hlw x hx
      next hge =>
        refine (sorted_node_iff key).mpr ⟨hl, ihr hr hnewr, hlw, ?_⟩
        intro x hx
        rcases List.mem_cons.mp ((perm_toList_graft key v r).mem_iff.mp hx) with rfl | hx
        · exact lt_of_le_of_ne (le_of_not_gt hge) hw
        · exact hwr x hx

theorem insert_balanced {n : Nat} (ht : Balanced t .black n) (v : α) :
    ∃ m, Balanced (insert key v t) .black m := by
  obtain ⟨d, hhole⟩ := hole_descend key ht .root v
  exact fixup_balanced hhole (.red .nil .nil)

theorem insert_sorted {v : α} (ht : Sorted key t) (hnew : ∀ x ∈ t.toList, key x ≠ key v) :
    Sorted key (insert key v t) := by
  unfold Sorted
  rw [toList_insert]
  exact sorted_graft key ht hnew

end Order

end Libnv.RedBlack
