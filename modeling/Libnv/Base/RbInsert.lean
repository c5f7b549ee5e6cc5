import Libnv.Base.RbFocus

/-!
# Insertion on the heap is insertion into the tree

The loop of `nv_rb_insertFix` follows `RedBlack.fixup` step by step, and the
recursion of `nv_rb_insertBST` hangs the new node where `RedBlack.graft` puts it.
So `nv_rb_insert` turns a heap that holds a balanced tree into one that holds the
tree with the new key inserted, and it never follows a `NULL` pointer on the way.
-/

namespace Libnv.Rb

open RedBlack RedBlack.ColorTree CellHeap

section Steps

variable {h : RbHeap} {root : Option Nat} {p : PtrPath}
variable {a : Nat} {c : Color} {s : Side} {t u y : PtrTree} {v w : Nat × Int}
variable {d : Color} {f g : Frame (Nat × Int)}

theorem branch_other (s : Side) (c : Color) (t : PtrTree) (v : Nat × Int) (y : PtrTree) :
    branch s.other c t v y = branch s c y v t := by
  cases s <;> rfl

theorem Focus.read (hfocus : Focus h root p (branch s c t v y)) :
    h v.1 = some (sideNode s v.2 c (addr t) (addr y) (pathAddr p)) := by
  have hm := hfocus.models
  simp only [cells_branch, add_assoc] at hm
  exact hm.read

theorem Focus.setColor (hfocus : Focus h root p (branch s c t v y)) (c' : Color) :
    ∃ h', modify h v.1 (·.setColor c') = some h' ∧ Focus h' root p (branch s c' t v y) := by
  obtain ⟨hm, hroot⟩ := hfocus
  simp only [cells_branch, addr_branch, add_assoc] at hm
  obtain ⟨h', hwrite, hm'⟩ := hm.modify (·.setColor c')
  refine ⟨h', hwrite, ?_, ?_⟩
  · simp only [cells_branch, addr_branch, add_assoc]
    convert hm' using 5
    cases s <;> rfl
  · rw [hroot]
    exact addr_fill_congr (by simp)

theorem focus_branch_iff : Focus h root p (branch s c t v y) ↔ Focus h root (⟨s, c, v, y⟩ :: p) t :=
  (focus_cons_iff (f := ⟨s, c, v, y⟩)).symm

theorem focus_branch_other_iff :
    Focus h root p (branch s c t v y) ↔ Focus h root (⟨s.other, c, v, t⟩ :: p) y := by
  rw [← branch_other]
  exact focus_branch_iff

theorem focus_fill_iff : Focus h root p t ↔ Focus h root [] (fill p t) := by
  induction p generalizing t with
  | nil => rfl
  | cons f p ih => rw [focus_cons_iff, ih, fill]

theorem redUncle_spec (hfocus : Focus h root p u) :
    redUncle h (addr u) = some (if u.color = .red then addr u else none) := by
  cases u with
  | nil => rfl
  | node c l v r =>
      have hread := Focus.read (s := .left) hfocus
      cases c <;> simp [redUncle, addr, hread, color]

/-- Case 1: the parent and the uncle turn black, the grandparent red. -/
theorem recolor_spec {s' : Side} {b : Nat}
    (hfocus : Focus h root p (branch s c (branch s' .red t v y) w u)) (hu : addr u = some b) :
    ∃ h₁ h₂ h₃, modify h w.1 (·.setColor .red) = some h₁ ∧
      modify h₁ v.1 (·.setColor .black) = some h₂ ∧ modify h₂ b (·.setColor .black) = some h₃ ∧
      Focus h₃ root p (branch s .red (branch s' .black t v y) w u.blacken) := by
  cases u with
  | nil => exact absurd hu (by simp [addr])
  | node d l x r =>
      rw [addr, Option.some.injEq] at hu
      subst hu
      obtain ⟨h₁, hw₁, hf₁⟩ := hfocus.setColor .red
      obtain ⟨h₂, hw₂, hf₂⟩ := (focus_branch_iff.mp hf₁).setColor .black
      have hf₂' := focus_branch_other_iff.mp (focus_branch_iff.mpr hf₂)
      obtain ⟨h₃, hw₃, hf₃⟩ := Focus.setColor (s := .left) hf₂' .black
      exact ⟨h₁, h₂, h₃, hw₁, hw₂, hw₃, focus_branch_other_iff.mpr hf₃⟩

theorem rotateGrand_spec (hfocus : Focus h root p (branch s c (branch s d t v y) w u)) :
    ∃ h' root', rotateGrand s h root v.1 w.1 = some (h', root', v.1) ∧
      Focus h' root' p (branch s c t v (branch s d y w u)) := by
  rw [← branch_other s c, ← branch_other s d] at hfocus
  obtain ⟨h₁, root₁, hrotate, hf₁⟩ := rotate_spec hfocus
  have hparent := hf₁.read
  have hgrand := (focus_branch_iff.mp hf₁).read
  obtain ⟨h₂, hw₂, hf₂⟩ := hf₁.setColor c
  obtain ⟨h₃, hw₃, hf₃⟩ := (focus_branch_iff.mp hf₂).setColor d
  refine ⟨h₃, root₁, ?_, ?_⟩
  · simp only [rotateGrand, hrotate, Option.bind_eq_bind, Option.bind_some, hparent, hgrand,
      color_sideNode, hw₂, hw₃]
  · have hf₃' := focus_branch_iff.mpr hf₃
    rwa [branch_other, branch_other] at hf₃'

/-- The inner rotation, when the focus hangs on the side away from its parent's. -/
theorem straighten_spec_other {a b : PtrTree} {x : Nat × Int}
    (hfocus : Focus h root p (branch s c (branch s.other .red (branch s d a x b) v y) w u)) :
    ∃ h' root', straighten s h root x.1 v.1 = some (h', root', x.1) ∧
      Focus h' root' p (branch s c (branch s d (branch s .red y v a) x b) w u) := by
  have hparent := (focus_branch_iff.mp hfocus).read
  rw [branch_other] at hfocus
  obtain ⟨h₁, root₁, hrotate, hf₁⟩ := rotate_spec (focus_branch_iff.mp hfocus)
  have hlow := (focus_branch_iff.mp hf₁).read
  refine ⟨h₁, root₁, ?_, focus_branch_iff.mpr hf₁⟩
  simp only [straighten, hparent, Option.bind_eq_bind, Option.bind_some, child_sideNode, addr_branch,
    if_true, hrotate, hlow, parent_sideNode, pathAddr_cons]

/-- There is no inner rotation when focus and parent hang on the same side. -/
theorem straighten_spec_same
    (hfocus : Focus h root p (branch s c (branch s .red t v y) w u)) (ht : addr t = some a) :
    straighten s h root a v.1 = some (h, root, v.1) := by
  have hparent := (focus_branch_iff.mp hfocus).read
  have hsibling : addr y ≠ some a := by
    have hy := focus_branch_other_iff.mp (focus_branch_iff.mp hfocus)
    apply addr_ne_of_mem hy.models
    simp [pathCells, mem_cells_of_addr ht]
  simp only [straighten, hparent, Option.bind_eq_bind, Option.bind_some, child_other_sideNode,
    hsibling, if_false]

/-- Case 2 does to the heap what `rotateUp` does to the tree. -/
theorem fixRotate_spec
    (hfocus : Focus h root (f :: g :: p) t) (hf : f.color = .red) (ht : addr t = some a) :
    ∃ h' root' b, fixRotate g.side h root a f.value.1 g.value.1 = some (h', root', b) ∧
      addr (rotateUp f g t) = some b ∧ Focus h' root' p (rotateUp f g t) := by
  have hgrand := focus_cons_iff.mp (focus_cons_iff.mp hfocus)
  obtain ⟨s', _, v, y⟩ := f
  obtain ⟨s, c, w, u⟩ := g
  simp only at hf
  subst hf
  simp only [Frame.plug] at hgrand
  by_cases hs : s' = s
  · subst hs
    obtain ⟨h', root', hrotate, hf'⟩ := rotateGrand_spec hgrand
    have hup : rotateUp ⟨s', .red, v, y⟩ ⟨s', c, w, u⟩ t =
        branch s' c t v (branch s' .red y w u) := by simp [rotateUp]
    rw [hup]
    refine ⟨h', root', v.1, ?_, addr_branch .., hf'⟩
    simp only [fixRotate, straighten_spec_same hgrand ht, Option.bind_eq_bind, Option.bind_some,
      hrotate]
  · have hother : s' = s.other := by
      cases s <;> cases s' <;> simp_all [Side.other]
    subst hother
    -- the focus as a node whose child on side `s` goes to the old parent
    obtain ⟨d, near, x, far, rfl⟩ : ∃ d near x far, t = branch s d near x far := by
      cases t with
      | nil => exact absurd ht (by simp [addr])
      | node d l x r =>
          cases s with
          | left => exact ⟨d, l, x, r, rfl⟩
          | right => exact ⟨d, r, x, l, rfl⟩
    have hup : rotateUp ⟨s.other, .red, v, y⟩ ⟨s, c, w, u⟩ (branch s d near x far) =
        branch s c (branch s .red y v near) x (branch s d far w u) := by
      cases s <;> rfl
    rw [addr_branch, Option.some.injEq] at ht
    subst ht
    obtain ⟨h₁, root₁, hinner, hf₁⟩ := straighten_spec_other hgrand
    obtain ⟨h₂, root₂, houter, hf₂⟩ := rotateGrand_spec hf₁
    rw [hup]
    refine ⟨h₂, root₂, x.1, ?_, addr_branch .., hf₂⟩
    simp only [fixRotate, hinner, Option.bind_eq_bind, Option.bind_some, houter]

/-- The tree that the loop continues with after case 1. -/
def recolored (f g : Frame (Nat × Int)) (t : PtrTree) : PtrTree :=
  branch g.side .red (branch f.side .black t f.value f.sibling) g.value g.sibling.blacken

/-- The body of the loop recolours below a red uncle, and rotates otherwise. -/
theorem fixSide_spec
    (hfocus : Focus h root (f :: g :: p) t) (hf : f.color = .red) (ht : addr t = some a) :
    ∃ h' root' b t', fixSide g.side h root a f.value.1 g.value.1 = some (h', root', b) ∧
      addr t' = some b ∧ Focus h' root' p t' ∧
      t' = if g.sibling.color = .red then recolored f g t else rotateUp f g t := by
  have hgrand := focus_cons_iff.mp (focus_cons_iff.mp hfocus)
  simp only [Frame.plug] at hgrand
  have hread := hgrand.read
  have huncle := redUncle_spec (focus_branch_other_iff.mp hgrand)
  by_cases hred : g.sibling.color = .red
  · obtain ⟨b, hb⟩ : ∃ b, addr g.sibling = some b := by
      cases hu : g.sibling with
      | nil => exact absurd hred (by simp [hu, color])
      | node d l x r => exact ⟨x.1, rfl⟩
    rw [if_pos hred, hb] at huncle
    rw [hf] at hgrand
    obtain ⟨h₁, h₂, h₃, hw₁, hw₂, hw₃, hf₃⟩ := recolor_spec hgrand hb
    refine ⟨h₃, root, g.value.1, recolored f g t, ?_, addr_branch .., hf₃, by simp [hred]⟩
    simp only [fixSide, hread, Option.bind_eq_bind, Option.bind_some, child_other_sideNode, hb, huncle,
      hw₁, hw₂, hw₃]
  · obtain ⟨h', root', b, hrotate, hb, hf'⟩ := fixRotate_spec hfocus hf ht
    refine ⟨h', root', b, rotateUp f g t, ?_, hb, hf', by simp [hred]⟩
    simp only [fixSide, hread, Option.bind_eq_bind, Option.bind_some, child_other_sideNode, huncle,
      hred, if_false, hrotate]

end Steps

section Loop

variable {h : RbHeap} {root : Option Nat} {p : PtrPath} {t : PtrTree} {a : Nat}
variable {f g : Frame (Nat × Int)}

/-- The root is a node of the path, if there is one. -/
theorem addr_fill_mem (f : Frame (Nat × Int)) (p : PtrPath) (t : PtrTree) (child : Option Nat) :
    ∃ b, addr (fill (f :: p) t) = some b ∧ b ∈ (pathCells child (f :: p)).map Prod.fst := by
  induction p generalizing f t child with
  | nil => exact ⟨f.value.1, addr_branch .., by simp [pathCells]⟩
  | cons g p ih =>
      obtain ⟨b, hb, hmem⟩ := ih g (f.plug t) (some f.value.1)
      refine ⟨b, hb, ?_⟩
      rw [pathCells, Multiset.map_add, Multiset.map_add]
      simp [hmem]

theorem root_ne_of_cons (hfocus : Focus h root (f :: p) t)
    (ht : addr t = some a) : root ≠ some a := by
  obtain ⟨b, hb, hmem⟩ := addr_fill_mem f p t (addr t)
  have hne := addr_ne_of_mem hfocus.models hmem
  rw [hfocus.root_eq, hb, ← ht]
  exact hne.symm

theorem Focus.read_focus (hfocus : Focus h root p t) (ht : addr t = some a) :
    ∃ n, h a = some n ∧ n.color = t.color ∧ n.parent = pathAddr p := by
  cases t with
  | nil => exact absurd ht (by simp [addr])
  | node c l v r =>
      rw [addr, Option.some.injEq] at ht
      subst ht
      exact ⟨_, Focus.read (s := .left) hfocus, rfl, rfl⟩

theorem Focus.side (hfocus : Focus h root (g :: p) t) (ht : addr t = some a) :
    (if (sideNode g.side g.value.2 g.color (some a) (addr g.sibling) (pathAddr p)).left = some a
      then Side.left else Side.right) = g.side := by
  have hm := hfocus.models
  rw [pathCells, ht] at hm
  have hm' : Models h
      ({(g.value.1, sideNode g.side g.value.2 g.color (some a) (addr g.sibling) (pathAddr p))} +
        (cells (some g.value.1) g.sibling +
          (pathCells (some g.value.1) p + cells (pathAddr (g :: p)) t))) := hm.congr (by abel)
  exact side_of_child hm' (by simp [mem_cells_of_addr ht])

theorem nvRbFixLoop_black
    (hfocus : Focus h root p t) (ht : addr t = some a) (hblack : t.color = .black) (fuel : Nat) :
    nvRbFixLoop (fuel + 1) h root a = some (h, root) := by
  obtain ⟨n, hread, hcolor, -⟩ := hfocus.read_focus ht
  simp only [nvRbFixLoop, hread, hcolor, hblack, Option.bind_eq_bind, Option.bind_some, if_true,
    ite_self]

theorem nvRbFixLoop_blackParent
    (hfocus : Focus h root (f :: p) t) (ht : addr t = some a) (hblack : f.color = .black)
    (fuel : Nat) : nvRbFixLoop (fuel + 1) h root a = some (h, root) := by
  obtain ⟨n, hread, -, hparent⟩ := hfocus.read_focus ht
  have hup := (focus_cons_iff.mp hfocus).read
  simp only [nvRbFixLoop, hread, hparent, pathAddr_cons, hup, color_sideNode, hblack,
    Option.bind_eq_bind, Option.bind_some, if_true, ite_self]

/-- The loop goes on below a red parent that is not the root. -/
theorem nvRbFixLoop_step
    (hfocus : Focus h root (f :: g :: p) t) (ht : addr t = some a) (hred : t.color = .red)
    (hf : f.color = .red) (fuel : Nat) :
    nvRbFixLoop (fuel + 1) h root a =
      (fixSide g.side h root a f.value.1 g.value.1).bind fun (h, root, b) =>
        nvRbFixLoop fuel h root b := by
  obtain ⟨n, hread, hcolor, hparent⟩ := hfocus.read_focus ht
  have hup := focus_cons_iff.mp hfocus
  have hgrand := (focus_cons_iff.mp hup).read
  have hside := hup.side (addr_branch ..)
  simp only [Frame.plug, addr_branch] at hgrand
  simp [nvRbFixLoop, root_ne_of_cons hfocus ht, hread, hcolor, hred, hparent, hup.read, hf, hgrand,
    hside]

/-- The loop moves the focus as `fixup` does, and ends. -/
theorem nvRbFixLoop_spec {n₀ n : Nat} {c : Color} {fuel : Nat}
    (hp : Hole n₀ p c n) (ht : Balanced t .red n)
    (hfocus : Focus h root p t) (ha : addr t = some a) (hfuel : p.length + 1 ≤ fuel) :
    ∃ h' root', nvRbFixLoop (fuel + 1) h root a = some (h', root') ∧
      Focus h' root' [] (fixup p t) := by
  fun_induction fixup p t generalizing h root a n c fuel with
  | case1 f g p t hred huncle ih =>
      obtain ⟨hy, _, _, heq, -, ⟨_, hu⟩, hq⟩ := hp.above_red hred.2
      cases heq
      obtain ⟨h₁, root₁, b, t₁, hside, hb, hf₁, rfl⟩ := fixSide_spec hfocus hred.2 ha
      rw [if_pos huncle] at hb hf₁
      rw [nvRbFixLoop_step hfocus ha hred.1 hred.2, hside, Option.bind_some]
      simp only [List.length_cons] at hfuel
      obtain ⟨fuel, rfl⟩ : ∃ k, fuel = k + 1 := ⟨fuel - 1, by omega⟩
      exact ih hq (recolor_balanced ht hy hu huncle) hf₁ hb (by omega)
  | case2 f g p t hred huncle =>
      obtain ⟨hy, _, _, heq, hg, ⟨_, hu⟩, -⟩ := hp.above_red hred.2
      cases heq
      obtain ⟨h₁, root₁, b, t₁, hside, hb, hf₁, rfl⟩ := fixSide_spec hfocus hred.2 ha
      rw [if_neg huncle] at hb hf₁
      have hturn := rotateUp_balanced hred.2 hg ht hy (hu.black_of_ne_red huncle)
      rw [nvRbFixLoop_step hfocus ha hred.1 hred.2, hside, Option.bind_some]
      -- the rotated subtree has a black root, and the next turn of the loop sees it
      obtain ⟨fuel, rfl⟩ : ∃ k, fuel = k + 1 := ⟨fuel - 1, by omega⟩
      exact ⟨h₁, root₁, nvRbFixLoop_black hf₁ hb hturn.color_eq fuel, focus_fill_iff.mp hf₁⟩
  | case3 f g p t hstop =>
      have hblack : f.color = .black := by
        cases hf : f.color with
        | black => rfl
        | red => exact absurd ⟨ht.color_eq, hf⟩ hstop
      exact ⟨h, root, nvRbFixLoop_blackParent hfocus ha hblack fuel, focus_fill_iff.mp hfocus⟩
  | case4 p t hshort =>
      cases p with
      | nil => exact ⟨h, root, by simp [nvRbFixLoop, hfocus.root_eq, fill, ha], hfocus⟩
      | cons f p =>
          have hblack : f.color = .black := by
            cases hf : f.color with
            | black => rfl
            | red =>
                obtain ⟨-, g, q, rfl, -⟩ := hp.above_red hf
                exact absurd rfl (hshort f g q)
          exact ⟨h, root, nvRbFixLoop_blackParent hfocus ha hblack fuel, focus_fill_iff.mp hfocus⟩

end Loop

section Insert

variable {h : RbHeap} {root : Option Nat}
variable {c : Color} {fuel : Nat} {m : Multiset (Nat × RbNode)} {parent : Option Nat} {s : Side} {w : Nat × Int} {y : PtrTree}

theorem nvRbInsertFix_spec {n₀ n : Nat} {a : Nat} {p : PtrPath} {t : PtrTree}
    (hp : Hole n₀ p c n) (ht : Balanced t .red n)
    (hfocus : Focus h root p t) (ha : addr t = some a) (hfuel : p.length + 2 ≤ fuel) :
    ∃ h' root', nvRbInsertFix fuel h root a = some (h', root') ∧
      Focus h' root' [] (fixup p t).blacken := by
  obtain ⟨fuel, rfl⟩ : ∃ k, fuel = k + 1 := ⟨fuel - 1, by omega⟩
  obtain ⟨h₁, root₁, hloop, hf₁⟩ := nvRbFixLoop_spec hp ht hfocus ha (Nat.le_of_succ_le_succ hfuel)
  cases hfix : fixup p t with
  | nil => exact absurd hfix (fixup_ne_nil p ht.color_eq)
  | node d l v r =>
      rw [hfix] at hf₁
      obtain ⟨h₂, hwrite, hf₂⟩ := Focus.setColor (s := .left) hf₁ .black
      refine ⟨h₂, some v.1, ?_, hf₂.models, rfl⟩
      have hroot : root₁ = some v.1 := hf₁.root_eq
      simp only [nvRbInsertFix, hloop, hroot, Option.bind_eq_bind, Option.bind_some, hwrite]

/-- A node, seen from the child on a side. -/
theorem models_branch_iff {t : PtrTree}
    :
    Models h (cells parent (branch s c t w y) + m) ↔
      Models h (cells (some w.1) t + ({(w.1, sideNode s w.2 c (addr t) (addr y) parent)} +
        (cells (some w.1) y + m))) := by
  have hcells : cells parent (branch s c t w y) + m =
      cells (some w.1) t + ({(w.1, sideNode s w.2 c (addr t) (addr y) parent)} +
        (cells (some w.1) y + m)) := by
    rw [cells_branch]
    abel
  rw [hcells]

/-- The same, with other cells kept next to the child. -/
theorem models_branch_split {new : Multiset (Nat × RbNode)} {t : PtrTree}
    (hm : Models h (cells parent (branch s c t w y) + (new + m))) :
    Models h (cells (some w.1) t + (new + ({(w.1, sideNode s w.2 c (addr t) (addr y) parent)} +
      (cells (some w.1) y + m)))) :=
  (models_branch_iff.mp hm).congr (by abel)

/-- A tree becomes the child of a node on a side. -/
theorem hang_spec {near q : Option Nat} {t : PtrTree} {a : Nat}
    (hm : Models h (cells q t + ({(w.1, sideNode s w.2 c near (addr y) parent)} +
      (cells (some w.1) y + m))))
    (ht : addr t = some a) :
    ∃ h', hang h s w.1 (addr t) = some h' ∧ Models h' (cells parent (branch s c t w y) + m) := by
  obtain ⟨h₁, hw₁, hm₁⟩ := (hm.congr (add_left_comm _ _ _)).modify (·.setChild s (addr t))
  rw [setChild_sideNode] at hm₁
  have hread := hm₁.read
  obtain ⟨h₂, hw₂, hm₂⟩ := adopt_spec (hm₁.congr (add_left_comm _ _ _)) w.1
  refine ⟨h₂, ?_, models_branch_iff.mpr hm₂⟩
  simp only [adopt, ht] at hw₂
  simp only [ht] at hw₁ hread
  simp only [hang, ht, hw₁, hread, Option.bind_eq_bind, Option.bind_some, child_sideNode, hw₂]

/-- The parent that `nv_rb_insertBST` leaves to its caller to set. -/
def graftParent (parent : Option Nat) : PtrTree → Option Nat
  | .nil => none
  | .node _ _ _ _ => parent

theorem addr_graft (v : Nat × Int) (t : PtrTree) : ∃ a, addr (graft Prod.snd v t) = some a := by
  cases t with
  | nil => exact ⟨v.1, rfl⟩
  | node c l w r =>
      refine ⟨w.1, ?_⟩
      simp only [graft]
      split <;> rfl

theorem nvRbInsertBST_spec {t : PtrTree} {a : Nat} {k : Int}
    (hm : Models h (cells parent t + ({(a, ⟨k, .red, none, none, none⟩)} + m)))
    (hnew : ∀ x ∈ t.toList, x.2 ≠ k) (hfuel : t.depth < fuel) :
    ∃ h', nvRbInsertBST fuel h (addr t) a = some (h', addr (graft Prod.snd (a, k) t)) ∧
      Models h' (cells (graftParent parent t) (graft Prod.snd (a, k) t) + m) := by
  induction t generalizing h m parent fuel with
  | nil =>
      cases fuel with
      | zero => exact absurd hfuel (Nat.not_lt_zero _)
      | succ fuel => exact ⟨h, rfl, hm.congr (by simp [cells, graft, leaf, graftParent, addr])⟩
  | node c l w r ihl ihr =>
      have hw : h w.1 = some ⟨w.2, c, addr l, addr r, parent⟩ :=
        (hm.mem_iff _ _).mpr (by simp [cells])
      have ha : h a = some ⟨k, .red, none, none, none⟩ := (hm.mem_iff _ _).mpr (by simp)
      have hwk : w.2 ≠ k := hnew w (by simp [toList])
      simp only [depth] at hfuel
      cases fuel with
      | zero => exact absurd hfuel (Nat.not_lt_zero _)
      | succ fuel =>
          simp only [nvRbInsertBST, addr_node, hw, ha, Option.bind_eq_bind, Option.bind_some, graft]
          by_cases hlt : k < w.2
          · have hnewl : ∀ x ∈ l.toList, x.2 ≠ k := fun x hx => hnew x (by simp [toList, hx])
            obtain ⟨h₁, hrec, hm₁⟩ := ihl (models_branch_split (s := .left) hm) hnewl
              (show l.depth < fuel by omega)
            obtain ⟨b, hb⟩ := addr_graft (a, k) l
            obtain ⟨h₂, hhang, hm₂⟩ := hang_spec hm₁ hb
            refine ⟨h₂, ?_, ?_⟩
            · simp [hlt, hrec, hhang]
            · simpa [hlt, graftParent, branch] using hm₂
          · have hgt : w.2 < k := lt_of_le_of_ne (le_of_not_gt hlt) hwk
            have hnewr : ∀ x ∈ r.toList, x.2 ≠ k := fun x hx => hnew x (by simp [toList, hx])
            obtain ⟨h₁, hrec, hm₁⟩ := ihr (models_branch_split (s := .right) hm) hnewr
              (show r.depth < fuel by omega)
            obtain ⟨b, hb⟩ := addr_graft (a, k) r
            obtain ⟨h₂, hhang, hm₂⟩ := hang_spec hm₁ hb
            refine ⟨h₂, ?_, ?_⟩
            · simp [hlt, hgt, hrec, hhang]
            · simpa [hlt, graftParent, branch] using hm₂

theorem nvRbInsert_spec {t : PtrTree} {n a : Nat} {k : Int}
    (hfocus : Focus h root [] t) (ht : Balanced t .black n)
    (hfresh : h a = none) (hnew : ∀ x ∈ t.toList, x.2 ≠ k) (hfuel : t.depth + 2 ≤ fuel) :
    ∃ h' root', nvRbInsert fuel h root a k = some (h', root') ∧
      Focus h' root' [] (RedBlack.insert Prod.snd (a, k) t) := by
  obtain ⟨hm, hroot⟩ := hfocus
  have halloc : Models (nvRbNewNode h a k)
      (cells none t + ({(a, ⟨k, .red, none, none, none⟩)} + 0)) := by
    have hm' := hm.alloc (n := ⟨k, .red, none, none, none⟩) hfresh
    exact hm'.congr (by simp only [pathAddr, pathCells]; abel)
  obtain ⟨h₁, hbst, hm₁⟩ := nvRbInsertBST_spec halloc hnew (show t.depth < fuel by omega)
  have hparent : graftParent none t = none := by
    cases t <;> rfl
  rw [hparent] at hm₁
  have hgraft : Focus h₁ (addr (graft Prod.snd (a, k) t)) [] (graft Prod.snd (a, k) t) :=
    ⟨hm₁, rfl⟩
  -- the new leaf, seen at the end of the path that the search took
  have hpath := fill_descend Prod.snd (a, k) t []
  rw [fill] at hpath
  rw [← hpath] at hgraft
  obtain ⟨d, hhole⟩ := hole_descend Prod.snd ht .root (a, k)
  have hlength := length_descend_le Prod.snd (a, k) t []
  obtain ⟨h₂, root₂, hfix, hf₂⟩ := nvRbInsertFix_spec hhole (.red .nil .nil)
    (focus_fill_iff.mpr hgraft) rfl (show _ ≤ fuel by simp only [List.length_nil] at hlength; omega)
  refine ⟨h₂, root₂, ?_, hf₂⟩
  have hroot' : root = addr t := hroot
  simp only [nvRbInsert, hroot', hbst, Option.bind_eq_bind, Option.bind_some, ← hpath]
  exact hfix

end Insert

end Libnv.Rb
