import Libnv.Base.RbInsert

/-!
# Invariants of the red-black tree

Any sequence of insertions of different keys leaves a heap with the red-black
invariants, stated here on the nodes and their pointers alone: colours, numbers of
black nodes, parent pointers, the walk in order and the search.
-/

namespace Libnv.Rb

open RedBlack RedBlack.ColorTree CellHeap

/-- A walk from a pointer down to a `NULL` link that meets the given number of black nodes. -/
inductive BlackPath (h : RbHeap) : Option Nat → Nat → Prop
  | null : BlackPath h none 0
  | step {a k : Nat} {n : RbNode} (s : Side) (hread : h a = some n)
      (hrest : BlackPath h (n.child s) k) :
      BlackPath h (some a) (k + if n.color = .black then 1 else 0)

/-- The red-black invariants of the nodes in a heap, for a tree with the given keys. -/
structure RbInvariant (fuel : Nat) (h : RbHeap) (root : Option Nat) (keys : List Int) : Prop where
  root_black : ∀ a, root = some a → ∃ n, h a = some n ∧ n.color = .black
  red_child : ∀ a n s b n', h a = some n → n.color = .red → n.child s = some b →
    h b = some n' → n'.color = .black
  black_height : ∃ k, ∀ j, BlackPath h root j ↔ j = k
  inorder : ∃ out, nvRbInorder fuel h root = some out ∧ out.Pairwise (· < ·) ∧ out.Perm keys
  child_parent : ∀ a n s b, h a = some n → n.child s = some b →
    ∃ n', h b = some n' ∧ n'.parent = some a
  parent_child : ∀ b n' a, h b = some n' → n'.parent = some a →
    ∃ n s, h a = some n ∧ n.child s = some b
  root_parent : ∀ b n, h b = some n → (n.parent = none ↔ root = some b)
  search : ∀ k, ∃ r, nvRbSearch fuel h root k = some r ∧ (r.isSome ↔ k ∈ keys) ∧
    ∀ a, r = some a → ∃ n, h a = some n ∧ n.data = k

/-- A heap that holds a red-black tree of the inserted nodes. -/
structure Represents (h : RbHeap) (root : Option Nat) (inserted : List (Nat × Int))
    (t : PtrTree) : Prop where
  focus : Focus h root [] t
  balanced : ∃ n, Balanced t .black n
  sorted : Sorted Prod.snd t
  perm : t.toList.Perm inserted

section Nodes

variable {parent : Option Nat} {t : PtrTree} {a b : Nat} {n : RbNode}
variable {c : Color} {l r : PtrTree} {m : Nat} {v : Nat × Int}

theorem mem_cells_node :
    (a, n) ∈ cells parent (.node c l v r) ↔
      (a = v.1 ∧ n = ⟨v.2, c, addr l, addr r, parent⟩) ∨ (a, n) ∈ cells (some v.1) l ∨
        (a, n) ∈ cells (some v.1) r := by
  simp [cells]

theorem mem_toList_of_mem_cells (h : (a, n) ∈ cells parent t) : (a, n.data) ∈ t.toList := by
  induction t generalizing parent with
  | nil => simp [cells] at h
  | node c l v r ihl ihr =>
      rw [toList, List.mem_append, List.mem_cons]
      rcases mem_cells_node.mp h with ⟨rfl, rfl⟩ | h | h
      · exact Or.inr (Or.inl rfl)
      · exact Or.inl (ihl h)
      · exact Or.inr (Or.inr (ihr h))

/-- The node that a pointer to a tree leads to. -/
theorem root_mem_cells (h : addr t = some a) (parent : Option Nat) :
    ∃ n, (a, n) ∈ cells parent t ∧ n.parent = parent ∧ n.color = t.color := by
  cases t with
  | nil => exact absurd h (by simp)
  | node c l v r =>
      rw [addr_node, Option.some.injEq] at h
      exact ⟨_, mem_cells_node.mpr (Or.inl ⟨h.symm, rfl⟩), rfl, rfl⟩

theorem balanced_node {d : Color} (h : Balanced (.node c l v r) d m) :
    (∃ e k, Balanced l e k) ∧ (∃ e k, Balanced r e k) ∧
      (c = .red → l.color = .black ∧ r.color = .black) := by
  cases h with
  | red hl hr => exact ⟨⟨_, _, hl⟩, ⟨_, _, hr⟩, fun _ => ⟨hl.color_eq, hr.color_eq⟩⟩
  | black hl hr => exact ⟨⟨_, _, hl⟩, ⟨_, _, hr⟩, fun h => absurd h (by simp)⟩

/-- A child link leads to a node that points back; below a red node it is black. -/
theorem child_mem_cells (hb : Balanced t c m)
    {s : Side} (hn : (a, n) ∈ cells parent t) (hchild : n.child s = some b) :
    ∃ n', (b, n') ∈ cells parent t ∧ n'.parent = some a ∧
      (n.color = .red → n'.color = .black) := by
  induction t generalizing parent c m with
  | nil => simp [cells] at hn
  | node d l v r ihl ihr =>
      obtain ⟨⟨_, _, hl⟩, ⟨_, _, hr⟩, hred⟩ := balanced_node hb
      rcases mem_cells_node.mp hn with ⟨rfl, rfl⟩ | hn | hn
      · cases s with
        | left =>
            obtain ⟨n', hn', hparent, hcolor⟩ := root_mem_cells hchild (some v.1)
            refine ⟨n', mem_cells_node.mpr (Or.inr (Or.inl hn')), hparent, ?_⟩
            intro hd
            exact hcolor.trans (hred hd).1
        | right =>
            obtain ⟨n', hn', hparent, hcolor⟩ := root_mem_cells hchild (some v.1)
            refine ⟨n', mem_cells_node.mpr (Or.inr (Or.inr hn')), hparent, ?_⟩
            intro hd
            exact hcolor.trans (hred hd).2
      · obtain ⟨n', hn', hlink⟩ := ihl hl hn
        exact ⟨n', mem_cells_node.mpr (Or.inr (Or.inl hn')), hlink⟩
      · obtain ⟨n', hn', hlink⟩ := ihr hr hn
        exact ⟨n', mem_cells_node.mpr (Or.inr (Or.inr hn')), hlink⟩

theorem parent_mem_cells (hn : (b, n) ∈ cells parent t) :
    (addr t = some b ∧ n.parent = parent) ∨
      ∃ a n' s, (a, n') ∈ cells parent t ∧ n'.child s = some b ∧ n.parent = some a := by
  induction t generalizing parent with
  | nil => simp [cells] at hn
  | node c l v r ihl ihr =>
      have hroot : (v.1, ⟨v.2, c, addr l, addr r, parent⟩) ∈ cells parent (.node c l v r) :=
        mem_cells_node.mpr (Or.inl ⟨rfl, rfl⟩)
      rcases mem_cells_node.mp hn with ⟨rfl, rfl⟩ | hn | hn
      · exact Or.inl ⟨rfl, rfl⟩
      · right
        rcases ihl hn with ⟨hb, hp⟩ | ⟨a, n', s, hn', hchild, hp⟩
        · exact ⟨v.1, _, .left, hroot, hb, hp⟩
        · exact ⟨a, n', s, mem_cells_node.mpr (Or.inr (Or.inl hn')), hchild, hp⟩
      · right
        rcases ihr hn with ⟨hb, hp⟩ | ⟨a, n', s, hn', hchild, hp⟩
        · exact ⟨v.1, _, .right, hroot, hb, hp⟩
        · exact ⟨a, n', s, mem_cells_node.mpr (Or.inr (Or.inr hn')), hchild, hp⟩

end Nodes

section Walks

variable {h : RbHeap} {parent : Option Nat} {t : PtrTree} {fuel : Nat}
variable {c : Color} {k : Nat} {l r : PtrTree} {v : Nat × Int}

/-- The heap has the nodes of a tree. -/
def Held (h : RbHeap) (parent : Option Nat) (t : PtrTree) : Prop :=
  ∀ a n, (a, n) ∈ cells parent t → h a = some n

theorem Held.node (hheld : Held h parent (.node c l v r)) :
    h v.1 = some ⟨v.2, c, addr l, addr r, parent⟩ ∧ Held h (some v.1) l ∧ Held h (some v.1) r := by
  refine ⟨?_, ?_, ?_⟩
  · exact hheld _ _ (mem_cells_node.mpr (Or.inl ⟨rfl, rfl⟩))
  · intro a n hn
    exact hheld a n (mem_cells_node.mpr (Or.inr (Or.inl hn)))
  · intro a n hn
    exact hheld a n (mem_cells_node.mpr (Or.inr (Or.inr hn)))

theorem blackPath_some_iff {a j : Nat} {n : RbNode} (hread : h a = some n) :
    BlackPath h (some a) j ↔
      ∃ s k, BlackPath h (n.child s) k ∧ j = k + if n.color = .black then 1 else 0 := by
  constructor
  · intro hpath
    cases hpath with
    | step s hread' hrest =>
        rw [hread, Option.some.injEq] at hread'
        subst hread'
        exact ⟨s, _, hrest, rfl⟩
  · rintro ⟨s, k, hrest, rfl⟩
    exact .step s hread hrest

theorem blackPath_node_iff (hread : h v.1 = some ⟨v.2, c, addr l, addr r, parent⟩)
    (hl : ∀ j, BlackPath h (addr l) j ↔ j = k) (hr : ∀ j, BlackPath h (addr r) j ↔ j = k)
    (j : Nat) : BlackPath h (some v.1) j ↔ j = k + if c = .black then 1 else 0 := by
  rw [blackPath_some_iff hread]
  constructor
  · rintro ⟨s, k', hrest, rfl⟩
    cases s with
    | left => rw [(hl k').mp hrest]
    | right => rw [(hr k').mp hrest]
  · rintro rfl
    exact ⟨.left, k, (hl k).mpr rfl, rfl⟩

/-- Every walk down a balanced tree meets the same number of black nodes, and there is one. -/
theorem blackPath_iff (hb : Balanced t c k) (hheld : Held h parent t) (j : Nat) :
    BlackPath h (addr t) j ↔ j = k := by
  induction hb generalizing parent j with
  | nil =>
      constructor
      · intro hpath
        cases hpath
        rfl
      · rintro rfl
        exact .null
  | red hl hr ihl ihr =>
      obtain ⟨hread, hheldl, hheldr⟩ := hheld.node
      exact blackPath_node_iff hread (ihl hheldl) (ihr hheldr) j
  | black hl hr ihl ihr =>
      obtain ⟨hread, hheldl, hheldr⟩ := hheld.node
      exact blackPath_node_iff hread (ihl hheldl) (ihr hheldr) j

theorem nvRbInorder_spec (hheld : Held h parent t) (hfuel : t.depth < fuel) :
    nvRbInorder fuel h (addr t) = some (t.toList.map Prod.snd) := by
  induction t generalizing parent fuel with
  | nil =>
      cases fuel with
      | zero => exact absurd hfuel (Nat.not_lt_zero _)
      | succ fuel => rfl
  | node c l v r ihl ihr =>
      obtain ⟨hread, hheldl, hheldr⟩ := hheld.node
      simp only [depth] at hfuel
      cases fuel with
      | zero => exact absurd hfuel (Nat.not_lt_zero _)
      | succ fuel =>
          have hl := ihl hheldl (show l.depth < fuel by omega)
          have hr := ihr hheldr (show r.depth < fuel by omega)
          simp [nvRbInorder, hread, hl, hr, toList]

theorem nvRbSearch_spec
    (hheld : Held h parent t) (hsorted : Sorted Prod.snd t) (hfuel : t.depth < fuel) (k : Int) :
    ∃ r, nvRbSearch fuel h (addr t) k = some r ∧ (r.isSome ↔ ∃ x ∈ t.toList, x.2 = k) ∧
      ∀ a, r = some a → ∃ n, h a = some n ∧ n.data = k := by
  induction t generalizing parent fuel with
  | nil =>
      cases fuel with
      | zero => exact absurd hfuel (Nat.not_lt_zero _)
      | succ fuel => exact ⟨none, rfl, by simp [toList], by simp⟩
  | node c l v r ihl ihr =>
      obtain ⟨hread, hheldl, hheldr⟩ := hheld.node
      obtain ⟨hl, hr, -, -⟩ := (sorted_node_iff Prod.snd).mp hsorted
      simp only [depth] at hfuel
      cases fuel with
      | zero => exact absurd hfuel (Nat.not_lt_zero _)
      | succ fuel =>
          simp only [nvRbSearch, addr_node, hread, Option.bind_eq_bind, Option.bind_some]
          rcases lt_trichotomy v.2 k with hlt | heq | hgt
          · rw [if_neg (ne_of_lt hlt), if_pos hlt, exists_key_right Prod.snd hsorted hlt]
            exact ihr hheldr hr (show r.depth < fuel by omega)
          · rw [if_pos heq]
            refine ⟨some v.1, rfl, ?_, ?_⟩
            · exact iff_of_true rfl ⟨v, by simp [toList], heq⟩
            · rintro a ⟨rfl⟩
              exact ⟨_, hread, heq⟩
          · rw [if_neg (ne_of_gt hgt), if_neg (not_lt_of_gt hgt), exists_key_left Prod.snd hsorted hgt]
            exact ihl hheldl hl (show l.depth < fuel by omega)

end Walks

section Runs

variable {h : RbHeap} {root : Option Nat} {inserted : List (Nat × Int)} {t : PtrTree}

theorem Represents.mem_iff (hrep : Represents h root inserted t) (a : Nat) (n : RbNode) :
    h a = some n ↔ (a, n) ∈ cells none t := by
  have hm := hrep.focus.models.mem_iff a n
  simpa [pathCells, pathAddr] using hm

theorem Represents.empty : Represents (fun _ => none) none [] .nil where
  focus := ⟨Models.empty, rfl⟩
  balanced := ⟨0, .nil⟩
  sorted := List.Pairwise.nil
  perm := List.Perm.nil

section Represented

variable (hrep : Represents h root inserted t)
include hrep

theorem Represents.depth_le : t.depth ≤ inserted.length :=
  hrep.perm.length_eq ▸ depth_le_length t

theorem Represents.fresh
    {a : Nat} (ha : a ∉ inserted.map Prod.fst) : h a = none := by
  rw [Option.eq_none_iff_forall_ne_some]
  intro n hn
  have hmem := mem_toList_of_mem_cells ((hrep.mem_iff a n).mp hn)
  exact ha (List.mem_map.mpr ⟨_, hrep.perm.mem_iff.mp hmem, rfl⟩)

theorem Represents.exists_key_iff (k : Int) :
    (∃ x ∈ t.toList, x.2 = k) ↔ k ∈ inserted.map Prod.snd := by
  rw [List.mem_map]
  constructor
  · rintro ⟨x, hx, hxk⟩
    exact ⟨x, hrep.perm.mem_iff.mp hx, hxk⟩
  · rintro ⟨x, hx, hxk⟩
    exact ⟨x, hrep.perm.mem_iff.mpr hx, hxk⟩

theorem Represents.insert {fuel a : Nat} {k : Int}
    (ha : a ∉ inserted.map Prod.fst) (hk : k ∉ inserted.map Prod.snd)
    (hfuel : inserted.length + 2 ≤ fuel) :
    ∃ h' root' t', nvRbInsert fuel h root a k = some (h', root') ∧
      Represents h' root' (inserted ++ [(a, k)]) t' := by
  obtain ⟨n, hbal⟩ := hrep.balanced
  have hfresh := hrep.fresh ha
  have hnew : ∀ x ∈ t.toList, x.2 ≠ k := fun x hx hxk =>
    hk ((hrep.exists_key_iff k).mp ⟨x, hx, hxk⟩)
  have hdepth := hrep.depth_le
  obtain ⟨h', root', hcall, hfocus⟩ :=
    nvRbInsert_spec hrep.focus hbal hfresh hnew (show t.depth + 2 ≤ fuel by omega)
  refine ⟨h', root', _, hcall, hfocus, insert_balanced Prod.snd hbal (a, k),
    insert_sorted Prod.snd hrep.sorted hnew, ?_⟩
  rw [toList_insert]
  refine (perm_toList_graft Prod.snd (a, k) t).trans ?_
  exact (hrep.perm.cons (a, k)).trans (List.perm_append_singleton (a, k) inserted).symm

end Represented

theorem not_mem_of_nodup_map {α β : Type*} (f : α → β) {xs ys : List α} {x : α}
    (h : ((xs ++ x :: ys).map f).Nodup) : f x ∉ xs.map f := by
  rw [List.map_append, List.nodup_append] at h
  intro hmem
  exact h.2.2 (f x) hmem (f x) (by simp) rfl

theorem Represents.run (hrep : Represents h root inserted t) {fuel : Nat} {calls : List (Nat × Int)}
    (haddr : ((inserted ++ calls).map Prod.fst).Nodup)
    (hkeys : ((inserted ++ calls).map Prod.snd).Nodup)
    (hfuel : (inserted ++ calls).length + 2 ≤ fuel) :
    ∃ h' root' t',
      calls.foldlM (fun state call => nvRbInsert fuel state.1 state.2 call.1 call.2) (h, root) =
        some (h', root') ∧ Represents h' root' (inserted ++ calls) t' := by
  induction calls generalizing h root inserted t with
  | nil => exact ⟨h, root, t, rfl, by simpa using hrep⟩
  | cons call calls ih =>
      obtain ⟨a, k⟩ := call
      have ha : a ∉ inserted.map Prod.fst := not_mem_of_nodup_map Prod.fst haddr
      have hk : k ∉ inserted.map Prod.snd := not_mem_of_nodup_map Prod.snd hkeys
      have hlen : inserted.length + 2 ≤ fuel := by
        simp only [List.length_append] at hfuel
        omega
      obtain ⟨h₁, root₁, t₁, hcall, hrep₁⟩ := hrep.insert ha hk hlen
      have hsplit : inserted ++ (a, k) :: calls = inserted ++ [(a, k)] ++ calls := by simp
      rw [hsplit] at haddr hkeys hfuel ⊢
      obtain ⟨h₂, root₂, t₂, hrun, hrep₂⟩ := ih hrep₁ haddr hkeys hfuel
      refine ⟨h₂, root₂, t₂, ?_, hrep₂⟩
      simp only [List.foldlM_cons, hcall, Option.bind_eq_bind, Option.bind_some, hrun]

/-- A heap that holds a red-black tree has the invariants. -/
theorem Represents.invariant
    (hrep : Represents h root inserted t) {fuel : Nat} (hfuel : inserted.length < fuel) :
    RbInvariant fuel h root (inserted.map Prod.snd) := by
  obtain ⟨m, hbal⟩ := hrep.balanced
  have hroot : root = addr t := hrep.focus.root_eq
  have hheld : Held h none t := fun a n hn => (hrep.mem_iff a n).mpr hn
  have hdepth : t.depth < fuel := Nat.lt_of_le_of_lt hrep.depth_le hfuel
  have hkeys : (t.toList.map Prod.snd).Perm (inserted.map Prod.snd) := hrep.perm.map Prod.snd
  refine ⟨?_, ?_, ⟨m, ?_⟩, ?_, ?_, ?_, ?_, ?_⟩
  · intro a ha
    obtain ⟨n, hn, -, hcolor⟩ := root_mem_cells (hroot.symm.trans ha) none
    exact ⟨n, hheld a n hn, hcolor.trans hbal.color_eq⟩
  · intro a n s b n' hn hred hchild hn'
    obtain ⟨n₁, hn₁, -, hblack⟩ := child_mem_cells hbal ((hrep.mem_iff a n).mp hn) hchild
    rw [hheld b n₁ hn₁, Option.some.injEq] at hn'
    exact hn' ▸ hblack hred
  · rw [hroot]
    exact blackPath_iff hbal hheld
  · rw [hroot]
    exact ⟨_, nvRbInorder_spec hheld hdepth, hrep.sorted, hkeys⟩
  · intro a n s b hn hchild
    obtain ⟨n', hn', hparent, -⟩ := child_mem_cells hbal ((hrep.mem_iff a n).mp hn) hchild
    exact ⟨n', hheld b n' hn', hparent⟩
  · intro b n' a hn' hparent
    rcases parent_mem_cells ((hrep.mem_iff b n').mp hn') with ⟨-, hnone⟩ | ⟨a', n, s, hn, hchild, ha'⟩
    · exact absurd (hnone.symm.trans hparent) (by simp)
    · obtain rfl : a' = a := by simpa [ha'] using hparent
      exact ⟨n, s, hheld a' n hn, hchild⟩
  · intro b n hn
    constructor
    · intro hnone
      rcases parent_mem_cells ((hrep.mem_iff b n).mp hn) with ⟨hb, -⟩ | ⟨a, _, _, -, -, ha⟩
      · exact hroot.trans hb
      · exact absurd (ha.symm.trans hnone) (by simp)
    · intro hb
      obtain ⟨n', hn', hparent, -⟩ := root_mem_cells (hroot.symm.trans hb) none
      rw [hheld b n' hn', Option.some.injEq] at hn
      exact hn ▸ hparent
  · intro k
    obtain ⟨r, hres, hsome, hdata⟩ := nvRbSearch_spec hheld hrep.sorted hdepth k
    refine ⟨r, hroot ▸ hres, ?_, hdata⟩
    rw [hsome, ← hkeys.mem_iff, List.mem_map]

/-- Insertions of pairwise different keys into an empty tree, with the different addresses that
`malloc` returns, never follow a `NULL` pointer, end, and leave a tree with all the red-black
invariants. -/
theorem nvRbBuild_invariant
    (fuel : Nat)
    (calls : List (Nat × Int))
    (hmalloc : (calls.map Prod.fst).Nodup)
    (hkeys : (calls.map Prod.snd).Nodup)
    (hfuel : calls.length + 2 ≤ fuel) :
    ∃ h root, nvRbBuild fuel calls = some (h, root) ∧
      RbInvariant fuel h root (calls.map Prod.snd) := by
  obtain ⟨h, root, t, hrun, hrep⟩ := Represents.empty.run hmalloc hkeys hfuel
  exact ⟨h, root, hrun, hrep.invariant (show calls.length < fuel by omega)⟩

theorem nvRbBuild_invariant_three :
    ∃ h root, nvRbBuild 5 [(10, 3), (11, 1), (12, 2)] = some (h, root) ∧
      RbInvariant 5 h root [3, 1, 2] :=
  nvRbBuild_invariant 5 [(10, 3), (11, 1), (12, 2)] (by decide) (by decide) (by decide)

/-- In a tree of `n` keys, a search and the insertion of another key end within
`2 * log2 (n + 1) + 2` calls on the way down and turns of the loop on the way up. -/
theorem nvRb_logarithmic
    (fuel : Nat)
    (calls : List (Nat × Int))
    (hmalloc : (calls.map Prod.fst).Nodup)
    (hkeys : (calls.map Prod.snd).Nodup)
    (hfuel : calls.length + 2 ≤ fuel) :
    ∃ h root, nvRbBuild fuel calls = some (h, root) ∧
      ∀ steps, 2 * Nat.log2 (calls.length + 1) + 2 ≤ steps →
        (∀ k, ∃ r, nvRbSearch steps h root k = some r ∧ (r.isSome ↔ k ∈ calls.map Prod.snd)) ∧
        ∀ a k, a ∉ calls.map Prod.fst → k ∉ calls.map Prod.snd →
          ∃ next, nvRbInsert steps h root a k = some next := by
  obtain ⟨h, root, t, hrun, hrep⟩ := Represents.empty.run hmalloc hkeys hfuel
  rw [List.nil_append] at hrep
  obtain ⟨m, hbal⟩ := hrep.balanced
  have hdepth := hbal.depth_le_log
  rw [hrep.perm.length_eq] at hdepth
  refine ⟨h, root, hrun, fun steps hsteps => ⟨fun k => ?_, fun a k ha hk => ?_⟩⟩
  · have hheld : Held h none t := fun a n hn => (hrep.mem_iff a n).mpr hn
    obtain ⟨r, hres, hsome, -⟩ := nvRbSearch_spec hheld hrep.sorted
      (show t.depth < steps by omega) k
    exact ⟨r, hrep.focus.root_eq ▸ hres, hsome.trans (hrep.exists_key_iff k)⟩
  · have hnew : ∀ x ∈ t.toList, x.2 ≠ k := fun x hx hxk =>
      hk ((hrep.exists_key_iff k).mp ⟨x, hx, hxk⟩)
    obtain ⟨h', root', hcall, -⟩ := nvRbInsert_spec hrep.focus hbal (hrep.fresh ha) hnew
      (show t.depth + 2 ≤ steps by omega)
    exact ⟨(h', root'), hcall⟩

theorem nvRb_logarithmic_three :
    ∃ h root, nvRbBuild 5 [(10, 3), (11, 1), (12, 2)] = some (h, root) ∧
      ∀ k, ∃ r, nvRbSearch 6 h root k = some r ∧ (r.isSome ↔ k ∈ [3, 1, 2]) := by
  obtain ⟨h, root, hbuild, hsteps⟩ :=
    nvRb_logarithmic 5 [(10, 3), (11, 1), (12, 2)] (by decide) (by decide) (by decide)
  exact ⟨h, root, hbuild, (hsteps 6 (by decide)).1⟩

end Runs

end Libnv.Rb
