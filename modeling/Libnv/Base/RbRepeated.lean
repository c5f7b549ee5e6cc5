import Libnv.Base.RbInvariants

/-!
# Inserting a key twice

`nv_rb_insert` makes a node before it looks for the key.  For a key that is
already there `nv_rb_insertBST` links the new node nowhere, and `nv_rb_insertFix`
then starts from a red node that is not the root and has no parent.
-/

namespace Libnv.Rb

open RedBlack RedBlack.ColorTree CellHeap

/-- The keys, colours and shape of the tree that a pointer leads to. -/
def shape : Nat → RbHeap → Option Nat → Option (ColorTree Int)
  | 0, _, _ => none
  | _ + 1, _, none => some .nil
  | fuel + 1, h, some root => do
      let n ← h root
      let left ← shape fuel h n.left
      let right ← shape fuel h n.right
      some (.node n.color left n.data right)

/-- Every call returns, and one with a key that is in the tree keeps keys, colours and shape. -/
def Harmless (fuel : Nat) : RbHeap → Option Nat → List (Nat × Int) → Prop
  | _, _, [] => True
  | h, root, (p, data) :: calls =>
      ∃ h' root', nvRbInsert fuel h root p data = some (h', root') ∧
        ((∃ a, nvRbSearch fuel h root data = some (some a)) →
          shape fuel h' root' = shape fuel h root) ∧
        Harmless fuel h' root' calls

section Present

variable {h : RbHeap} {parent : Option Nat} {t : PtrTree} {a : Nat} {k : Int} {n : RbNode}

theorem hang_eq_self {s : Side} {root b : Nat} {m : RbNode}
    (hroot : h root = some n) (hchild : n.child s = some b)
    (hread : h b = some m) (hparent : m.parent = some root) : hang h s root (some b) = some h := by
  have hset : n.setChild s (some b) = n := by
    cases s <;> exact congrArg _ hchild.symm
  have hadopt : m.setParent (some root) = m := by
    rw [← hparent]
    rfl
  have hwrite : modify h root (·.setChild s (some b)) = some h := modify_eq_self hroot hset
  have hback : modify h b (·.setParent (some root)) = some h := modify_eq_self hread hadopt
  simp only [hang, hwrite, hroot, hchild, Option.bind_eq_bind, Option.bind_some, hback]

theorem Held.hang_eq_self {s : Side} {root b : Nat} {y : PtrTree}
    (hroot : h root = some n) (hchild : n.child s = addr y)
    (hheld : Held h (some root) y) (hy : addr y = some b) : hang h s root (addr y) = some h := by
  obtain ⟨m, hm, hparent, -⟩ := root_mem_cells hy (some root)
  rw [hy] at hchild ⊢
  exact Rb.hang_eq_self hroot hchild (hheld b m hm) hparent

theorem addr_of_mem {v : Nat × Int} (hv : v ∈ t.toList) : ∃ b, addr t = some b := by
  cases t with
  | nil => exact absurd hv (List.not_mem_nil)
  | node c l w r => exact ⟨w.1, rfl⟩

/-- The search for the place of a key that is there changes nothing. -/
theorem nvRbInsertBST_present (hheld : Held h parent t) (hsorted : Sorted Prod.snd t)
    (ha : h a = some n) (hk : ∃ x ∈ t.toList, x.2 = n.data) (fuel : Nat) :
    nvRbInsertBST fuel h (addr t) a = none ∨
      nvRbInsertBST fuel h (addr t) a = some (h, addr t) := by
  induction t generalizing parent fuel with
  | nil =>
      obtain ⟨x, hx, -⟩ := hk
      exact absurd hx List.not_mem_nil
  | node c l v r ihl ihr =>
      obtain ⟨hread, hheldl, hheldr⟩ := hheld.node
      obtain ⟨hl, hr, -, -⟩ := (sorted_node_iff Prod.snd).mp hsorted
      cases fuel with
      | zero => exact Or.inl rfl
      | succ fuel =>
          simp only [nvRbInsertBST, addr_node, hread, ha, Option.bind_eq_bind, Option.bind_some]
          rcases lt_trichotomy n.data v.2 with hlt | heq | hgt
          · rw [if_pos hlt]
            obtain ⟨x, hx, hxk⟩ := (exists_key_left Prod.snd hsorted hlt).mp hk
            obtain ⟨b, hb⟩ := addr_of_mem hx
            rcases ihl hheldl hl ⟨x, hx, hxk⟩ fuel with hrec | hrec
            · exact Or.inl (by rw [hrec, Option.bind_none])
            · right
              have hhang := hheldl.hang_eq_self (s := .left) hread rfl hb
              simp only [hrec, Option.bind_some, hhang]
          · rw [if_neg (not_lt_of_ge heq.ge), if_neg (not_lt_of_ge heq.le)]
            exact Or.inr rfl
          · rw [if_neg (not_lt_of_gt hgt), if_pos hgt]
            obtain ⟨x, hx, hxk⟩ := (exists_key_right Prod.snd hsorted hgt).mp hk
            obtain ⟨b, hb⟩ := addr_of_mem hx
            rcases ihr hheldr hr ⟨x, hx, hxk⟩ fuel with hrec | hrec
            · exact Or.inl (by rw [hrec, Option.bind_none])
            · right
              have hhang := hheldr.hang_eq_self (s := .right) hread rfl hb
              simp only [hrec, Option.bind_some, hhang]

/-- The repair of a red node that is not the root and has no parent reads through `NULL`. -/
theorem nvRbInsertFix_orphan
    {root : Option Nat} (ha : h a = some n) (hred : n.color = .red) (hparent : n.parent = none)
    (hroot : root ≠ some a) (fuel : Nat) : nvRbInsertFix fuel h root a = none := by
  have hloop : nvRbFixLoop fuel h root a = none := by
    cases fuel with
    | zero => rfl
    | succ fuel =>
        rw [nvRbFixLoop, if_neg hroot, ha]
        simp [hred, hparent]
  rw [nvRbInsertFix, hloop]
  rfl

end Present

section Runs

variable {h : RbHeap} {root : Option Nat} {inserted : List (Nat × Int)} {t : PtrTree}
variable (hrep : Represents h root inserted t)
include hrep

/-- No insertion of a key that is in the tree returns, whatever the fuel. -/
theorem Represents.nvRbInsert_present {a : Nat} {k : Int}
    (ha : a ∉ inserted.map Prod.fst) (hk : k ∈ inserted.map Prod.snd) (fuel : Nat) :
    nvRbInsert fuel h root a k = none := by
  have hfree := hrep.fresh ha
  have hroot : root = addr t := hrep.focus.root_eq
  have hnew : nvRbNewNode h a k a = some ⟨k, .red, none, none, none⟩ := Function.update_self ..
  have hheld : Held (nvRbNewNode h a k) none t := by
    intro b n hn
    have hb : h b = some n := (hrep.mem_iff b n).mpr hn
    have hne : b ≠ a := by
      rintro rfl
      exact absurd (hfree.symm.trans hb) (by simp)
    rw [nvRbNewNode, store, Function.update_of_ne hne, hb]
  -- the root is a node of the tree, the new one is not
  have hother : root ≠ some a := by
    intro heq
    obtain ⟨n, hn, -, -⟩ := root_mem_cells (hroot.symm.trans heq) none
    exact absurd (hfree.symm.trans ((hrep.mem_iff a n).mpr hn)) (by simp)
  rcases nvRbInsertBST_present hheld hrep.sorted hnew ((hrep.exists_key_iff k).mpr hk) fuel
    with hbst | hbst
  · simp only [nvRbInsert, hroot, hbst, Option.bind_eq_bind, Option.bind_none]
  · have hfix := nvRbInsertFix_orphan hnew rfl rfl hother fuel
    simp only [nvRbInsert, hroot, hbst, Option.bind_eq_bind, Option.bind_some]
    exact hroot ▸ hfix

theorem Represents.nvRbSearch_absent {fuel : Nat} {k : Int}
    (hk : k ∉ inserted.map Prod.snd) (hfuel : inserted.length < fuel) :
    ¬ ∃ a, nvRbSearch fuel h root k = some (some a) := by
  rintro ⟨a, ha⟩
  obtain ⟨r, hr, hsome, -⟩ := (hrep.invariant hfuel).search k
  rw [ha, Option.some.injEq] at hr
  exact hk (hsome.mp (by rw [← hr]; rfl))

theorem Represents.nodup_keys : (inserted.map Prod.snd).Nodup := by
  have hsorted : (t.toList.map Prod.snd).Pairwise (· < ·) := hrep.sorted
  exact ((hrep.perm.map Prod.snd).nodup_iff).mp (hsorted.imp fun hlt => ne_of_lt hlt)

/-- From any tree built so far, the calls are harmless exactly when they bring new keys. -/
theorem Represents.harmless_iff {fuel : Nat} {calls : List (Nat × Int)}
    (haddr : ((inserted ++ calls).map Prod.fst).Nodup)
    (hfuel : (inserted ++ calls).length + 2 ≤ fuel) :
    Harmless fuel h root calls ↔ ((inserted ++ calls).map Prod.snd).Nodup := by
  induction calls generalizing h root inserted t with
  | nil =>
      rw [List.append_nil]
      exact iff_of_true trivial hrep.nodup_keys
  | cons call calls ih =>
      obtain ⟨a, k⟩ := call
      have ha : a ∉ inserted.map Prod.fst := not_mem_of_nodup_map Prod.fst haddr
      have hlen : inserted.length + 2 ≤ fuel := by
        simp only [List.length_append] at hfuel
        omega
      by_cases hk : k ∈ inserted.map Prod.snd
      · refine iff_of_false ?_ ?_
        · rintro ⟨h', root', hcall, -⟩
          rw [hrep.nvRbInsert_present ha hk fuel] at hcall
          cases hcall
        · intro hkeys
          exact not_mem_of_nodup_map Prod.snd hkeys hk
      · obtain ⟨h₁, root₁, t₁, hcall, hrep₁⟩ := hrep.insert ha hk hlen
        have hsplit : inserted ++ (a, k) :: calls = inserted ++ [(a, k)] ++ calls := by simp
        rw [hsplit] at haddr hfuel ⊢
        rw [← ih hrep₁ haddr hfuel]
        constructor
        · rintro ⟨h', root', hcall', -, hrest⟩
          rw [hcall, Option.some.injEq, Prod.mk.injEq] at hcall'
          obtain ⟨rfl, rfl⟩ := hcall'
          exact hrest
        · intro hrest
          have habsent := hrep.nvRbSearch_absent hk (show inserted.length < fuel by omega)
          exact ⟨h₁, root₁, hcall, fun hfound => absurd hfound habsent, hrest⟩

end Runs

/--
Insertions into an empty tree, with the different addresses that `malloc` returns,
are harmless exactly when no key is inserted twice: the first call with a key that
is already there reads `pt->parent->color` where `pt->parent` is `NULL`.
-/
theorem nvRbInsert_harmless_iff
    (fuel : Nat)
    (calls : List (Nat × Int))
    (hmalloc : (calls.map Prod.fst).Nodup)
    (hfuel : calls.length + 2 ≤ fuel) :
    Harmless fuel (fun _ => none) none calls ↔ (calls.map Prod.snd).Nodup :=
  Represents.empty.harmless_iff hmalloc hfuel

theorem nvRbInsert_harmless_iff_three :
    Harmless 5 (fun _ => none) none [(10, 3), (11, 1), (12, 2)] :=
  (nvRbInsert_harmless_iff 5 [(10, 3), (11, 1), (12, 2)] (by decide) (by decide)).mpr (by decide)

/-- The second insertion of a key: the new node is red, not the root and without a parent, and
the call does not return with any fuel. -/
theorem nvRbInsert_twice :
    ((nvRbBuild 4 [(10, 1)]).bind fun state =>
      (nvRbInsertBST 4 (nvRbNewNode state.1 11 1) state.2 11).map fun state =>
        (state.2, (state.1 11).map fun n => (n.color, n.parent))) =
        some (some 10, some (.red, none)) ∧
      ∀ fuel, nvRbBuild fuel [(10, 1), (11, 1)] = none := by
  refine ⟨by decide, fun fuel => ?_⟩
  cases fuel with
  | zero => rfl
  | succ fuel => rfl

end Libnv.Rb
