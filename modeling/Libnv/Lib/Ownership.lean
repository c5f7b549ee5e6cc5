import Mathlib.Logic.Function.Basic
import Mathlib.Data.List.Nodup

/-!
# Names with owners

The system gives out names (descriptors) to owners, and anyone may release a name.
The table keeps who has the names that are given out, and the releases so far, each
with the owner that the name had then.  A name that is released twice has no owner the
second time, or one that it was given to in the meantime.
-/

namespace Libnv.Ownership

universe u v

/-- The owners of the names that are given out, and the releases so far. -/
structure Table (K : Type u) (O : Type v) where
  owner : K → Option O
  released : List (K × Option O)

variable {K : Type u} {O : Type v} [DecidableEq K]

/-- The name `k` is given to `o`. -/
def Table.give (t : Table K O) (k : K) (o : O) : Table K O :=
  { t with owner := Function.update t.owner k (some o) }

/-- The name `k` is released. -/
def Table.release (t : Table K O) (k : K) : Table K O where
  owner := Function.update t.owner k none
  released := t.released ++ [(k, t.owner k)]

/-- Some names are released one after the other. -/
def Table.releaseAll (t : Table K O) (ks : List K) : Table K O :=
  ks.foldl Table.release t

/-- The releases of the names `ks`. -/
def releases (owner : K → Option O) : List K → List (K × Option O)
  | [] => []
  | k :: ks => (k, owner k) :: releases (Function.update owner k none) ks

omit [DecidableEq K] in
/-- A name that is free is none of those that are given out. -/
theorem ne_of_owned
    {t : Table K O} {k k' : K} {o : O} (howned : t.owner k = some o) (hfree : t.owner k' = none) :
    k' ≠ k := by
  rintro rfl
  rw [howned] at hfree
  cases hfree

theorem released_releaseAll (t : Table K O) (ks : List K) :
    (t.releaseAll ks).released = t.released ++ releases t.owner ks := by
  induction ks generalizing t with
  | nil => exact (List.append_nil _).symm
  | cons k ks ih =>
      refine (ih (t.release k)).trans ?_
      rw [Table.release, List.append_assoc, releases]
      rfl

theorem releaseAll_append (t : Table K O) (ks ks' : List K) :
    t.releaseAll (ks ++ ks') = (t.releaseAll ks).releaseAll ks' :=
  List.foldl_append

theorem map_fst_releases (owner : K → Option O) (ks : List K) :
    (releases owner ks).map Prod.fst = ks := by
  induction ks generalizing owner with
  | nil => rfl
  | cons k ks ih => rw [releases, List.map_cons, ih]

/-- All names belong to `o` when they are released: they do before, and none is there twice. -/
theorem releases_owned_iff (o : O) (owner : K → Option O) (ks : List K) :
    (∀ release ∈ releases owner ks, release.2 = some o) ↔
      ks.Nodup ∧ ∀ k ∈ ks, owner k = some o := by
  induction ks generalizing owner with
  | nil => simp [releases]
  | cons k ks ih =>
      rw [releases, List.forall_mem_cons, ih, List.nodup_cons, List.forall_mem_cons]
      constructor
      · rintro ⟨hk, hnodup, hall⟩
        have hne : k ∉ ks := by
          intro hmem
          have hnone := hall k hmem
          rw [Function.update_self] at hnone
          cases hnone
        refine ⟨⟨hne, hnodup⟩, hk, fun k' hk' => ?_⟩
        have hk : k' ≠ k := fun h => hne (h ▸ hk')
        rw [← hall k' hk', Function.update_of_ne hk]
      · rintro ⟨⟨hne, hnodup⟩, hk, hall⟩
        refine ⟨hk, hnodup, fun k' hk' => ?_⟩
        have hk : k' ≠ k := fun h => hne (h ▸ hk')
        rw [Function.update_of_ne hk]
        exact hall k' hk'

end Libnv.Ownership
