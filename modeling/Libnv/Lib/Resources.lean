import Mathlib.Data.List.Perm.Subperm

/-!
# Resources that are acquired and released by name

The system gives out resources (descriptors, blocks of memory) under names, and a
program releases a resource by its name.  A name may be given out again once its
resource has been released.

The history lists the resources that were given out, the latest first, each with
the number of times it has been released.  A release goes to the latest resource
of the name.
-/

namespace Libnv.Resources

universe u

structure Resource (α : Type u) where
  name : α
  /-- How often it has been released. -/
  releases : Nat
deriving DecidableEq

variable {α : Type u}

/-- The system gives out a resource under the name `x`. -/
def acquire (x : α) (rs : List (Resource α)) : List (Resource α) :=
  ⟨x, 0⟩ :: rs

/-- The resource of the name `x` has not been released. -/
def Live (x : α) (rs : List (Resource α)) : Prop :=
  ⟨x, 0⟩ ∈ rs

def OnceReleased (rs : List (Resource α)) : Prop :=
  ∀ r ∈ rs, r.releases ≤ 1

/-- A name is given out again only when its resource has been released. -/
def WellNamed (rs : List (Resource α)) : Prop :=
  rs.Pairwise fun later earlier => later.name = earlier.name → earlier.releases ≠ 0

section Acquire

variable {x y : α} {rs : List (Resource α)}

@[simp] theorem live_acquire_iff : Live y (acquire x rs) ↔ y = x ∨ Live y rs := by
  simp [Live, acquire]

@[simp] theorem onceReleased_acquire_iff : OnceReleased (acquire x rs) ↔ OnceReleased rs := by
  simp [OnceReleased, acquire]

theorem WellNamed.acquire (h : WellNamed rs) (hx : ¬ Live x rs) : WellNamed (acquire x rs) := by
  refine List.pairwise_cons.mpr ⟨?_, h⟩
  rintro ⟨name, releases⟩ hr rfl rfl
  exact hx hr

theorem OnceReleased.released_once (h : OnceReleased rs) (hall : ∀ x, ¬ Live x rs) :
    ∀ r ∈ rs, r.releases = 1 := by
  rintro ⟨name, releases⟩ hr
  have hle : releases ≤ 1 := h _ hr
  have hne : releases ≠ 0 := by
    rintro rfl
    exact hall name hr
  show releases = 1
  omega

end Acquire

section Release

variable [DecidableEq α]

instance (x : α) (rs : List (Resource α)) : Decidable (Live x rs) :=
  inferInstanceAs (Decidable (_ ∈ rs))

instance (rs : List (Resource α)) : Decidable (OnceReleased rs) :=
  inferInstanceAs (Decidable (∀ r ∈ rs, r.releases ≤ 1))

/-- The program releases the resource of the name `x`. -/
def release (x : α) : List (Resource α) → List (Resource α)
  | [] => []
  | r :: rs =>
      if r.name = x then { r with releases := r.releases + 1 } :: rs else r :: release x rs

variable {x y : α} {rs : List (Resource α)}

theorem mem_release {r : Resource α} (hr : r ∈ release x rs) :
    r ∈ rs ∨ ∃ n, r = ⟨x, n + 1⟩ ∧ ⟨x, n⟩ ∈ rs := by
  induction rs with
  | nil => exact Or.inl hr
  | cons q rs ih =>
      unfold release at hr
      split_ifs at hr with hname
      · rcases List.mem_cons.mp hr with rfl | hr
        · exact Or.inr ⟨q.releases, by simp [← hname], by simp [← hname]⟩
        · exact Or.inl (List.mem_cons_of_mem q hr)
      · rcases List.mem_cons.mp hr with rfl | hr
        · exact Or.inl List.mem_cons_self
        · rcases ih hr with hr | ⟨n, rfl, hn⟩
          · exact Or.inl (List.mem_cons_of_mem q hr)
          · exact Or.inr ⟨n, rfl, List.mem_cons_of_mem q hn⟩

theorem WellNamed.release (h : WellNamed rs) : WellNamed (release x rs) := by
  induction rs with
  | nil => exact h
  | cons q rs ih =>
      obtain ⟨hq, hrs⟩ := List.pairwise_cons.mp h
      unfold Resources.release
      split_ifs with hname
      · exact List.pairwise_cons.mpr ⟨hq, hrs⟩
      · refine List.pairwise_cons.mpr ⟨?_, ih hrs⟩
        intro r hr hsame
        rcases mem_release hr with hr | ⟨n, rfl, -⟩
        · exact hq r hr hsame
        · exact Nat.succ_ne_zero n

theorem live_release_iff (h : WellNamed rs) : Live y (release x rs) ↔ Live y rs ∧ y ≠ x := by
  induction rs with
  | nil => simp [Live, release]
  | cons q rs ih =>
      obtain ⟨hq, hrs⟩ := List.pairwise_cons.mp h
      have ih := ih hrs
      unfold Live at ih ⊢
      unfold release
      split_ifs with hname
      · -- The latest resource of the name is the head; an earlier one is released.
        have hne : ⟨y, 0⟩ ∈ rs → y ≠ x := fun hmem hyx => hq _ hmem (hname.trans hyx.symm) rfl
        have hhead : ¬ (⟨y, 0⟩ = q ∧ y ≠ x) := by
          rintro ⟨rfl, hyx⟩
          exact hyx hname
        simp only [List.mem_cons, Resource.mk.injEq, or_and_right]
        simp only [hhead, false_or, Nat.right_eq_add, Nat.add_eq_zero_iff]
        simp only [Nat.one_ne_zero, and_false, false_or]
        exact ⟨fun hmem => ⟨hmem, hne hmem⟩, fun hmem => hmem.1⟩
      · have hhead : ⟨y, 0⟩ = q → y ≠ x := by
          rintro rfl
          exact hname
        simp only [List.mem_cons, ih, or_and_right]
        rw [and_iff_left_of_imp hhead]

/-- The release of a resource that was given out is its first exactly if it is live. -/
theorem onceReleased_release_iff (hwell : WellNamed rs) (honce : OnceReleased rs)
    (hknown : x ∈ rs.map Resource.name) : OnceReleased (release x rs) ↔ Live x rs := by
  induction rs with
  | nil => simp at hknown
  | cons q rs ih =>
      obtain ⟨hq, hrs⟩ := List.pairwise_cons.mp hwell
      obtain ⟨hone, honce⟩ := List.forall_mem_cons.mp honce
      unfold release
      split_ifs with hname
      · have hlive : Live x (q :: rs) ↔ q.releases = 0 := by
          subst hname
          unfold Live
          rw [List.mem_cons]
          constructor
          · rintro (heq | hmem)
            · exact (congrArg Resource.releases heq).symm
            · exact absurd rfl (hq _ hmem rfl)
          · intro hzero
            exact Or.inl (by rw [← hzero])
        rw [hlive, OnceReleased, List.forall_mem_cons, and_iff_left honce]
        dsimp only
        omega
      · have hknown : x ∈ rs.map Resource.name := by
          rcases List.mem_cons.mp hknown with hx | hx
          · exact absurd hx.symm hname
          · exact hx
        have hhead : ⟨x, 0⟩ ≠ q := by
          rintro rfl
          exact hname rfl
        have hlive : Live x (q :: rs) ↔ Live x rs := by
          unfold Live
          rw [List.mem_cons, or_iff_right hhead]
        rw [hlive, ← ih hrs honce hknown, OnceReleased, List.forall_mem_cons, and_iff_right hone]
        rfl

theorem map_name_release : (release x rs).map Resource.name = rs.map Resource.name := by
  induction rs with
  | nil => rfl
  | cons q rs ih =>
      unfold release
      split_ifs
      · rfl
      · rw [List.map_cons, List.map_cons, ih]

theorem length_release : (release x rs).length = rs.length := by
  have hnames := congrArg List.length (@map_name_release _ _ x rs)
  rwa [List.length_map, List.length_map] at hnames

end Release

section Numbered

/--
The history of a program that has released every resource at most once so far, where
resources are named by their number in the history.
-/
structure Tidy (rs : List (Resource Nat)) : Prop where
  well : WellNamed rs
  once : OnceReleased rs
  numbered : ∀ x ∈ rs.map Resource.name, x < rs.length

variable {x : Nat} {rs : List (Resource Nat)}

theorem tidy_nil : Tidy [] where
  well := List.Pairwise.nil
  once := by simp [OnceReleased]
  numbered := by simp

theorem Tidy.lt_of_live (h : Tidy rs) (hx : Live x rs) : x < rs.length :=
  h.numbered x (List.mem_map_of_mem hx)

theorem Tidy.acquire (h : Tidy rs) : Tidy (acquire rs.length rs) where
  well := h.well.acquire fun hlive => Nat.lt_irrefl _ (h.lt_of_live hlive)
  once := onceReleased_acquire_iff.mpr h.once
  numbered := by
    refine List.forall_mem_cons.mpr ⟨Nat.lt_succ_self _, fun x hx => ?_⟩
    exact Nat.lt_succ_of_lt (h.numbered x hx)

theorem Tidy.release (h : Tidy rs) (hx : Live x rs) : Tidy (release x rs) where
  well := h.well.release
  once := (onceReleased_release_iff h.well h.once (List.mem_map_of_mem hx)).mpr hx
  numbered := by
    rw [map_name_release, length_release]
    exact h.numbered

theorem Tidy.releaseAll {xs : List Nat} (h : Tidy rs) (hlive : ∀ x ∈ xs, Live x rs)
    (hdistinct : xs.Nodup) : Tidy (xs.foldl (fun rs x => Resources.release x rs) rs) := by
  induction xs generalizing rs with
  | nil => exact h
  | cons x xs ih =>
      obtain ⟨hx, hxs⟩ := List.nodup_cons.mp hdistinct
      obtain ⟨hfirst, hrest⟩ := List.forall_mem_cons.mp hlive
      refine ih (h.release hfirst) ?_ hxs
      intro y hy
      refine (live_release_iff h.well).mpr ⟨hrest y hy, ?_⟩
      rintro rfl
      exact hx hy

end Numbered

/-- The lowest number that is not in use. -/
def lowestFree (used : List Nat) : Nat :=
  ((List.range (used.length + 1)).find? fun n => n ∉ used).getD used.length

theorem lowestFree_not_mem (used : List Nat) : lowestFree used ∉ used := by
  unfold lowestFree
  cases hfind : (List.range (used.length + 1)).find? fun n => n ∉ used with
  | some n => simpa using List.find?_some hfind
  | none =>
      -- more numbers than are in use
      have hall : List.range (used.length + 1) ⊆ used := by
        intro n hn
        simpa using List.find?_eq_none.mp hfind n hn
      have hle := (List.subperm_of_subset List.nodup_range hall).length_le
      rw [List.length_range] at hle
      omega

end Libnv.Resources
