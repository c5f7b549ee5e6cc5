import Mathlib.Data.Multiset.Range
import Mathlib.Logic.Equiv.Basic
import Mathlib.Order.Lattice
import Mathlib.Data.Multiset.MapFold

/-!
# Binary heaps in an array

The entries `0 .. n - 1` of an array are a complete binary tree in which the
children of `i` are `2 * i + 1` and `2 * i + 2`.  In a heap no entry is above its
parent.  The two repairs move an entry along a path: one upwards, while it is
above its parent, and one downwards, while a child is above it.  In between the
order holds everywhere except at the entry that moves.
-/

namespace Libnv.BinaryHeap

universe u

def parent (i : Nat) : Nat := (i - 1) / 2

variable {α : Type u}

/-- The array with two entries exchanged. -/
def swap (a : Nat → α) (i j : Nat) : Nat → α := fun k => a (Equiv.swap i j k)

/-- The first `n` entries. -/
def contents (a : Nat → α) (n : Nat) : Multiset α := (Multiset.range n).map a

section Contents

variable {a b : Nat → α} {i j n : Nat}

@[simp] theorem swap_left (a : Nat → α) (i j : Nat) : swap a i j i = a j := by
  simp [swap]

@[simp] theorem swap_right (a : Nat → α) (i j : Nat) : swap a i j j = a i := by
  simp [swap]

theorem swap_of_ne {k : Nat} (hi : k ≠ i) (hj : k ≠ j) : swap a i j k = a k := by
  simp [swap, Equiv.swap_apply_of_ne_of_ne hi hj]

theorem contents_succ (a : Nat → α) (n : Nat) : contents a (n + 1) = a n ::ₘ contents a n := by
  simp [contents, Multiset.range_succ]

theorem contents_congr (h : ∀ k < n, a k = b k) : contents a n = contents b n :=
  Multiset.map_congr rfl fun k hk => h k (Multiset.mem_range.mp hk)

theorem mem_contents {x : α} : x ∈ contents a n ↔ ∃ k < n, a k = x := by
  simp [contents]

theorem contents_swap (hi : i < n) (hj : j < n) : contents (swap a i j) n = contents a n := by
  have hrange : (Multiset.range n).map (Equiv.swap i j) = Multiset.range n := by
    have hnodup : ((Multiset.range n).map (Equiv.swap i j)).Nodup :=
      (Multiset.nodup_range n).map (Equiv.swap i j).injective
    refine (Multiset.Nodup.ext hnodup (Multiset.nodup_range n)).mpr fun k => ?_
    simp only [Multiset.mem_map, Multiset.mem_range]
    constructor
    · rintro ⟨m, hm, rfl⟩
      rcases eq_or_ne m i with rfl | hmi
      · simpa using hj
      · rcases eq_or_ne m j with rfl | hmj
        · simpa using hi
        · rwa [Equiv.swap_apply_of_ne_of_ne hmi hmj]
    · intro hk
      refine ⟨Equiv.swap i j k, ?_, Equiv.swap_apply_self i j k⟩
      rcases eq_or_ne k i with rfl | hki
      · simpa using hj
      · rcases eq_or_ne k j with rfl | hkj
        · simpa using hi
        · rwa [Equiv.swap_apply_of_ne_of_ne hki hkj]
  calc contents (swap a i j) n
      = ((Multiset.range n).map (Equiv.swap i j)).map a := by
        rw [Multiset.map_map]
        rfl
    _ = contents a n := by rw [hrange, contents]

/-- The last entry takes the place of the first, and the array gets shorter. -/
theorem contents_replace_first (hfirst : b 0 = a n) (hrest : ∀ k, 0 < k → k < n → b k = a k) :
    a 0 ::ₘ contents b n = contents a (n + 1) := by
  have hsame : contents b n = contents (swap a 0 n) n := by
    refine contents_congr fun k hk => ?_
    rcases Nat.eq_zero_or_pos k with rfl | hpos
    · rw [swap_left, hfirst]
    · rw [swap_of_ne hpos.ne' hk.ne, hrest k hpos hk]
  calc a 0 ::ₘ contents b n
      = swap a 0 n n ::ₘ contents (swap a 0 n) n := by rw [swap_right, hsame]
    _ = contents (swap a 0 n) (n + 1) := (contents_succ _ n).symm
    _ = contents a (n + 1) := contents_swap n.succ_pos n.lt_succ_self

end Contents

section Order

variable [LinearOrder α] {a b : Nat → α} {i n : Nat}

/-- No entry is above its parent. -/
def Ordered (a : Nat → α) (n : Nat) : Prop :=
  ∀ k, 0 < k → k < n → a k ≤ a (parent k)

/-- In order, except that the entry `i` may be above its parent. -/
structure UpOrdered (a : Nat → α) (n i : Nat) : Prop where
  others : ∀ k, 0 < k → k < n → k ≠ i → a k ≤ a (parent k)
  below : ∀ k, 0 < k → k < n → parent k = i → 0 < i → a k ≤ a (parent i)

/-- In order, except that the entry `i` may be below its children. -/
structure DownOrdered (a : Nat → α) (n i : Nat) : Prop where
  others : ∀ k, 0 < k → k < n → parent k ≠ i → a k ≤ a (parent k)
  below : ∀ k, 0 < k → k < n → parent k = i → 0 < i → a k ≤ a (parent i)

theorem parent_lt (hi : 0 < i) : parent i < i := by
  unfold parent
  omega

theorem Ordered.le_first (h : Ordered a n) (hi : i < n) : a i ≤ a 0 := by
  induction i using Nat.strong_induction_on with
  | _ i ih =>
      rcases Nat.eq_zero_or_pos i with rfl | hpos
      · exact le_refl _
      · have hparent := parent_lt hpos
        exact (h i hpos hi).trans (ih (parent i) hparent (hparent.trans hi))

theorem Ordered.mono (h : Ordered a n) {m : Nat} (hm : m ≤ n) : Ordered a m :=
  fun k hk hkm => h k hk (Nat.lt_of_lt_of_le hkm hm)

/-- A new last entry may be above its parent. -/
theorem Ordered.upOrdered (h : Ordered a n) (hsame : ∀ k < n, b k = a k) :
    UpOrdered b (n + 1) n := by
  constructor
  · intro k hk hkn hne
    have hlt : k < n := by omega
    rw [hsame k hlt, hsame (parent k) ((parent_lt hk).trans hlt)]
    exact h k hk hlt
  · intro k hk hkn hparent
    have := parent_lt hk
    omega

/-- A new first entry may be below its children. -/
theorem Ordered.downOrdered (h : Ordered a n) (hsame : ∀ k, 0 < k → k < n → b k = a k) :
    DownOrdered b n 0 := by
  constructor
  · intro k hk hkn hparent
    have hlt := parent_lt hk
    rw [hsame k hk hkn, hsame (parent k) (Nat.pos_of_ne_zero hparent) (hlt.trans hkn)]
    exact h k hk hkn
  · intro k _ _ _ hzero
    exact absurd hzero (Nat.lt_irrefl 0)

theorem UpOrdered.finish (h : UpOrdered a n i) (hi : 0 < i → a i ≤ a (parent i)) : Ordered a n := by
  intro k hk hkn
  rcases eq_or_ne k i with rfl | hne
  · exact hi hk
  · exact h.others k hk hkn hne

/-- One step upwards. -/
theorem UpOrdered.move
    (h : UpOrdered a n i) (hpos : 0 < i) (hi : i < n) (habove : a (parent i) < a i) :
    UpOrdered (swap a i (parent i)) n (parent i) := by
  have hlt := parent_lt hpos
  -- the old parent stays below its own parent
  have hup : 0 < parent i → a (parent i) ≤ a (parent (parent i)) := fun hp =>
    h.others (parent i) hp (hlt.trans hi) hlt.ne
  constructor
  · intro k hk hkn hne
    rcases eq_or_ne k i with rfl | hki
    · rw [swap_left, swap_right]
      exact habove.le
    · rw [swap_of_ne hki hne]
      rcases eq_or_ne (parent k) i with hpk | hpk
      · rw [hpk, swap_left]
        exact h.below k hk hkn hpk hpos
      · have hle := h.others k hk hkn hki
        rcases eq_or_ne (parent k) (parent i) with hpp | hpp
        · rw [hpp, swap_right]
          rw [hpp] at hle
          exact hle.trans habove.le
        · rw [swap_of_ne hpk hpp]
          exact hle
  · intro k hk hkn hpk hp
    have hgrand := parent_lt hp
    rw [swap_of_ne (show parent (parent i) ≠ i by omega) hgrand.ne]
    rcases eq_or_ne k i with rfl | hki
    · rw [swap_left]
      exact hup hp
    · have hkp := parent_lt hk
      rw [swap_of_ne hki (show k ≠ parent i by omega)]
      have hle := h.others k hk hkn hki
      rw [hpk] at hle
      exact hle.trans (hup hp)

theorem DownOrdered.finish
    (h : DownOrdered a n i) (hi : ∀ k, 0 < k → k < n → parent k = i → a k ≤ a i) : Ordered a n := by
  intro k hk hkn
  rcases eq_or_ne (parent k) i with hpk | hpk
  · rw [hpk]
    exact hi k hk hkn hpk
  · exact h.others k hk hkn hpk

theorem DownOrdered.move
    {c : Nat} (h : DownOrdered a n i) (hc : 0 < c) (hcn : c < n) (hparent : parent c = i)
    (hmax : ∀ k, 0 < k → k < n → parent k = i → a k ≤ a c) (habove : a i < a c) :
    DownOrdered (swap a i c) n c := by
  have hic : i < c := hparent ▸ parent_lt hc
  constructor
  · intro k hk hkn hpk
    have hkp := parent_lt hk
    rcases eq_or_ne k i with rfl | hki
    · rw [swap_left, swap_of_ne hkp.ne hpk]
      exact h.below c hc hcn hparent hk
    · rcases eq_or_ne (parent k) i with hpi | hpi
      · rw [hpi, swap_left]
        rcases eq_or_ne k c with rfl | hkc
        · rw [swap_right]
          exact habove.le
        · rw [swap_of_ne hki hkc]
          exact hmax k hk hkn hpi
      · rw [swap_of_ne hpi hpk]
        rcases eq_or_ne k c with rfl | hkc
        · exact absurd hparent hpi
        · rw [swap_of_ne hki hkc]
          exact h.others k hk hkn hpi
  · intro k hk hkn hpk _
    have hkc := parent_lt hk
    rw [hparent, swap_left, swap_of_ne (show k ≠ i by omega) (show k ≠ c by omega)]
    have hle := h.others k hk hkn (show parent k ≠ i by omega)
    rw [hpk] at hle
    exact hle

end Order

end Libnv.BinaryHeap
