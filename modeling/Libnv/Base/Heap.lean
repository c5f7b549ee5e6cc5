import Libnv.Lib.BinaryHeap
import Libnv.Lib.Transition
import Mathlib.Algebra.Order.Group.Int
import Mathlib.Algebra.Order.Group.Multiset

/-!
# The heap

`nv_heap.c`: a growing array of `int`s as a priority queue.  The array is the
memory behind `data` together with the number of entries it was allocated for;
reading or writing outside it is undefined in C and has no result here, and so
has `int` arithmetic that leaves the range.  A loop that is still running when
its fuel is used up has no result either, and neither has a call that ends the
process because the heap is empty.  `malloc` and `realloc` succeed; the memory
they return holds anything.
-/

namespace Libnv.MaxHeap

open BinaryHeap Transition

/-- `nv_heap_t`. -/
structure NvHeap where
  data : Nat → Int
  size : Nat
  capacity : Nat

/-- The value of an `int` expression that is not negative. -/
def int (n : Nat) : Option Nat := if n < 2 ^ 31 then some n else none

/-- `heap->data[i]`. -/
def NvHeap.get (h : NvHeap) (i : Nat) : Option Int :=
  if i < h.capacity then some (h.data i) else none

/-- `heap->data[i] = value`. -/
def NvHeap.set (h : NvHeap) (i : Nat) (value : Int) : Option NvHeap :=
  if i < h.capacity then some { h with data := Function.update h.data i value } else none

/-- The exchange of two entries through `temp`. -/
def NvHeap.exchange (h : NvHeap) (i j : Nat) : Option NvHeap := do
  let temp ← h.get i
  let other ← h.get j
  let h ← h.set i other
  h.set j temp

def initialCapacity : Nat := 10

/-- `nv_heap_init`, where `malloc` returns the memory `data`. -/
def nvHeapInit (data : Nat → Int) : NvHeap := ⟨data, 0, initialCapacity⟩

def nvHeapIsEmpty (h : NvHeap) : Bool := h.size == 0

def nvHeapPeek (h : NvHeap) : Option Int :=
  if nvHeapIsEmpty h then none else h.get 0

def nvHeapSiftUp (fuel : Nat) (h : NvHeap) (index : Nat) : Option NvHeap :=
  if 0 < index then
    match fuel with
    | 0 => none
    | fuel + 1 => do
        let parent := (index - 1) / 2
        let x ← h.get index
        let y ← h.get parent
        if x ≤ y then
          some h
        else
          let h ← h.exchange index parent
          nvHeapSiftUp fuel h parent
  else
    some h

/-- The variable `largest`: the left child, or the right one if it is there and greater. -/
def largestChild (h : NvHeap) (left right : Nat) : Option Nat :=
  if right < h.size then do
    let r ← h.get right
    let l ← h.get left
    some (if r > l then right else left)
  else
    some left

def nvHeapSiftDown (fuel : Nat) (h : NvHeap) (index : Nat) : Option NvHeap := do
  let left ← int (2 * index + 1)
  if left < h.size then
    match fuel with
    | 0 => none
    | fuel + 1 => do
        let right ← int (2 * index + 2)
        let largest ← largestChild h left right
        let x ← h.get index
        let y ← h.get largest
        if x ≥ y then
          some h
        else
          let h ← h.exchange index largest
          nvHeapSiftDown fuel h largest
  else
    some h

/-- The `realloc` of `nv_heap_insert`. -/
def grow (h : NvHeap) : Option NvHeap :=
  if h.size = h.capacity then do
    let capacity ← int (h.capacity * 2)
    some { h with capacity := capacity }
  else
    some h

def nvHeapInsert (h : NvHeap) (value : Int) : Option NvHeap := do
  let h ← grow h
  let h ← h.set h.size value
  let h ← nvHeapSiftUp h.size h h.size
  let size ← int (h.size + 1)
  some { h with size := size }

/-- `nv_heap_remove`, with the value it returns. -/
def nvHeapRemove (h : NvHeap) : Option (NvHeap × Int) :=
  if nvHeapIsEmpty h then
    none
  else do
    let root ← h.get 0
    let last ← h.get (h.size - 1)
    let h ← h.set 0 last
    let h := { h with size := h.size - 1 }
    let h ← nvHeapSiftDown h.size h 0
    some (h, root)

section Accesses

variable {h : NvHeap} {i j n : Nat}

theorem int_of_lt (hn : n < 2 ^ 31) : int n = some n := if_pos hn

theorem get_of_lt (hi : i < h.capacity) : h.get i = some (h.data i) := if_pos hi

theorem set_of_lt (hi : i < h.capacity) (value : Int) :
    h.set i value = some { h with data := Function.update h.data i value } :=
  if_pos hi

theorem exchange_of_lt (hi : i < h.capacity) (hj : j < h.capacity) :
    h.exchange i j = some { h with data := swap h.data i j } := by
  have hdata : Function.update (Function.update h.data i (h.data j)) j (h.data i) =
      swap h.data i j := by
    funext k
    rcases eq_or_ne k j with rfl | hkj
    · rw [Function.update_self, swap_right]
    · rw [Function.update_of_ne hkj]
      rcases eq_or_ne k i with rfl | hki
      · rw [Function.update_self, swap_left]
      · rw [Function.update_of_ne hki, swap_of_ne hki hkj]
  simp only [NvHeap.exchange, get_of_lt hi, get_of_lt hj, Option.bind_eq_bind, Option.bind_some,
    set_of_lt hi]
  have hset := set_of_lt (h := ⟨Function.update h.data i (h.data j), h.size, h.capacity⟩) hj
    (h.data i)
  rw [hset, hdata]

end Accesses

/-- `h` with other entries: in order, with the same contents. -/
def Repaired (h : NvHeap) (n : Nat) (h' : NvHeap) : Prop :=
  ∃ data, h' = { h with data := data } ∧ Ordered data n ∧ contents data n = contents h.data n

theorem Repaired.trans_swap {h h' : NvHeap} {n i j : Nat} (hi : i < n) (hj : j < n)
    (hr : Repaired { h with data := swap h.data i j } n h') : Repaired h n h' := by
  obtain ⟨data, rfl, hordered, hcontents⟩ := hr
  exact ⟨data, rfl, hordered, hcontents.trans (contents_swap hi hj)⟩

theorem nvHeapSiftUp_spec {n : Nat} (fuel : Nat) (h : NvHeap) (index : Nat)
    (hup : UpOrdered h.data n index) (hindex : index < n) (hn : n ≤ h.capacity)
    (hfuel : index ≤ fuel) : ∃ h', nvHeapSiftUp fuel h index = some h' ∧ Repaired h n h' := by
  induction fuel generalizing h index with
  | zero =>
      have hzero : ¬ 0 < index := by omega
      refine ⟨h, ?_, h.data, rfl, hup.finish fun hpos => absurd hpos hzero, rfl⟩
      rw [nvHeapSiftUp, if_neg hzero]
  | succ fuel ih =>
      rw [nvHeapSiftUp]
      by_cases hpos : 0 < index
      · have hparent : parent index < index := parent_lt hpos
        have hi : index < h.capacity := by omega
        have hp : parent index < h.capacity := by omega
        have hindexParent : (index - 1) / 2 = parent index := rfl
        simp only [if_pos hpos, hindexParent, get_of_lt hi, get_of_lt hp, Option.bind_eq_bind,
          Option.bind_some]
        by_cases hle : h.data index ≤ h.data (parent index)
        · rw [if_pos hle]
          exact ⟨h, rfl, h.data, rfl, hup.finish fun _ => hle, rfl⟩
        · rw [if_neg hle, exchange_of_lt hi hp]
          obtain ⟨h', hrun, hrepaired⟩ := ih { h with data := swap h.data index (parent index) }
            (parent index) (hup.move hpos hindex (lt_of_not_ge hle)) (by omega) hn (by omega)
          exact ⟨h', hrun, hrepaired.trans_swap hindex (by omega)⟩
      · rw [if_neg hpos]
        exact ⟨h, rfl, h.data, rfl, hup.finish fun hp => absurd hp hpos, rfl⟩

theorem child_cases {k index : Nat} (hk : 0 < k) (hparent : parent k = index) :
    k = 2 * index + 1 ∨ k = 2 * index + 2 := by
  unfold parent at hparent
  omega

theorem largestChild_spec
    {h : NvHeap} {index : Nat} (hroom : h.size ≤ h.capacity) (hleft : 2 * index + 1 < h.size) :
    ∃ c, largestChild h (2 * index + 1) (2 * index + 2) = some c ∧
      0 < c ∧ c < h.size ∧ parent c = index ∧
      ∀ k, 0 < k → k < h.size → parent k = index → h.data k ≤ h.data c := by
  have hparentLeft : parent (2 * index + 1) = index := by
    unfold parent
    omega
  have hparentRight : parent (2 * index + 2) = index := by
    unfold parent
    omega
  unfold largestChild
  by_cases hright : 2 * index + 2 < h.size
  · rw [if_pos hright, get_of_lt (h := h) (by omega), get_of_lt (h := h) (by omega)]
    by_cases hgreater : h.data (2 * index + 2) > h.data (2 * index + 1)
    · refine ⟨2 * index + 2, congrArg some (if_pos hgreater), by omega, hright, hparentRight, ?_⟩
      intro k hk _ hpk
      rcases child_cases hk hpk with rfl | rfl
      · exact hgreater.le
      · exact le_refl _
    · refine ⟨2 * index + 1, congrArg some (if_neg hgreater), by omega, hleft, hparentLeft, ?_⟩
      intro k hk _ hpk
      rcases child_cases hk hpk with rfl | rfl
      · exact le_refl _
      · exact not_lt.mp hgreater
  · rw [if_neg hright]
    refine ⟨2 * index + 1, rfl, by omega, hleft, hparentLeft, ?_⟩
    intro k hk hkn hpk
    rcases child_cases hk hpk with rfl | rfl
    · exact le_refl _
    · exact absurd hkn hright

theorem nvHeapSiftDown_spec (fuel : Nat) (h : NvHeap) (index : Nat)
    (hdown : DownOrdered h.data h.size index) (hindex : index ≤ h.size)
    (hroom : h.size ≤ h.capacity) (hcapacity : h.capacity < 2 ^ 30)
    (hfuel : h.size ≤ fuel + index) :
    ∃ h', nvHeapSiftDown fuel h index = some h' ∧ Repaired h h.size h' := by
  induction fuel generalizing h index with
  | zero =>
      have hleft : ¬ 2 * index + 1 < h.size := by omega
      refine ⟨h, ?_, h.data, rfl, hdown.finish fun k hk hkn hpk => ?_, rfl⟩
      · rw [nvHeapSiftDown, int_of_lt (by omega)]
        exact if_neg hleft
      · rcases child_cases hk hpk with rfl | rfl <;> omega
  | succ fuel ih =>
      rw [nvHeapSiftDown, int_of_lt (by omega)]
      simp only [Option.bind_eq_bind, Option.bind_some]
      by_cases hleft : 2 * index + 1 < h.size
      · obtain ⟨c, hchild, hc, hcn, hparent, hmax⟩ := largestChild_spec hroom hleft
        have hic : index < c := hparent ▸ parent_lt hc
        have hi : index < h.capacity := by omega
        have hcc : c < h.capacity := by omega
        have hright : int (2 * index + 2) = some (2 * index + 2) := int_of_lt (by omega)
        simp only [if_pos hleft, hright, hchild, get_of_lt hi, get_of_lt hcc, Option.bind_some]
        by_cases hge : h.data index ≥ h.data c
        · rw [if_pos hge]
          exact ⟨h, rfl, h.data, rfl,
            hdown.finish fun k hk hkn hpk => (hmax k hk hkn hpk).trans hge, rfl⟩
        · rw [if_neg hge, exchange_of_lt hi hcc]
          obtain ⟨h', hrun, hrepaired⟩ := ih { h with data := swap h.data index c } c
            (hdown.move hc hcn hparent hmax (lt_of_not_ge hge)) hcn.le hroom hcapacity
            (by change h.size ≤ fuel + c; omega)
          exact ⟨h', hrun, hrepaired.trans_swap (by omega) hcn⟩
      · rw [if_neg hleft]
        refine ⟨h, rfl, h.data, rfl, hdown.finish fun k hk hkn hpk => ?_, rfl⟩
        rcases child_cases hk hpk with rfl | rfl <;> omega

/-- A heap between two calls. -/
structure Valid (h : NvHeap) : Prop where
  ordered : Ordered h.data h.size
  room : h.size ≤ h.capacity
  pos : 0 < h.capacity
  small : h.capacity < 2 ^ 30

/-- The values in the heap. -/
def held (h : NvHeap) : Multiset Int := contents h.data h.size

/-- `v` is in `m`, and nothing in `m` is greater. -/
def IsMaximum (v : Int) (m : Multiset Int) : Prop := v ∈ m ∧ ∀ x ∈ m, x ≤ v

section Calls

variable {h : NvHeap}

theorem nvHeapIsEmpty_eq_false (hsize : 0 < h.size) : nvHeapIsEmpty h = false :=
  beq_eq_false_iff_ne.mpr hsize.ne'

theorem Valid.isMaximum_first (hv : Valid h) (hsize : 0 < h.size) :
    IsMaximum (h.data 0) (held h) := by
  refine ⟨mem_contents.mpr ⟨0, hsize, rfl⟩, ?_⟩
  intro x hx
  obtain ⟨k, hk, rfl⟩ := mem_contents.mp hx
  exact hv.ordered.le_first hk

theorem Valid.nvHeapPeek_eq (hv : Valid h) (hsize : 0 < h.size) :
    nvHeapPeek h = some (h.data 0) := by
  rw [nvHeapPeek, nvHeapIsEmpty_eq_false hsize]
  exact get_of_lt hv.pos

theorem Valid.init (data : Nat → Int) : Valid (nvHeapInit data) where
  ordered := fun _ _ hk => absurd hk (Nat.not_lt_zero _)
  room := Nat.zero_le _
  pos := show 0 < initialCapacity by decide
  small := show initialCapacity < 2 ^ 30 by decide

def grownCapacity (h : NvHeap) : Nat := if h.size = h.capacity then h.capacity * 2 else h.capacity

theorem Valid.grow_eq (hv : Valid h) : grow h = some { h with capacity := grownCapacity h } := by
  have hsmall := hv.small
  unfold grow grownCapacity
  by_cases hfull : h.size = h.capacity
  · rw [if_pos hfull, if_pos hfull, int_of_lt (by omega)]
    rfl
  · rw [if_neg hfull, if_neg hfull]

theorem Valid.size_lt_grownCapacity (hv : Valid h) : h.size < grownCapacity h := by
  have hroom := hv.room
  have hpos := hv.pos
  unfold grownCapacity
  split_ifs <;> omega

theorem Valid.nvHeapInsert (hv : Valid h) (value : Int) :
    ∃ h', nvHeapInsert h value = some h' ∧ Ordered h'.data h'.size ∧ h'.size = h.size + 1 ∧
      h'.capacity = grownCapacity h ∧ held h' = value ::ₘ held h := by
  have hsize := hv.size_lt_grownCapacity
  have hroom := hv.room
  have hsmall := hv.small
  let data := Function.update h.data h.size value
  have hsame : ∀ k < h.size, data k = h.data k := fun k hk =>
    Function.update_of_ne hk.ne value h.data
  obtain ⟨h', hsift, data', rfl, hordered, hcontents⟩ :=
    nvHeapSiftUp_spec (n := h.size + 1) h.size ⟨data, h.size, grownCapacity h⟩ h.size
      (hv.ordered.upOrdered hsame) (Nat.lt_succ_self _) hsize (le_refl _)
  refine ⟨⟨data', h.size + 1, grownCapacity h⟩, ?_, hordered, rfl, rfl, ?_⟩
  · have hint : int (h.size + 1) = some (h.size + 1) := int_of_lt (by omega)
    have hset := set_of_lt (h := ⟨h.data, h.size, grownCapacity h⟩) hsize value
    simp only [MaxHeap.nvHeapInsert, hv.grow_eq, Option.bind_eq_bind, Option.bind_some, hset]
    simp only [hsift, Option.bind_some, hint, data]
  · calc contents data' (h.size + 1)
        = contents data (h.size + 1) := hcontents
      _ = data h.size ::ₘ contents data h.size := contents_succ data h.size
      _ = value ::ₘ held h := by
        rw [contents_congr hsame, show data h.size = value from Function.update_self ..]
        rfl

theorem Valid.nvHeapRemove (hv : Valid h) (hsize : 0 < h.size) :
    ∃ h', nvHeapRemove h = some (h', h.data 0) ∧ Valid h' ∧ h'.size + 1 = h.size ∧
      h'.capacity = h.capacity ∧ h.data 0 ::ₘ held h' = held h := by
  have hroom := hv.room
  obtain ⟨n, hn⟩ : ∃ n, h.size = n + 1 := ⟨h.size - 1, by omega⟩
  let data := Function.update h.data 0 (h.data n)
  have hrest : ∀ k, 0 < k → k < n → data k = h.data k := fun k hk _ =>
    Function.update_of_ne hk.ne' _ _
  have hordered : Ordered h.data n := hv.ordered.mono (by omega)
  obtain ⟨h', hsift, data', rfl, hordered', hcontents⟩ :=
    nvHeapSiftDown_spec n ⟨data, n, h.capacity⟩ 0 (hordered.downOrdered hrest) (Nat.zero_le n)
      (show n ≤ h.capacity by omega) hv.small (le_refl n)
  refine ⟨⟨data', n, h.capacity⟩, ?_, ⟨hordered', ?_, hv.pos, hv.small⟩, hn.symm, rfl, ?_⟩
  · have hlast : h.get (h.size - 1) = some (h.data n) := by
      rw [get_of_lt (by omega), hn, Nat.add_sub_cancel]
    have hpred : h.size - 1 = n := by omega
    simp only [MaxHeap.nvHeapRemove, nvHeapIsEmpty_eq_false hsize, Bool.false_eq_true, if_false,
      get_of_lt hv.pos, hlast, Option.bind_eq_bind, Option.bind_some, set_of_lt hv.pos]
    simp only [hpred]
    rw [show (⟨Function.update h.data 0 (h.data n), n, h.capacity⟩ : NvHeap) =
      ⟨data, n, h.capacity⟩ from rfl, hsift]
    rfl
  · change n ≤ h.capacity
    omega
  · have hfirst : data 0 = h.data n := Function.update_self ..
    calc h.data 0 ::ₘ contents data' n
        = h.data 0 ::ₘ contents data n := by rw [hcontents]
      _ = contents h.data (n + 1) := contents_replace_first hfirst hrest
      _ = held h := by rw [held, hn]

end Calls

/-- The calls of `nv_heap_insert` and `nv_heap_remove`. -/
inductive HeapCall where
  | insert (value : Int)
  | remove
deriving DecidableEq

/-- The heap, with the values that were inserted and those that were removed. -/
structure HeapRun where
  heap : NvHeap
  inserted : Multiset Int
  removed : Multiset Int

/-- Before the first call. -/
def heapStart (data : Nat → Int) : HeapRun := ⟨nvHeapInit data, 0, 0⟩

/-- One call; a call without a result leaves everything as it is. -/
def heapStep (s : HeapRun) : HeapCall → HeapRun
  | .insert value =>
      match nvHeapInsert s.heap value with
      | some h => ⟨h, value ::ₘ s.inserted, s.removed⟩
      | none => s
  | .remove =>
      match nvHeapRemove s.heap with
      | some (h, value) => ⟨h, s.inserted, value ::ₘ s.removed⟩
      | none => s

/-- The call does not remove from an empty heap and keeps the capacity below `2^30`. -/
def Allowed (s : HeapRun) (c : HeapCall) : Prop :=
  (c = .remove → nvHeapIsEmpty s.heap = false) ∧ (heapStep s c).heap.capacity < 2 ^ 30

instance (s : HeapRun) (c : HeapCall) : Decidable (Allowed s c) :=
  inferInstanceAs (Decidable (_ ∧ _))

/-- A priority queue of the values inserted and not removed. -/
structure IsQueue (s : HeapRun) : Prop where
  ordered : ∀ i, 0 < i → i < s.heap.size → s.heap.data ((i - 1) / 2) ≥ s.heap.data i
  room : s.heap.size ≤ s.heap.capacity
  values : held s.heap + s.removed = s.inserted
  peek : nvHeapIsEmpty s.heap = false →
    ∃ v, nvHeapPeek s.heap = some v ∧ IsMaximum v (held s.heap)

/-- The call returns; a removal returns a maximum. -/
def CallSound (s : HeapRun) : HeapCall → Prop
  | .insert value => ∃ h, nvHeapInsert s.heap value = some h
  | .remove => ∃ h v, nvHeapRemove s.heap = some (h, v) ∧ IsMaximum v (held s.heap)

/-- The values returned by `n` removals. -/
def removeAll : Nat → NvHeap → Option (List Int)
  | 0, _ => some []
  | n + 1, h => do
      let (h, v) ← nvHeapRemove h
      let vs ← removeAll n h
      some (v :: vs)

structure RunInv (s : HeapRun) : Prop where
  valid : Valid s.heap
  values : held s.heap + s.removed = s.inserted

theorem size_pos_of_nvHeapIsEmpty {h : NvHeap} (hne : nvHeapIsEmpty h = false) : 0 < h.size :=
  Nat.pos_of_ne_zero (beq_eq_false_iff_ne.mp hne)

theorem RunInv.isQueue {s : HeapRun} (hs : RunInv s) : IsQueue s where
  ordered := hs.valid.ordered
  room := hs.valid.room
  values := hs.values
  peek := fun hne =>
    have hsize := size_pos_of_nvHeapIsEmpty hne
    ⟨_, hs.valid.nvHeapPeek_eq hsize, hs.valid.isMaximum_first hsize⟩

theorem RunInv.start (data : Nat → Int) : RunInv (heapStart data) where
  valid := Valid.init data
  values := rfl

/-- One call: what it returns, and the invariant after it. -/
theorem RunInv.step {s : HeapRun} (hs : RunInv s) (c : HeapCall) (hallowed : Allowed s c) :
    CallSound s c ∧ RunInv (heapStep s c) := by
  obtain ⟨hremove, hcapacity⟩ := hallowed
  cases c with
  | insert value =>
      obtain ⟨h', hinsert, hordered, hsize, hcap, hheld⟩ := hs.valid.nvHeapInsert value
      have hstep : heapStep s (.insert value) = ⟨h', value ::ₘ s.inserted, s.removed⟩ := by
        simp only [heapStep, hinsert]
      rw [hstep] at hcapacity ⊢
      refine ⟨⟨h', hinsert⟩, ⟨hordered, ?_, ?_, hcapacity⟩, ?_⟩
      · rw [hsize, hcap]
        exact hs.valid.size_lt_grownCapacity
      · rw [hcap]
        exact Nat.zero_lt_of_lt hs.valid.size_lt_grownCapacity
      · change held h' + s.removed = value ::ₘ s.inserted
        rw [hheld, Multiset.cons_add, hs.values]
  | remove =>
      have hpos := size_pos_of_nvHeapIsEmpty (hremove rfl)
      obtain ⟨h', hrun, hvalid, _, _, hheld⟩ := hs.valid.nvHeapRemove hpos
      have hstep : heapStep s .remove = ⟨h', s.inserted, s.heap.data 0 ::ₘ s.removed⟩ := by
        simp only [heapStep, hrun]
      rw [hstep]
      refine ⟨⟨h', _, hrun, hs.valid.isMaximum_first hpos⟩, hvalid, ?_⟩
      change held h' + s.heap.data 0 ::ₘ s.removed = s.inserted
      rw [Multiset.add_cons, ← Multiset.cons_add, hheld, hs.values]

theorem Valid.removeAll {h : NvHeap} (hv : Valid h) :
    ∃ vs, removeAll h.size h = some vs ∧ vs.Pairwise (· ≥ ·) ∧ (vs : Multiset Int) = held h := by
  induction hn : h.size generalizing h with
  | zero =>
      refine ⟨[], rfl, List.Pairwise.nil, ?_⟩
      rw [held, hn]
      rfl
  | succ n ih =>
      have hpos : 0 < h.size := by omega
      obtain ⟨h', hrun, hvalid, hsize, _, hheld⟩ := hv.nvHeapRemove hpos
      obtain ⟨vs, hvs, hsorted, hmultiset⟩ := ih hvalid (by omega)
      refine ⟨h.data 0 :: vs, ?_, List.pairwise_cons.mpr ⟨?_, hsorted⟩, ?_⟩
      · simp only [MaxHeap.removeAll, hrun, hvs, Option.bind_eq_bind, Option.bind_some]
      · intro x hx
        refine (hv.isMaximum_first hpos).2 x ?_
        rw [← hheld, ← hmultiset]
        exact Multiset.mem_cons_of_mem hx
      · rw [← hheld, ← hmultiset]
        rfl

/--
Along every sequence of insertions and removals that never removes from an empty
heap and keeps the capacity below `2^30`, every call returns and a removal returns
a maximum; after each of them the heap is a priority queue of the values inserted
and not removed, and removing everything returns these in non-increasing order.
-/
theorem nvHeap_priorityQueue
    (data : Nat → Int)
    (cs : List HeapCall)
    (hallowed : Along heapStep Allowed (heapStart data) cs) :
    Along heapStep CallSound (heapStart data) cs ∧
      IsQueue (run heapStep (heapStart data) cs) ∧
      ∃ vs, removeAll (run heapStep (heapStart data) cs).heap.size
          (run heapStep (heapStart data) cs).heap = some vs ∧
        vs.Pairwise (· ≥ ·) ∧
        (vs : Multiset Int) = held (run heapStep (heapStart data) cs).heap := by
  have hstart := RunInv.start data
  have hend : RunInv (run heapStep (heapStart data) cs) :=
    run_invariant_of_along (fun _ c hs hc => (hs.step c hc).2) hstart hallowed
  refine ⟨?_, hend.isQueue, hend.valid.removeAll⟩
  have hall : ∀ c ∈ cs, True := fun _ _ => trivial
  exact along_of_along (fun _ c hs _ hc => hs.step c hc) hstart hall hallowed

theorem nvHeap_priorityQueue_three :
    Along heapStep Allowed (heapStart fun _ => 0) [.insert 2, .insert 5, .remove, .insert 3] ∧
      IsQueue (run heapStep (heapStart fun _ => 0) [.insert 2, .insert 5, .remove, .insert 3]) := by
  have hallowed : Along heapStep Allowed (heapStart fun _ => 0)
      [.insert 2, .insert 5, .remove, .insert 3] := by
    decide
  exact ⟨hallowed, (nvHeap_priorityQueue (fun _ => 0) _ hallowed).2.1⟩

end Libnv.MaxHeap
