import Libnv.Base.PoolRegions
import Libnv.Lib.Tally

/-!
# The statistics of the pool

`total_size`, `used_size` and `free_size` are `size_t` counters that every call
updates by its own idea of a size.  The blocks of a pool lie in disjoint ranges,
so the true totals stay far below `2 ^ 64`, and a counter that agrees with them
modulo `2 ^ 64` agrees with them.

Two sizes that are counted are not the size of a block: `nv_pool_create` counts
`initial_size` and an extension counts `min_size`, while `nv_pool_block_create`
rounds both up.  `nv_pool_reset_stats` reads the total back from the counters it
has just cleared.
-/

namespace Libnv.Pool

def sizes (l : List PoolBlock) : Nat := (l.map PoolBlock.size).sum

/-- The bytes given away by the blocks together. -/
def useds (l : List PoolBlock) : Nat := (l.map PoolBlock.used).sum

/-- The statistics say what the blocks hold, and the two queries tell the truth. -/
structure StatsExact (p : NvPool) : Prop where
  total : p.stats.totalSize = sizes p.all
  used : p.stats.usedSize = useds p.all
  noWrap : p.stats.usedSize ≤ p.stats.totalSize
  free : p.stats.freeSize = p.stats.totalSize - p.stats.usedSize
  full : nvPoolIsFull p = true ↔ ∀ b ∈ p.all, b.used = b.size
  empty : nvPoolIsEmpty p = true ↔ ∀ b ∈ p.all, b.used = 0

/-- Blocks in order, each listed once, and counters that agree with them. -/
structure Books (l : List PoolBlock) (stats : PoolStats) : Prop where
  blocks : BlocksOk l
  distinct : (l.map PoolBlock.id).Nodup
  total : stats.totalSize = sizes l
  used : stats.usedSize = useds l
  free : stats.freeSize + stats.usedSize = stats.totalSize

/-- The blocks lie in disjoint ranges of the address space. -/
theorem sizes_le {l : List PoolBlock} (hl : BlocksOk l) (hdistinct : (l.map PoolBlock.id).Nodup) :
    sizes l ≤ 2 ^ 63 := by
  have hapart : l.Pairwise fun b c => b.endPtr ≤ c.start ∨ c.endPtr ≤ b.start :=
    (List.pairwise_map.mp hdistinct).imp_of_mem
      fun hb hc hne => hl.apart _ hb _ hc hne
  have hle := Tally.sum_lengths_le PoolBlock.start PoolBlock.endPtr hapart
    fun b hb => (hl.ok b hb).bound
  have hsame : (l.map fun b => b.endPtr - b.start) = l.map PoolBlock.size := by
    refine List.map_congr_left fun b hb => ?_
    have := (hl.ok b hb).endPtr
    omega
  rw [hsame] at hle
  exact hle

theorem useds_le {l : List PoolBlock} (hl : ∀ b ∈ l, BlockOk b) : useds l ≤ sizes l :=
  List.sum_le_sum fun b hb => (hl b hb).used

theorem useds_eq_sizes_iff {l : List PoolBlock} (hl : ∀ b ∈ l, BlockOk b) :
    useds l = sizes l ↔ ∀ b ∈ l, b.used = b.size := by
  induction l with
  | nil => simp [useds, sizes]
  | cons b l ih =>
      have hb := (hl b List.mem_cons_self).used
      have hok : ∀ c ∈ l, BlockOk c := fun c hc => hl c (List.mem_cons_of_mem b hc)
      have hrest := useds_le hok
      rw [List.forall_mem_cons, ← ih hok]
      simp only [useds, sizes, List.map_cons, List.sum_cons] at hrest ⊢
      omega

theorem useds_eq_zero_iff (l : List PoolBlock) : useds l = 0 ↔ ∀ b ∈ l, b.used = 0 := by
  simp [useds, List.sum_eq_zero_iff]

/-- Where the counters agree with the blocks, the statistics are exact. -/
theorem Books.exact {p : NvPool} (h : Books p.all p.stats) : StatsExact p := by
  have hle := useds_le h.blocks.ok
  refine ⟨h.total, h.used, ?_, ?_, ?_, ?_⟩
  · rw [h.total, h.used]
    exact hle
  · have := h.free
    omega
  · rw [← useds_eq_sizes_iff h.blocks.ok, ← h.total, ← h.used]
    have := h.free
    simp only [nvPoolIsFull, decide_eq_true_eq]
    omega
  · rw [← useds_eq_zero_iff, ← h.used]
    simp [nvPoolIsEmpty]

section Changes

variable {l l' : List PoolBlock} {stats : PoolStats} {b b' : PoolBlock} {size : Nat}

theorem alignSize_lt (n : Nat) : nvPoolAlignSize n < 2 ^ 64 := by
  unfold nvPoolAlignSize wrap
  omega

@[simp] theorem alignSize_alignSize (n : Nat) :
    nvPoolAlignSize (nvPoolAlignSize n) = nvPoolAlignSize n := by
  unfold nvPoolAlignSize wrap
  omega

/-- The block that served a request, also where `used + size` wrapped on the way. -/
theorem serve_spec {q : Nat} (hb : BlockOk b) (h : serve size b = some (b', q)) :
    BlockOk b' ∧ b'.id = b.id ∧ b'.start = b.start ∧ b'.endPtr = b.endPtr ∧
      b'.size = b.size ∧ b'.used = wrap (b.used + size) := by
  obtain ⟨hend, hcur, hused, hbound⟩ := hb
  unfold serve at h
  split at h
  · rename_i hroom
    unfold nvPoolBlockAlloc at h
    split at h
    · cases h
    · simp only [Option.some.injEq, Prod.mk.injEq] at h
      obtain ⟨rfl, -⟩ := h
      refine ⟨⟨hend, ?_, hroom, hbound⟩, rfl, rfl, rfl, rfl, rfl⟩
      unfold wrap at hroom ⊢
      dsimp only
      omega
  · cases h

/-- Moving a bump pointer changes no size. -/
theorem sizes_replaceBlock (hdistinct : (l.map PoolBlock.id).Nodup) (hb : b ∈ l)
    (hid : b'.id = b.id) (hsize : b'.size = b.size) : sizes (replaceBlock b' l) = sizes l := by
  have := Tally.sum_exchange PoolBlock.id PoolBlock.size hdistinct hb b'
  rw [← hid] at this
  unfold sizes replaceBlock
  omega

theorem Books.serve (h : Books l stats) (hb : b ∈ l) {q : Nat}
    (hsize : size < 2 ^ 64) (hserve : serve size b = some (b', q)) :
    Books (replaceBlock b' l) { stats with
      usedSize := wrap (stats.usedSize + size)
      freeSize := wrap (stats.freeSize + (2 ^ 64 - size))
      allocationCount := wrap (stats.allocationCount + 1) } := by
  obtain ⟨hok, hid, hstart, hend, hsz, hused⟩ := serve_spec (h.blocks.ok b hb) hserve
  have hblocks := h.blocks.replace hb hid hstart hend hok
  have hids : (replaceBlock b' l).map PoolBlock.id = l.map PoolBlock.id := by
    simp only [replaceBlock, List.map_map]
    refine List.map_congr_left fun c _ => ?_
    by_cases heq : c.id = b'.id
    · simp [heq]
    · simp [heq]
  have hsizes := sizes_replaceBlock h.distinct hb hid hsz
  have huseds : useds (replaceBlock b' l) + b.used = useds l + b'.used := by
    have := Tally.sum_exchange PoolBlock.id PoolBlock.used h.distinct hb b'
    rw [← hid] at this
    exact this
  have hle := useds_le hblocks.ok
  have hbound := sizes_le h.blocks h.distinct
  have hb := (h.blocks.ok b hb).used
  obtain ⟨-, hdistinct, htotal, husedSize, hfree⟩ := h
  -- the true total is the counter modulo `2 ^ 64`, and below it
  have hcount : wrap (stats.usedSize + size) = useds (replaceBlock b' l) := by
    unfold wrap at hused ⊢
    omega
  refine ⟨hblocks, hids ▸ hdistinct, ?_, hcount, ?_⟩
  · rw [hsizes]
    exact htotal
  · dsimp only
    rw [hcount]
    unfold wrap at hcount ⊢
    omega

/-- A new block of the counted size. -/
theorem Books.add (h : Books l stats) (hperm : l'.Perm (b :: l))
    (hok : BlockOk b) (hid : b.id = l.length)
    (hapart : ∀ c ∈ l, b.endPtr ≤ c.start ∨ c.endPtr ≤ b.start) (hused : b.used = 0) :
    Books l' { stats with
      totalBlocks := wrap (stats.totalBlocks + 1)
      totalSize := wrap (stats.totalSize + b.size)
      freeSize := wrap (stats.freeSize + b.size) } := by
  have hmem : ∀ x, x ∈ l' ↔ x = b ∨ x ∈ l := by
    intro x
    rw [hperm.mem_iff, List.mem_cons]
  have hblocks : BlocksOk l' := h.blocks.add hmem hperm.length_eq hok hid hapart
  have hdistinct : (l'.map PoolBlock.id).Nodup := by
    rw [(hperm.map PoolBlock.id).nodup_iff, List.map_cons, List.nodup_cons]
    refine ⟨?_, h.distinct⟩
    intro hin
    obtain ⟨c, hc, heq⟩ := List.mem_map.mp hin
    have := h.blocks.idLt c hc
    omega
  have hsizes : sizes l' = b.size + sizes l := (hperm.map PoolBlock.size).sum_eq
  have huseds : useds l' = b.used + useds l := (hperm.map PoolBlock.used).sum_eq
  have hbound := sizes_le hblocks hdistinct
  obtain ⟨-, -, htotal, husedSize, hfree⟩ := h
  refine ⟨hblocks, hdistinct, ?_, ?_, ?_⟩
  · unfold wrap
    dsimp only
    omega
  · dsimp only
    omega
  · unfold wrap
    dsimp only
    omega

/-- A block of another size than the counted one is noticed in the total. -/
theorem Books.total_ne (h : Books l stats) (hperm : l'.Perm (b :: l))
    (hok : BlockOk b) (hid : b.id = l.length)
    (hapart : ∀ c ∈ l, b.endPtr ≤ c.start ∨ c.endPtr ≤ b.start)
    (hused : b.used = 0) (hsize : size < 2 ^ 64) (hne : b.size ≠ size) :
    wrap (stats.totalSize + size) ≠ sizes l' := by
  have hadd := h.add hperm hok hid hapart hused
  have hbound := sizes_le hadd.blocks hadd.distinct
  have hsizes : sizes l' = b.size + sizes l := (hperm.map PoolBlock.size).sum_eq
  have htotal := h.total
  unfold wrap
  omega

end Changes

section Alloc

variable {p : NvPool} {b : PoolBlock} {size : Nat}

theorem blockCreate_size {offer : Option Nat} (h : nvPoolBlockCreate p size offer = some b) :
    b.size = nvPoolAlignSize size ∧ b.used = 0 := by
  unfold nvPoolBlockCreate at h
  obtain ⟨a, -, rfl⟩ := Option.map_eq_some_iff.mp h
  exact ⟨rfl, rfl⟩

theorem blockAlloc_frame {b' : PoolBlock} {q : Nat} (h : nvPoolBlockAlloc b size = some (b', q)) :
    b'.id = b.id ∧ b'.size = b.size := by
  unfold nvPoolBlockAlloc at h
  split at h
  · cases h
  · simp only [Option.some.injEq, Prod.mk.injEq] at h
    obtain ⟨rfl, -⟩ := h
    exact ⟨rfl, rfl⟩

/-- A new block has room for any request up to its size. -/
theorem serve_new (hused : b.used = 0) (hsize : size < 2 ^ 64)
    (hroom : size ≤ b.size) : serve size b = nvPoolBlockAlloc b size := by
  have hwrap : wrap (b.used + size) = size := by
    rw [hused, Nat.zero_add]
    exact Nat.mod_eq_of_lt hsize
  rw [serve, hwrap, if_pos hroom]

/-- A block that the request makes the pool add is not rounded up. -/
def CountsRight (p : NvPool) (n : Nat) (offer : Option Nat) : Prop :=
  n ≠ 0 → p.addsBlock (nvPoolAlignSize n) offer →
    nvPoolAlignSize (p.newSize (nvPoolAlignSize n)) = p.newSize (nvPoolAlignSize n)

/-- What a call does to the books: it keeps them, or the total is wrong. -/
structure BooksAfter (p : NvPool) (right : Prop) : Prop where
  keeps : right → Books p.all p.stats
  breaks : ¬ right → p.stats.totalSize ≠ sizes p.all

theorem BooksAfter.of_books {right : Prop} (h : Books p.all p.stats) (hright : right) :
    BooksAfter p right :=
  ⟨fun _ => h, fun hnot => absurd hright hnot⟩

theorem newSize_lt (hmin : p.minSize < 2 ^ 64) (n : Nat) :
    p.newSize (nvPoolAlignSize n) < 2 ^ 64 := by
  have := alignSize_lt n
  unfold NvPool.newSize
  split <;> omega

theorem Books.placeIn (h : Books p.all p.stats) (hb : b ∈ p.all) (hused : b.used = 0)
    (hsize : size < 2 ^ 64) (hroom : size ≤ b.size) :
    Books (p.placeIn b size).1.all (p.placeIn b size).1.stats := by
  unfold NvPool.placeIn
  cases halloc : nvPoolBlockAlloc b size with
  | none => exact h
  | some result =>
      obtain ⟨b', q⟩ := result
      rw [← serve_new hused hsize hroom] at halloc
      have hserve := h.serve hb hsize halloc
      rw [← all_setBlock] at hserve
      exact hserve

theorem placeIn_total (hdistinct : (p.all.map PoolBlock.id).Nodup) (hb : b ∈ p.all) (size : Nat) :
    (p.placeIn b size).1.stats.totalSize = p.stats.totalSize ∧
      sizes (p.placeIn b size).1.all = sizes p.all := by
  unfold NvPool.placeIn
  cases halloc : nvPoolBlockAlloc b size with
  | none => exact ⟨rfl, rfl⟩
  | some result =>
      obtain ⟨b', q⟩ := result
      obtain ⟨hid, hsz⟩ := blockAlloc_frame halloc
      dsimp only
      rw [all_updateStats, all_setBlock]
      exact ⟨rfl, sizes_replaceBlock hdistinct hb hid hsz⟩

/-- The pool counts the size that it asked for, and the block has that size rounded up. -/
theorem Books.placeIn_added (h : Books p.all p.stats) {p' : NvPool} {m : Nat} {offer : Option Nat}
    (hcreate : nvPoolBlockCreate p m offer = some b) (hperm : p'.all.Perm (b :: p.all))
    (hstats : p'.stats = p.stats) (hm : m < 2 ^ 64) (hsize : size ≤ m) :
    BooksAfter ((p'.countBlock m).placeIn b size).1 (nvPoolAlignSize m = m) := by
  obtain ⟨hok, hid, hapart⟩ := blockCreate_spec hcreate
  obtain ⟨hsz, hused⟩ := blockCreate_size hcreate
  have hadd := h.add hperm hok hid hapart hused
  have hmem : b ∈ (p'.countBlock m).all := hperm.mem_iff.mpr List.mem_cons_self
  constructor
  · intro hright
    rw [hright] at hsz
    rw [hsz, ← hstats] at hadd
    have hcount : Books (p'.countBlock m).all (p'.countBlock m).stats := hadd
    exact hcount.placeIn hmem hused (Nat.lt_of_le_of_lt hsize hm) (hsz ▸ hsize)
  · intro hwrong
    have hne : b.size ≠ m := fun heq => hwrong (hsz.symm.trans heq)
    have hbad := h.total_ne hperm hok hid hapart hused hm hne
    obtain ⟨htotal, hsizes⟩ := placeIn_total (by exact hadd.distinct) hmem size
    rw [htotal, hsizes]
    rw [← hstats] at hbad
    exact hbad

theorem Books.alloc
    (h : Books p.all p.stats) (hmin : p.minSize < 2 ^ 64) (n : Nat) (offer : Option Nat) :
    BooksAfter (nvPoolAlloc p n offer).1 (CountsRight p n offer) := by
  have hcase := nvPoolAlloc_cases p n offer
  generalize nvPoolAlloc p n offer = outcome at hcase
  cases hcase with
  | refused hadds => exact .of_books h fun hn hadd => absurd hadd (hadds hn)
  | served hb hserve current =>
      have hbooks := h.serve (List.mem_append_left _ hb) (alignSize_lt n) hserve
      rw [← all_setBlock] at hbooks
      refine .of_books hbooks ?_
      -- a block that serves is a reason why no block is added
      rintro - ⟨hroom, -⟩
      rw [hroom _ hb] at hserve
      cases hserve
  | added hn hadds hcreate =>
      have hright : CountsRight p n offer ↔ nvPoolAlignSize (p.newSize (nvPoolAlignSize n)) =
          p.newSize (nvPoolAlignSize n) :=
        ⟨fun hcounts => hcounts hn hadds, fun heq _ _ => heq⟩
      rw [hright]
      refine h.placeIn_added hcreate ?_ rfl (newSize_lt hmin n) (le_newSize p _)
      exact List.Perm.refl _
  | large hadds hcreate =>
      have hafter := h.placeIn_added hcreate (perm_large p _) rfl (alignSize_lt n) (Nat.le_refl _)
      exact .of_books (hafter.keeps (alignSize_alignSize n)) fun _ hadd => absurd hadd hadds

end Alloc

section Calls

/-- The pool and the memory it was carved from. -/
structure PoolMemory where
  pool : NvPool
  mem : Nat → UInt8

/-- The calls that change a pool; `offer` is what `malloc` finds if it is asked. -/
inductive PoolCall where
  | alloc (n : Nat) (offer : Option Nat)
  | calloc (nmemb size : Nat) (offer : Option Nat)
  | realloc (ptr : Option Nat) (n : Nat) (offer : Option Nat)
  | align (size alignment : Nat) (offer : Option Nat)
  | free (ptr : Option Nat)
  | extend (size : Nat) (offer : Option Nat)
  | reset
  | resetStats

def poolCallStep (s : PoolMemory) : PoolCall → PoolMemory
  | .alloc n offer => { s with pool := (nvPoolAlloc s.pool n offer).1 }
  | .calloc nmemb size offer =>
      let (pool, mem, _) := nvPoolCalloc s.pool s.mem nmemb size offer
      { pool := pool, mem := mem }
  | .realloc ptr n offer =>
      let (pool, mem, _) := nvPoolRealloc s.pool s.mem ptr n offer
      { pool := pool, mem := mem }
  | .align size alignment offer =>
      { s with pool := (nvPoolAlign s.pool size alignment offer).1 }
  | .free ptr => { s with pool := (nvPoolFree s.pool ptr).1 }
  | .extend size offer => { s with pool := (nvPoolExtend s.pool size offer).1 }
  | .reset => { s with pool := nvPoolReset s.pool }
  | .resetStats => { s with pool := nvPoolResetStats s.pool }

/--
The condition on a call: a block that it makes `nv_pool_alloc` add is not rounded
up, and the statistics are reset only while the blocks hold no byte.
-/
def CallCounts (s : PoolMemory) : PoolCall → Prop
  | .alloc n offer => CountsRight s.pool n offer
  | .calloc nmemb size offer => CountsRight s.pool (wrap (nmemb * size)) offer
  | .realloc none n offer => CountsRight s.pool n offer
  | .realloc (some ptr) n offer =>
      fitsInPlace s.pool ptr n = false → CountsRight s.pool n offer
  | .align size alignment offer => CountsRight s.pool (alignedSize size alignment) offer
  | .free _ => True
  | .extend _ _ => True
  | .reset => True
  | .resetStats => ∀ b ∈ s.pool.all, b.size = 0

theorem calloc_pool (s : PoolMemory) (nmemb size : Nat) (offer : Option Nat) :
    (poolCallStep s (.calloc nmemb size offer)).pool =
      (nvPoolAlloc s.pool (wrap (nmemb * size)) offer).1 := by
  simp only [poolCallStep, nvPoolCalloc]
  rcases nvPoolAlloc s.pool (wrap (nmemb * size)) offer with ⟨pool, _ | ptr⟩
  · rfl
  · rfl

theorem realloc_pool_cases (s : PoolMemory) (ptr n : Nat) (offer : Option Nat) :
    n = 0 ∧ (poolCallStep s (.realloc (some ptr) n offer)).pool =
        (nvPoolFree s.pool (some ptr)).1 ∨
      fitsInPlace s.pool ptr n = true ∧
        (poolCallStep s (.realloc (some ptr) n offer)).pool = s.pool ∨
      fitsInPlace s.pool ptr n = false ∧
        ((poolCallStep s (.realloc (some ptr) n offer)).pool =
            (nvPoolAlloc s.pool n offer).1 ∨
          (poolCallStep s (.realloc (some ptr) n offer)).pool =
            (nvPoolFree (nvPoolAlloc s.pool n offer).1 (some ptr)).1) := by
  by_cases hzero : n = 0
  · exact Or.inl ⟨hzero, by simp [poolCallStep, nvPoolRealloc, hzero]⟩
  · refine Or.inr ?_
    simp only [poolCallStep, nvPoolRealloc, fitsInPlace, if_neg hzero]
    cases s.pool.holder ptr with
    | none => exact Or.inr ⟨rfl, Or.inl rfl⟩
    | some b =>
        by_cases hroom : n ≤ b.room ptr
        · exact Or.inl ⟨by simp [hroom], by simp [hroom]⟩
        · refine Or.inr ⟨by simp [hroom], ?_⟩
          simp only [if_neg hroom]
          rcases nvPoolAlloc s.pool n offer with ⟨pool, _ | q⟩
          · exact Or.inl rfl
          · exact Or.inr rfl

theorem poolCallStep_preserves {Q : NvPool → Prop}
    (halloc : ∀ p n offer, Q p → Q (nvPoolAlloc p n offer).1)
    (hfree : ∀ p ptr, Q p → Q (nvPoolFree p ptr).1)
    (hextend : ∀ p size offer, Q p → Q (nvPoolExtend p size offer).1)
    (hreset : ∀ p, Q p → Q (nvPoolReset p)) (hresetStats : ∀ p, Q p → Q (nvPoolResetStats p))
    (s : PoolMemory) (a : PoolCall) (hs : Q s.pool) : Q (poolCallStep s a).pool := by
  cases a with
  | alloc n offer => exact halloc s.pool n offer hs
  | calloc nmemb size offer =>
      rw [calloc_pool]
      exact halloc s.pool _ offer hs
  | realloc ptr n offer =>
      have hpool := halloc s.pool n offer hs
      cases ptr with
      | none => exact hpool
      | some ptr =>
          rcases realloc_pool_cases s ptr n offer with
            ⟨-, hstep⟩ | ⟨-, hstep⟩ | ⟨-, hstep | hstep⟩
          · exact hstep ▸ hfree s.pool (some ptr) hs
          · exact hstep ▸ hs
          · exact hstep ▸ hpool
          · exact hstep ▸ hfree _ (some ptr) hpool
  | align size alignment offer => exact halloc s.pool (alignedSize size alignment) offer hs
  | free ptr => exact hfree s.pool ptr hs
  | extend size offer => exact hextend s.pool size offer hs
  | reset => exact hreset s.pool hs
  | resetStats => exact hresetStats s.pool hs

/-- The fields of a pool that only its configuration sets. -/
def NvPool.settings (p : NvPool) : Nat × Bool := (p.minSize, p.zeroClear)

theorem settings_placeIn (p : NvPool) (b : PoolBlock) (size : Nat) :
    (p.placeIn b size).1.settings = p.settings := by
  unfold NvPool.placeIn
  cases nvPoolBlockAlloc b size with
  | none => rfl
  | some result => rfl

theorem settings_alloc (p : NvPool) (n : Nat) (offer : Option Nat) :
    (nvPoolAlloc p n offer).1.settings = p.settings := by
  have hcase := nvPoolAlloc_cases p n offer
  generalize nvPoolAlloc p n offer = outcome at hcase
  cases hcase with
  | refused hadds => rfl
  | served hb hserve current => rfl
  | added hn hadds hcreate => exact settings_placeIn _ _ _
  | large hadds hcreate => exact settings_placeIn _ _ _

theorem settings_free (p : NvPool) (ptr : Option Nat) :
    (nvPoolFree p ptr).1.settings = p.settings := by
  unfold nvPoolFree
  split <;> rfl

theorem settings_extend (p : NvPool) (size : Nat) (offer : Option Nat) :
    (nvPoolExtend p size offer).1.settings = p.settings := by
  rcases nvPoolExtend_cases p size offer with hstep | ⟨block, -, hstep⟩
  · rw [hstep]
  · rw [hstep]
    rfl

theorem settings_call (s : PoolMemory) (a : PoolCall) :
    (poolCallStep s a).pool.settings = s.pool.settings := by
  refine poolCallStep_preserves (Q := fun p => p.settings = s.pool.settings) ?_ ?_ ?_ ?_ ?_ s a rfl
  · exact fun p n offer hp => (settings_alloc p n offer).trans hp
  · exact fun p ptr hp => (settings_free p ptr).trans hp
  · exact fun p size offer hp => (settings_extend p size offer).trans hp
  · exact fun p hp => hp
  · exact fun p hp => hp

theorem minSize_call (s : PoolMemory) (a : PoolCall) :
    (poolCallStep s a).pool.minSize = s.pool.minSize :=
  congrArg Prod.fst (settings_call s a)

variable {s : PoolMemory}

/-- The counters agree with the blocks, and `min_size` is a `size_t`. -/
structure StatsInv (s : PoolMemory) : Prop where
  books : Books s.pool.all s.pool.stats
  minSize : s.pool.minSize < 2 ^ 64

theorem BooksAfter.free {p : NvPool} {right : Prop} (h : BooksAfter p right) (ptr : Option Nat) :
    BooksAfter (nvPoolFree p ptr).1 right := by
  unfold nvPoolFree
  split
  · constructor
    · intro hright
      obtain ⟨hblocks, hdistinct, htotal, hused, hfree⟩ := h.keeps hright
      exact ⟨hblocks, hdistinct, htotal, hused, hfree⟩
    · exact h.breaks
  · exact h

/-- What a call has to show. -/
structure CallBooks (s : PoolMemory) (a : PoolCall) : Prop where
  after : BooksAfter (poolCallStep s a).pool (CallCounts s a)
  minSize : (poolCallStep s a).pool.minSize = s.pool.minSize

theorem StatsInv.realloc (h : StatsInv s) (ptr n : Nat) (offer : Option Nat) :
    BooksAfter (poolCallStep s (.realloc (some ptr) n offer)).pool
      (CallCounts s (.realloc (some ptr) n offer)) := by
  have halloc := h.books.alloc h.minSize n offer
  rcases realloc_pool_cases s ptr n offer with
    ⟨hzero, hstep⟩ | ⟨hfits, hstep⟩ | ⟨hfits, hmoved⟩
  · have hright : CallCounts s (.realloc (some ptr) n offer) := fun _ hn => absurd hzero hn
    rw [hstep]
    exact (BooksAfter.of_books h.books hright).free _
  · have hright : CallCounts s (.realloc (some ptr) n offer) := by
      simp [CallCounts, hfits]
    rw [hstep]
    exact .of_books h.books hright
  · have hcond : CallCounts s (.realloc (some ptr) n offer) ↔ CountsRight s.pool n offer := by
      simp [CallCounts, hfits]
    rw [hcond]
    rcases hmoved with hstep | hstep
    · exact hstep ▸ halloc
    · exact hstep ▸ halloc.free _

theorem Books.extend {p : NvPool} (h : Books p.all p.stats) (size : Nat) (offer : Option Nat) :
    Books (nvPoolExtend p size offer).1.all (nvPoolExtend p size offer).1.stats := by
  rcases nvPoolExtend_cases p size offer with hstep | ⟨block, hcreate, hstep⟩
  · rw [hstep]
    exact h
  · obtain ⟨hok, hid, hapart⟩ := blockCreate_spec hcreate
    obtain ⟨hsz, hused⟩ := blockCreate_size hcreate
    rw [alignSize_alignSize] at hsz
    have hadd := h.add (List.Perm.refl (block :: p.all)) hok hid hapart hused
    rw [hsz] at hadd
    rw [hstep]
    exact hadd

/-- `nv_pool_reset` moves every bump pointer back. -/
theorem Books.reset {p : NvPool} (h : Books p.all p.stats) :
    Books (nvPoolReset p).all (nvPoolReset p).stats := by
  have hall : (nvPoolReset p).all = p.all.map PoolBlock.reset := by
    simp [nvPoolReset, NvPool.all]
  have hsizes : sizes (p.all.map PoolBlock.reset) = sizes p.all := by
    unfold sizes
    rw [List.map_map]
    rfl
  have huseds : useds (p.all.map PoolBlock.reset) = 0 := by
    rw [useds_eq_zero_iff]
    intro b hb
    obtain ⟨c, -, rfl⟩ := List.mem_map.mp hb
    rfl
  have hids : (p.all.map PoolBlock.reset).map PoolBlock.id = p.all.map PoolBlock.id := by
    rw [List.map_map]
    rfl
  rw [hall]
  refine ⟨h.blocks.reset, hids ▸ h.distinct, ?_, huseds.symm, ?_⟩
  · rw [hsizes]
    exact h.total
  · exact Nat.add_zero _

theorem StatsInv.resetStats (h : StatsInv s) :
    BooksAfter (nvPoolResetStats s.pool) (CallCounts s .resetStats) := by
  have hsizes : sizes s.pool.all = 0 ↔ ∀ b ∈ s.pool.all, b.size = 0 := by
    simp [sizes, List.sum_eq_zero_iff]
  constructor
  · intro hempty
    have hzero := hsizes.mpr hempty
    have hle := useds_le h.books.blocks.ok
    refine ⟨h.books.blocks, h.books.distinct, hzero.symm, ?_, rfl⟩
    exact (Nat.le_zero.mp (hzero ▸ hle)).symm
  · intro hbytes heq
    exact hbytes (hsizes.mp heq.symm)

/-- Step lemma: what every call does to the books. -/
theorem StatsInv.call (h : StatsInv s) (a : PoolCall) : CallBooks s a := by
  refine ⟨?_, minSize_call s a⟩
  have halloc := h.books.alloc h.minSize
  cases a with
  | alloc n offer => exact halloc n offer
  | calloc nmemb size offer =>
      rw [calloc_pool]
      exact halloc _ offer
  | realloc ptr n offer =>
      cases ptr with
      | none => exact halloc n offer
      | some ptr => exact h.realloc ptr n offer
  | align size alignment offer => exact halloc (alignedSize size alignment) offer
  | free ptr => exact (BooksAfter.of_books h.books trivial).free ptr
  | extend size offer => exact .of_books (h.books.extend size offer) trivial
  | reset => exact .of_books h.books.reset trivial
  | resetStats => exact h.resetStats

theorem StatsInv.exact_iff (h : StatsInv s) (a : PoolCall) :
    StatsExact (poolCallStep s a).pool ↔ CallCounts s a := by
  obtain ⟨hkeeps, hbreaks⟩ := (h.call a).after
  constructor
  · intro hexact
    by_contra hwrong
    exact hbreaks hwrong hexact.total
  · intro hright
    exact (hkeeps hright).exact

theorem StatsInv.step (h : StatsInv s) (a : PoolCall) (hright : CallCounts s a) :
    StatsInv (poolCallStep s a) := by
  obtain ⟨hafter, hmin⟩ := h.call a
  exact ⟨hafter.keeps hright, hmin ▸ h.minSize⟩

end Calls

/-- A new pool is counted right exactly if its first block is not rounded up. -/
theorem nvPoolCreate_books {config : PoolConfig} {offer : Option Nat} {pool : NvPool}
    (h : nvPoolCreate config offer = some pool) :
    BooksAfter pool (nvPoolAlignSize config.initialSize = config.initialSize) ∧
      pool.minSize = config.minSize := by
  have hempty : Books [] clearedStats :=
    ⟨⟨by simp, by simp, by simp, by simp⟩, List.nodup_nil, rfl, rfl, rfl⟩
  unfold nvPoolCreate at h
  dsimp only at h
  split at h
  · rename_i hzero
    cases h
    refine ⟨.of_books hempty ?_, rfl⟩
    rw [hzero]
    decide
  · obtain ⟨block, hcreate, rfl⟩ := Option.map_eq_some_iff.mp h
    obtain ⟨hok, hid, hapart⟩ := blockCreate_spec hcreate
    obtain ⟨hsz, hused⟩ := blockCreate_size hcreate
    have hsizes : sizes [block] = block.size := Nat.add_zero _
    refine ⟨⟨?_, ?_⟩, rfl⟩
    · intro hright
      rw [hright] at hsz
      have hadd := hempty.add (List.Perm.refl [block]) hok hid hapart hused
      obtain ⟨hblocks, hdistinct, -, huseds, -⟩ := hadd
      exact ⟨hblocks, hdistinct, hsz.symm.trans hsizes.symm, huseds, rfl⟩
    · intro hwrong htotal
      exact hwrong (hsz.symm.trans (hsizes.symm.trans htotal.symm))

/--
For every configuration and every sequence of calls: the new pool and every call
leave exact statistics, and `nv_pool_is_full` and `nv_pool_is_empty` tell the
truth, exactly if `initial_size` is not rounded up and each call meets
`CallCounts`.
-/
theorem nvPool_stats_exact_iff
    (config : PoolConfig)
    (hmin : config.minSize < 2 ^ 64)
    (offer : Option Nat)
    (pool : NvPool)
    (hcreate : nvPoolCreate config offer = some pool)
    (mem : Nat → UInt8)
    (as : List PoolCall) :
    (StatsExact pool ∧ Transition.Along poolCallStep
        (fun s a => StatsExact (poolCallStep s a).pool) ⟨pool, mem⟩ as) ↔
      (nvPoolAlignSize config.initialSize = config.initialSize ∧
        Transition.Along poolCallStep CallCounts ⟨pool, mem⟩ as) := by
  obtain ⟨hbooks, hminSize⟩ := nvPoolCreate_books hcreate
  have hnew : StatsExact pool ↔
      nvPoolAlignSize config.initialSize = config.initialSize := by
    constructor
    · intro hexact
      by_contra hwrong
      exact hbooks.breaks hwrong hexact.total
    · intro hright
      exact (hbooks.keeps hright).exact
  rw [hnew]
  refine and_congr_right fun hright => ?_
  have hinit : StatsInv ⟨pool, mem⟩ := ⟨hbooks.keeps hright, hminSize ▸ hmin⟩
  exact Transition.along_iff_along_of_inv hinit
    (fun s a h hok => h.step a hok) (fun s a h => h.exact_iff a) as

theorem nvPool_default_stats_exact :
    StatsExact defaultPool ∧ Transition.Along poolCallStep
      (fun s a => StatsExact (poolCallStep s a).pool) ⟨defaultPool, fun _ => 0⟩
      [.alloc 100 none, .extend 10 (some 65536), .align 5 16 none, .reset] := by
  refine (nvPool_stats_exact_iff nvPoolConfigDefault (by decide) (some 4096) defaultPool
    defaultPool_eq _ _).mpr ⟨by decide, ?_, trivial, ?_, trivial, trivial⟩
  · intro _ _
    decide
  · intro _ _
    decide +kernel

/-- A first block of ten bytes, which is rounded up to sixteen. -/
def unalignedConfig : PoolConfig := { nvPoolConfigDefault with initialSize := 10 }

/-- Sixteen bytes of a pool that counts ten: the free size wraps and a full pool is not full. -/
theorem unaligned_initialSize_free_wraps :
    ∃ pool, nvPoolCreate unalignedConfig (some 4096) = some pool ∧ ¬ StatsExact pool ∧
      ∃ pool', pool' = (poolCallStep ⟨pool, fun _ => 0⟩ (.alloc 16 none)).pool ∧
        pool'.stats.freeSize = 2 ^ 64 - 6 ∧ nvPoolIsFull pool' = false ∧
        ∀ b ∈ pool'.all, b.used = b.size := by
  refine ⟨_, rfl, ?_, _, rfl, by decide +kernel, by decide +kernel, by decide +kernel⟩
  intro hexact
  exact absurd hexact.total (by decide)

end Libnv.Pool
