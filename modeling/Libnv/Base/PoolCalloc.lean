import Libnv.Base.PoolStats

/-!
# `nv_pool_calloc`

`nv_pool_calloc` multiplies on `size_t`, asks `nv_pool_alloc` for the product and
clears the bytes only if the pool was configured to.  A pool hands out the memory
below the bump pointers again after `nv_pool_reset`, with whatever was written to
it.

The blocks stay in order under any calls, also those whose sizes wrap, as long as
`min_size` can be rounded up; then a request that does not wrap lies in one block.
-/

namespace Libnv.Pool

section Blocks

variable {p : NvPool}

theorem BlocksOk.serve {l : List PoolBlock} (hl : BlocksOk l) {b b' : PoolBlock} (hb : b ∈ l)
    {size q : Nat} (hserve : serve size b = some (b', q)) : BlocksOk (replaceBlock b' l) := by
  obtain ⟨hok, hid, hstart, hend, -, -⟩ := serve_spec (hl.ok b hb) hserve
  exact hl.replace hb hid hstart hend hok

theorem alignSize_newSize_ge (hmin : p.minSize + 7 < 2 ^ 64) (n : Nat) :
    nvPoolAlignSize n ≤ nvPoolAlignSize (p.newSize (nvPoolAlignSize n)) := by
  unfold NvPool.newSize
  split
  · rw [alignSize_alignSize]
  · have hwrap : wrap (p.minSize + 7) = p.minSize + 7 := Nat.mod_eq_of_lt hmin
    unfold nvPoolAlignSize at *
    rw [hwrap]
    omega

theorem BlocksOk.placeIn (hl : BlocksOk p.all) {b : PoolBlock} (hb : b ∈ p.all) (hused : b.used = 0)
    {size : Nat} (hlt : size < 2 ^ 64) (hroom : size ≤ b.size) :
    BlocksOk (p.placeIn b size).1.all := by
  unfold NvPool.placeIn
  cases halloc : nvPoolBlockAlloc b size with
  | none => exact hl
  | some result =>
      obtain ⟨b', q⟩ := result
      rw [← serve_new hused hlt hroom] at halloc
      have hserve := hl.serve hb halloc
      rw [← all_setBlock] at hserve
      exact hserve

theorem BlocksOk.alloc
    (hl : BlocksOk p.all) (hmin : p.minSize + 7 < 2 ^ 64) (n : Nat) (offer : Option Nat) :
    BlocksOk (nvPoolAlloc p n offer).1.all := by
  have hcase := nvPoolAlloc_cases p n offer
  generalize nvPoolAlloc p n offer = outcome at hcase
  cases hcase with
  | refused hadds => exact hl
  | served hb hserve current =>
      have hblocks := hl.serve (List.mem_append_left _ hb) hserve
      rw [← all_setBlock] at hblocks
      exact hblocks
  | added hn hadds hcreate =>
      obtain ⟨hsz, hused⟩ := blockCreate_size hcreate
      refine BlocksOk.placeIn ?_ ?_ hused (alignSize_lt n) ?_
      · exact hl.create hcreate (List.Perm.refl _)
      · exact List.mem_cons_self
      · exact hsz ▸ alignSize_newSize_ge hmin n
  | large hadds hcreate =>
      obtain ⟨hsz, hused⟩ := blockCreate_size hcreate
      refine BlocksOk.placeIn ?_ ?_ hused (alignSize_lt n) ?_
      · exact hl.create hcreate (perm_large p _)
      · exact (perm_large p _).mem_iff.mpr List.mem_cons_self
      · exact (hsz.trans (alignSize_alignSize n)).ge

theorem BlocksOk.extend (hl : BlocksOk p.all) (size : Nat) (offer : Option Nat) :
    BlocksOk (nvPoolExtend p size offer).1.all := by
  rcases nvPoolExtend_cases p size offer with hstep | ⟨block, hcreate, hstep⟩
  · rw [hstep]
    exact hl
  · rw [hstep]
    exact hl.create hcreate (List.Perm.refl _)

/-- Blocks in order, and a `min_size` that can be rounded up. -/
structure PoolOk (p : NvPool) : Prop where
  blocks : BlocksOk p.all
  minSize : p.minSize + 7 < 2 ^ 64

theorem PoolOk.call {s : PoolMemory} (hs : PoolOk s.pool) (a : PoolCall) :
    PoolOk (poolCallStep s a).pool := by
  refine poolCallStep_preserves ?_ ?_ ?_ ?_ ?_ s a hs
  · intro p n offer hp
    have hmin : (nvPoolAlloc p n offer).1.minSize = p.minSize :=
      congrArg Prod.fst (settings_alloc p n offer)
    exact ⟨hp.blocks.alloc hp.minSize n offer, hmin ▸ hp.minSize⟩
  · intro p ptr hp
    have hmin : (nvPoolFree p ptr).1.minSize = p.minSize :=
      congrArg Prod.fst (settings_free p ptr)
    exact ⟨by rw [all_free]; exact hp.blocks, hmin ▸ hp.minSize⟩
  · intro p size offer hp
    have hmin : (nvPoolExtend p size offer).1.minSize = p.minSize :=
      congrArg Prod.fst (settings_extend p size offer)
    exact ⟨hp.blocks.extend size offer, hmin ▸ hp.minSize⟩
  · intro p hp
    have hall : (nvPoolReset p).all = p.all.map PoolBlock.reset := by
      simp [nvPoolReset, NvPool.all]
    exact ⟨hall ▸ hp.blocks.reset, hp.minSize⟩
  · intro p hp
    exact ⟨hp.blocks, hp.minSize⟩

end Blocks

section Addresses

variable {p : NvPool} {b b' : PoolBlock} {offer : Option Nat} {q size : Nat}

/-- The addresses at which a request can be served: the bump pointers of the normal blocks and
the memory that `malloc` offers. -/
def serveAddrs (p : NvPool) (offer : Option Nat) : List Nat :=
  p.blocks.map PoolBlock.current ++ offer.toList

theorem blockAlloc_addr (h : nvPoolBlockAlloc b size = some (b', q)) : q = b.current := by
  unfold nvPoolBlockAlloc at h
  split at h
  · cases h
  · simp only [Option.some.injEq, Prod.mk.injEq] at h
    exact h.2.symm

theorem serve_addr_mem (hb : b ∈ p.blocks)
    (hserve : serve size b = some (b', q)) (offer : Option Nat) : q ∈ serveAddrs p offer := by
  rw [blockAlloc_addr (serve_eq_some hserve)]
  exact List.mem_append_left _ (List.mem_map_of_mem hb)

theorem blockCreate_addr_mem {m : Nat} (hcreate : nvPoolBlockCreate p m offer = some b)
    (halloc : nvPoolBlockAlloc b size = some (b', q)) : q ∈ serveAddrs p offer := by
  rw [blockAlloc_addr halloc]
  unfold nvPoolBlockCreate nvMalloc at hcreate
  obtain ⟨a, ha, rfl⟩ := Option.map_eq_some_iff.mp hcreate
  obtain ⟨hoffer, -⟩ := Option.filter_eq_some_iff.mp ha
  rw [hoffer]
  exact List.mem_append_right _ (List.mem_singleton.mpr rfl)

theorem placeIn_addr_mem {p' : NvPool} {m : Nat}
    (hcreate : nvPoolBlockCreate p m offer = some b) (h : (p'.placeIn b size).2 = some q) :
    q ∈ serveAddrs p offer := by
  unfold NvPool.placeIn at h
  cases halloc : nvPoolBlockAlloc b size with
  | none =>
      rw [halloc] at h
      cases h
  | some result =>
      obtain ⟨b', q'⟩ := result
      rw [halloc] at h
      obtain rfl : q' = q := Option.some.inj h
      exact blockCreate_addr_mem hcreate halloc

theorem nvPoolAlloc_addr_mem {n : Nat} (h : (nvPoolAlloc p n offer).2 = some q) :
    q ∈ serveAddrs p offer := by
  have hcase := nvPoolAlloc_cases p n offer
  generalize nvPoolAlloc p n offer = outcome at hcase h
  cases hcase with
  | refused hadds => cases h
  | served hb hserve current =>
      obtain rfl := Option.some.inj h
      exact serve_addr_mem hb hserve offer
  | added hn hadds hcreate => exact placeIn_addr_mem hcreate h
  | large hadds hcreate => exact placeIn_addr_mem hcreate h

end Addresses

/-- What happens to a pool and its memory: a call, or a write by its user. -/
inductive MemoryAction where
  | call (c : PoolCall)
  | write (addr : Nat) (byte : UInt8)

/-- One action. -/
def memoryStep (s : PoolMemory) : MemoryAction → PoolMemory
  | .call c => poolCallStep s c
  | .write addr byte => { s with mem := Function.update s.mem addr byte }

def ZeroBytes (mem : Nat → UInt8) (q n : Nat) : Prop := ∀ a, q ≤ a → a < q + n → mem a = 0

/-- A pointer returned by `nv_pool_calloc` has `nmemb * size` zero bytes in one block. -/
def CallocSound (s : PoolMemory) : MemoryAction → Prop
  | .call (.calloc nmemb size offer) =>
      ∀ pool mem q, nvPoolCalloc s.pool s.mem nmemb size offer = (pool, mem, some q) →
        (∃ b ∈ pool.all, b.start ≤ q ∧ q + nmemb * size ≤ b.endPtr) ∧
          ZeroBytes mem q (nmemb * size)
  | _ => True

/-- The product is small enough for an object, and the pool clears memory or the request can only
be served from memory that is zero. -/
def CallocOk (s : PoolMemory) : MemoryAction → Prop
  | .call (.calloc nmemb size offer) =>
      nmemb * size + 8 ≤ 2 ^ 63 ∧
        (s.pool.zeroClear = true ∨
          ∀ q ∈ serveAddrs s.pool offer, ZeroBytes s.mem q (nmemb * size))
  | _ => True

theorem memset_zeroBytes (mem : Nat → UInt8) (q n : Nat) : ZeroBytes (memset mem q n) q n :=
  fun _ hlo hhi => if_pos ⟨hlo, hhi⟩

theorem PoolOk.calloc_sound
    {s : PoolMemory} (hs : PoolOk s.pool) {nmemb size : Nat} {offer : Option Nat}
    (hok : CallocOk s (.call (.calloc nmemb size offer))) :
    CallocSound s (.call (.calloc nmemb size offer)) := by
  obtain ⟨hfits, hzero⟩ := hok
  intro pool mem q hcall
  have hwrap : wrap (nmemb * size) = nmemb * size := Nat.mod_eq_of_lt (by omega)
  obtain ⟨hspec, -⟩ := nvPoolAlloc_spec hs.blocks hfits offer
  have hclear : (nvPoolAlloc s.pool (nmemb * size) offer).1.zeroClear = s.pool.zeroClear :=
    congrArg Prod.snd (settings_alloc s.pool (nmemb * size) offer)
  rw [nvPoolCalloc, hwrap] at hcall
  rcases hcase : nvPoolAlloc s.pool (nmemb * size) offer with ⟨pool', _ | q'⟩
  · rw [hcase] at hcall
    cases hcall
  · have hserved : q' ∈ serveAddrs s.pool offer := nvPoolAlloc_addr_mem (congrArg Prod.snd hcase)
    rw [hcase] at hcall hspec hclear
    simp only [Prod.mk.injEq, Option.some.injEq] at hcall
    obtain ⟨rfl, rfl, rfl⟩ := hcall
    obtain ⟨b, hb, hstart, -, -, hend, -⟩ := hspec.carved q' rfl
    refine ⟨⟨b, hb, hstart, hend⟩, ?_⟩
    by_cases hc : pool'.zeroClear = true
    · rw [if_pos hc]
      exact memset_zeroBytes s.mem q' (nmemb * size)
    · rw [if_neg hc]
      refine hzero.resolve_left ?_ q' hserved
      rw [← hclear]
      exact hc

theorem PoolOk.step {s : PoolMemory} (hs : PoolOk s.pool) (a : MemoryAction) (hok : CallocOk s a) :
    CallocSound s a ∧ PoolOk (memoryStep s a).pool := by
  cases a with
  | write addr byte => exact ⟨trivial, hs⟩
  | call c =>
      refine ⟨?_, hs.call c⟩
      cases c with
      | calloc nmemb size offer => exact hs.calloc_sound hok
      | _ => trivial

/--
In every run of calls and writes from `nv_pool_create`, with a `min_size` that can be
rounded up to a multiple of eight: if every `nv_pool_calloc` asks for an exact product
of at most `2^63 - 8` bytes, in a pool that clears memory or finds it zero, then each
pointer that it returns has that many zero bytes in one block.
-/
theorem nvPoolCalloc_zeroed
    (config : PoolConfig)
    (hmin : config.minSize + 7 < 2 ^ 64)
    (offer : Option Nat)
    (pool : NvPool)
    (hcreate : nvPoolCreate config offer = some pool)
    (mem : Nat → UInt8)
    (as : List MemoryAction)
    (hok : Transition.Along memoryStep CallocOk ⟨pool, mem⟩ as) :
    Transition.Along memoryStep CallocSound ⟨pool, mem⟩ as := by
  let Inv : PoolMemory → Prop := fun s => PoolOk s.pool
  have hinit : Inv ⟨pool, mem⟩ :=
    ⟨(poolInv_create hcreate mem).blocks, (nvPoolCreate_books hcreate).2 ▸ hmin⟩
  have hstep : ∀ s a, Inv s → True → CallocOk s a → CallocSound s a ∧ Inv (memoryStep s a) :=
    fun _ a hs _ hgood => hs.step a hgood
  exact Transition.along_of_along hstep hinit (fun _ _ => trivial) hok

/-- New memory that is zero. -/
theorem nvPoolCalloc_zeroed_default :
    Transition.Along memoryStep CallocSound ⟨defaultPool, fun _ => 0⟩
      [.call (.alloc 100 none), .call (.calloc 4 8 none)] :=
  nvPoolCalloc_zeroed nvPoolConfigDefault (by decide) (some 4096) defaultPool defaultPool_eq _ _
    ⟨trivial, ⟨by decide, Or.inr fun _ _ _ _ _ => rfl⟩, trivial⟩

/-- A byte that was written before a reset comes back, and a product that wraps gets eight
bytes. -/
theorem nvPoolCalloc_dirty :
    ¬ Transition.Along memoryStep CallocSound ⟨defaultPool, fun _ => 0⟩
        [.call (.alloc 8 none), .write 4096 1, .call .reset, .call (.calloc 1 8 none)] ∧
      ¬ Transition.Along memoryStep CallocSound ⟨defaultPool, fun _ => 0⟩
        [.call (.calloc (2 ^ 61 + 1) 8 none)] := by
  constructor
  · rintro ⟨-, -, -, hcalloc, -⟩
    have hbytes := (hcalloc _ _ 4096 rfl).2 4096 (by decide) (by decide)
    exact absurd hbytes (by decide)
  · rintro ⟨hcalloc, -⟩
    obtain ⟨b, hb, -, hend⟩ := (hcalloc _ _ 4096 rfl).1
    have hall : ∀ b ∈ (nvPoolCalloc defaultPool (fun _ => 0) (2 ^ 61 + 1) 8 none).1.all,
        b.endPtr = 20480 := by
      decide
    rw [hall b hb] at hend
    omega

end Libnv.Pool
