import Libnv.Base.Status
import Libnv.Lib.Transition
import Mathlib.Data.List.Basic
import Mathlib.Algebra.Group.Nat.Defs

/-!
# The memory pool

A pool is a list of normal blocks and a list of large ones.  Memory is carved
off the front of a block by its bump pointer `current`; nothing is recorded per
allocation, and freeing only counts.  Addresses and sizes are naturals, and
`size_t` and pointer arithmetic wraps modulo `2 ^ 64`.

`nv_pool_realloc` grows a region in place as long as it stays inside its block.
It neither looks for other regions nor moves the bump pointer.
-/

namespace Libnv.Pool

/-- `size_t` and `char *` arithmetic. -/
def wrap (n : Nat) : Nat := n % 2 ^ 64

/-- `nv_pool_block_t`; `id` tells which block a pointer to a block denotes. -/
structure PoolBlock where
  id : Nat
  size : Nat
  used : Nat
  start : Nat
  endPtr : Nat
  current : Nat
deriving DecidableEq

/-- `nv_pool_stats_t`. -/
structure PoolStats where
  totalBlocks : Nat
  totalSize : Nat
  usedSize : Nat
  freeSize : Nat
  allocationCount : Nat
  deallocationCount : Nat
deriving DecidableEq

/-- `nv_pool_config_t`; `enable_stats` is never read. -/
structure PoolConfig where
  initialSize : Nat
  maxSize : Nat
  minSize : Nat
  autoExtend : Bool
  zeroClear : Bool

def nvPoolConfigDefault : PoolConfig where
  initialSize := 16 * 1024
  maxSize := 1024 * 1024
  minSize := 4 * 1024
  autoExtend := true
  zeroClear := false

/-- `nv_pool_t`. -/
structure NvPool where
  blocks : List PoolBlock
  current : Option Nat
  large : List PoolBlock
  maxSize : Nat
  minSize : Nat
  stats : PoolStats
  autoExtend : Bool
  zeroClear : Bool

/-- The blocks of both lists. -/
def NvPool.all (p : NvPool) : List PoolBlock := p.blocks ++ p.large

/-- Up to a multiple of eight. -/
def nvPoolAlignSize (size : Nat) : Nat := wrap (size + 7) / 8 * 8

/--
`nv_malloc`.  The environment offers an address or `NULL`; the library promises
a range that overlaps no other object and has at most `PTRDIFF_MAX` bytes.  On
`NULL` the code leaves the process with `exit`; here the caller goes on without a
block, as it would after `malloc`, which adds runs to those of the code.
-/
def nvMalloc (held : List PoolBlock) (size : Nat) (offer : Option Nat) : Option Nat :=
  offer.filter fun a =>
    0 < a ∧ a + size ≤ 2 ^ 63 ∧ ∀ b ∈ held, a + size ≤ b.start ∨ b.endPtr ≤ a

def nvPoolBlockCreate (p : NvPool) (size : Nat) (offer : Option Nat) : Option PoolBlock :=
  let size := nvPoolAlignSize size
  (nvMalloc p.all size offer).map fun memory =>
    { id := p.all.length
      size := size
      used := 0
      start := memory
      endPtr := wrap (memory + size)
      current := memory }

/-- The block moved on and the address. -/
def nvPoolBlockAlloc (b : PoolBlock) (size : Nat) : Option (PoolBlock × Nat) :=
  if b.endPtr < wrap (b.current + size) then none
  else some ({ b with
    current := wrap (b.current + size)
    used := wrap (b.used + size) }, b.current)

def replaceBlock (b : PoolBlock) (l : List PoolBlock) : List PoolBlock :=
  l.map fun c => if c.id = b.id then b else c

def NvPool.setBlock (p : NvPool) (b : PoolBlock) : NvPool :=
  { p with blocks := replaceBlock b p.blocks, large := replaceBlock b p.large }

def nvPoolUpdateStats (p : NvPool) (allocated : Nat) (isAlloc : Bool) : NvPool :=
  if isAlloc then
    { p with stats := { p.stats with
        usedSize := wrap (p.stats.usedSize + allocated)
        freeSize := wrap (p.stats.freeSize + (2 ^ 64 - allocated))
        allocationCount := wrap (p.stats.allocationCount + 1) } }
  else
    { p with stats := { p.stats with
        deallocationCount := wrap (p.stats.deallocationCount + 1) } }

/-- The statistics after a block of the given size was added. -/
def NvPool.countBlock (p : NvPool) (size : Nat) : NvPool :=
  { p with stats := { p.stats with
      totalBlocks := wrap (p.stats.totalBlocks + 1)
      totalSize := wrap (p.stats.totalSize + size)
      freeSize := wrap (p.stats.freeSize + size) } }

/-- `nv_pool_create`, or `none` when the first block cannot be allocated. -/
def nvPoolCreate (config : PoolConfig) (offer : Option Nat) : Option NvPool :=
  let pool : NvPool :=
    { blocks := []
      current := none
      large := []
      maxSize := config.maxSize
      minSize := config.minSize
      stats :=
        { totalBlocks := 0
          totalSize := 0
          usedSize := 0
          freeSize := 0
          allocationCount := 0
          deallocationCount := 0 }
      autoExtend := config.autoExtend
      zeroClear := config.zeroClear }
  if config.initialSize = 0 then some pool
  else
    (nvPoolBlockCreate pool config.initialSize offer).map fun block =>
      { pool with
        blocks := [block]
        current := some block.id
        stats := { pool.stats with
          totalBlocks := 1
          totalSize := config.initialSize
          freeSize := config.initialSize } }

/-- A block serves a request if the counter and the bump pointer leave room. -/
def serve (size : Nat) (b : PoolBlock) : Option (PoolBlock × Nat) :=
  if wrap (b.used + size) ≤ b.size then nvPoolBlockAlloc b size else none

def NvPool.currentBlock (p : NvPool) : Option PoolBlock :=
  p.current.bind fun id => p.blocks.find? fun b => b.id = id

/-- The last branch of `nv_pool_alloc`: a large block of its own. -/
def allocLarge (p : NvPool) (size : Nat) (offer : Option Nat) : NvPool × Option Nat :=
  if p.maxSize < size then
    match nvPoolBlockCreate p size offer with
    | none => (p, none)
    | some block =>
        let p := { p with large := block :: p.large }.countBlock size
        match nvPoolBlockAlloc block size with
        | some (b, ptr) => (nvPoolUpdateStats (p.setBlock b) size true, some ptr)
        | none => (p, none)
  else (p, none)

/-- The size of the block that an extension adds. -/
def NvPool.newSize (p : NvPool) (size : Nat) : Nat :=
  if p.minSize < size then size else p.minSize

/-- The branch of `nv_pool_alloc` that adds a block, and what follows it. -/
def allocExtend (p : NvPool) (size : Nat) (offer : Option Nat) : NvPool × Option Nat :=
  if p.autoExtend ∧ p.newSize size ≤ p.maxSize then
    match nvPoolBlockCreate p (p.newSize size) offer with
    | none => allocLarge p size offer
    | some block =>
        let p := { p with
          blocks := block :: p.blocks
          current := some block.id }.countBlock (p.newSize size)
        match nvPoolBlockAlloc block size with
        | some (b, ptr) => (nvPoolUpdateStats (p.setBlock b) size true, some ptr)
        | none => allocLarge p size offer
  else allocLarge p size offer

def nvPoolAlloc (p : NvPool) (size : Nat) (offer : Option Nat) : NvPool × Option Nat :=
  if size = 0 then (p, none)
  else
    let size := nvPoolAlignSize size
    match p.currentBlock.bind (serve size) with
    | some (b, ptr) => (nvPoolUpdateStats (p.setBlock b) size true, some ptr)
    | none =>
        match p.blocks.findSome? (serve size) with
        | some (b, ptr) =>
            (nvPoolUpdateStats { p.setBlock b with current := some b.id } size true, some ptr)
        | none => allocExtend p size offer

/-- The first block of a list that contains an address. -/
def findBlock (l : List PoolBlock) (ptr : Nat) : Option PoolBlock :=
  l.find? fun b => b.start ≤ ptr ∧ ptr < b.endPtr

/-- The block of the pool that contains an address. -/
def NvPool.holder (p : NvPool) (ptr : Nat) : Option PoolBlock :=
  (findBlock p.blocks ptr).or (findBlock p.large ptr)

def nvPoolFree (p : NvPool) (ptr : Option Nat) : NvPool × NvRc :=
  match ptr.bind p.holder with
  | some _ => (nvPoolUpdateStats p 0 false, .ok)
  | none => (p, .error)

/-- The bytes from an address to the end of its block. -/
def PoolBlock.room (b : PoolBlock) (ptr : Nat) : Nat := b.size - (ptr - b.start)

/-- `memcpy` of disjoint ranges. -/
def memcpy (mem : Nat → UInt8) (dst src len : Nat) : Nat → UInt8 :=
  fun a => if dst ≤ a ∧ a < dst + len then mem (src + (a - dst)) else mem a

/-- The pool, the memory and the address returned. -/
def nvPoolRealloc (p : NvPool) (mem : Nat → UInt8) (ptr : Option Nat) (size : Nat)
    (offer : Option Nat) : NvPool × (Nat → UInt8) × Option Nat :=
  match ptr with
  | none =>
      let (p, r) := nvPoolAlloc p size offer
      (p, mem, r)
  | some ptr =>
      if size = 0 then ((nvPoolFree p (some ptr)).1, mem, none)
      else
        match p.holder ptr with
        | none =>
            let (p, r) := nvPoolAlloc p size offer
            (p, mem, r)
        | some b =>
            if size ≤ b.room ptr then (p, mem, some ptr)
            else
              match nvPoolAlloc p size offer with
              | (p, none) => (p, mem, none)
              | (p, some q) =>
                  ((nvPoolFree p (some ptr)).1, memcpy mem q ptr (min size (b.room ptr)),
                    some q)

/-- `memset` to zero. -/
def memset (mem : Nat → UInt8) (dst len : Nat) : Nat → UInt8 :=
  fun a => if dst ≤ a ∧ a < dst + len then 0 else mem a

/-- The pool, the memory and the address returned. -/
def nvPoolCalloc (p : NvPool) (mem : Nat → UInt8) (nmemb size : Nat) (offer : Option Nat) :
    NvPool × (Nat → UInt8) × Option Nat :=
  let totalSize := wrap (nmemb * size)
  match nvPoolAlloc p totalSize offer with
  | (p, none) => (p, mem, none)
  | (p, some ptr) => (p, if p.zeroClear then memset mem ptr totalSize else mem, some ptr)

/-- `n - 1` on `size_t`. -/
def pred64 (n : Nat) : Nat := if wrap n = 0 then 2 ^ 64 - 1 else wrap n - 1

/-- `size + alignment - 1`, the bytes that `nv_pool_align` asks for. -/
def alignedSize (size alignment : Nat) : Nat := pred64 (size + alignment)

def alignedAddr (addr alignment : Nat) : Nat :=
  pred64 (addr + alignment) &&& (2 ^ 64 - 1 - pred64 alignment)

/-- A pointer with address zero is `NULL`. -/
def nvPoolAlign (p : NvPool) (size alignment : Nat) (offer : Option Nat) :
    NvPool × Option Nat :=
  let (p, ptr) := nvPoolAlloc p (alignedSize size alignment) offer
  (p, (ptr.map fun addr => alignedAddr addr alignment).filter fun addr => addr ≠ 0)

/-- The block as `nv_pool_reset` leaves it. -/
def PoolBlock.reset (b : PoolBlock) : PoolBlock := { b with used := 0, current := b.start }

def nvPoolReset (p : NvPool) : NvPool :=
  { p with
    blocks := p.blocks.map PoolBlock.reset
    large := p.large.map PoolBlock.reset
    stats := { p.stats with
      usedSize := 0
      freeSize := p.stats.totalSize
      allocationCount := 0
      deallocationCount := 0 }
    current := p.blocks.head?.map PoolBlock.id }

def nvPoolExtend (p : NvPool) (size : Nat) (offer : Option Nat) : NvPool × NvRc :=
  if size = 0 then (p, .error)
  else
    let size := nvPoolAlignSize size
    match nvPoolBlockCreate p size offer with
    | none => (p, .error)
    | some block =>
        ({ p with
          blocks := block :: p.blocks
          current := some block.id }.countBlock size, .ok)

def nvPoolGetSize (p : NvPool) : Nat := p.stats.totalSize

def nvPoolIsEmpty (p : NvPool) : Bool := p.stats.usedSize = 0

def nvPoolIsFull (p : NvPool) : Bool := p.stats.freeSize = 0

/-- `memset(&pool->stats, 0, sizeof(nv_pool_stats_t))`. -/
def clearedStats : PoolStats := ⟨0, 0, 0, 0, 0, 0⟩

/-- The size is read back after the counters were cleared. -/
def nvPoolResetStats (p : NvPool) : NvPool :=
  let p := { p with stats := clearedStats }
  let p := { p with stats := { p.stats with totalSize := nvPoolGetSize p } }
  { p with stats := { p.stats with freeSize := p.stats.totalSize } }

end Libnv.Pool
