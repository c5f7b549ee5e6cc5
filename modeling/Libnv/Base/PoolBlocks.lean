import Libnv.Base.Pool

/-!
# The blocks of a pool

`nv_pool_alloc` serves a request at the bump pointer of a block that has room, or
from a new block.  Blocks never move, shrink or overlap, and bump pointers only
grow; `AllocSpec` says so for the list of all blocks before and after a call, and
where the granted region lies.
-/

namespace Libnv.Pool

/-- A region of `n` bytes from `p`. -/
abbrev Region := Nat × Nat

section Blocks

variable {b : PoolBlock} {l : List PoolBlock} {size : Nat}

/-- A block whose bump pointer and counter agree and stay inside. -/
structure BlockOk (b : PoolBlock) : Prop where
  endPtr : b.endPtr = b.start + b.size
  current : b.current = b.start + b.used
  used : b.used ≤ b.size
  bound : b.endPtr ≤ 2 ^ 63

structure BlocksOk (l : List PoolBlock) : Prop where
  ok : ∀ b ∈ l, BlockOk b
  apart : ∀ b ∈ l, ∀ c ∈ l, b.id ≠ c.id → b.endPtr ≤ c.start ∨ c.endPtr ≤ b.start
  unique : ∀ b ∈ l, ∀ c ∈ l, b.id = c.id → b = c
  idLt : ∀ b ∈ l, b.id < l.length

theorem alignSize_of_le {n : Nat} (hn : n + 8 ≤ 2 ^ 63) :
    n ≤ nvPoolAlignSize n ∧ nvPoolAlignSize n < 2 ^ 63 ∧ (0 < n → 0 < nvPoolAlignSize n) := by
  have hwrap : wrap (n + 7) = n + 7 := Nat.mod_eq_of_lt (by omega)
  unfold nvPoolAlignSize
  rw [hwrap]
  refine ⟨?_, ?_, ?_⟩ <;> omega

@[simp] theorem all_updateStats (p : NvPool) (n : Nat) (isAlloc : Bool) :
    (nvPoolUpdateStats p n isAlloc).all = p.all := by
  cases isAlloc <;> rfl

@[simp] theorem all_free (p : NvPool) (ptr : Option Nat) : (nvPoolFree p ptr).1.all = p.all := by
  unfold nvPoolFree
  split <;> simp

/-- The bump pointer moves by the size, when there is room. -/
theorem blockAlloc_spec {b' : PoolBlock} {q : Nat} (hb : BlockOk b) (hsize : size < 2 ^ 63)
    (h : nvPoolBlockAlloc b size = some (b', q)) :
    q = b.current ∧ q + size ≤ b.endPtr ∧
      b' = { b with current := b.current + size, used := b.used + size } := by
  obtain ⟨hend, hcur, hused, hbound⟩ := hb
  have hwc : wrap (b.current + size) = b.current + size := Nat.mod_eq_of_lt (by omega)
  have hwu : wrap (b.used + size) = b.used + size := Nat.mod_eq_of_lt (by omega)
  unfold nvPoolBlockAlloc at h
  rw [hwc, hwu] at h
  split at h
  · cases h
  · rename_i hroom
    simp only [Option.some.injEq, Prod.mk.injEq] at h
    obtain ⟨rfl, rfl⟩ := h
    exact ⟨rfl, Nat.le_of_not_lt hroom, rfl⟩

theorem BlockOk.bump (hb : BlockOk b) (hroom : b.current + size ≤ b.endPtr) :
    BlockOk { b with current := b.current + size, used := b.used + size } := by
  obtain ⟨hend, hcur, hused, hbound⟩ := hb
  refine ⟨hend, ?_, ?_, hbound⟩ <;> dsimp only <;> omega

theorem mem_replaceBlock {x : PoolBlock} :
    x ∈ replaceBlock b l ↔ (x = b ∧ ∃ c ∈ l, c.id = b.id) ∨ (x ∈ l ∧ x.id ≠ b.id) := by
  unfold replaceBlock
  rw [List.mem_map]
  constructor
  · rintro ⟨c, hc, rfl⟩
    by_cases hid : c.id = b.id
    · rw [if_pos hid]
      exact Or.inl ⟨rfl, c, hc, hid⟩
    · rw [if_neg hid]
      exact Or.inr ⟨hc, hid⟩
  · rintro (⟨rfl, c, hc, hid⟩ | ⟨hx, hid⟩)
    · exact ⟨c, hc, if_pos hid⟩
    · exact ⟨x, hx, if_neg hid⟩

@[simp] theorem all_setBlock (p : NvPool) (b : PoolBlock) :
    (p.setBlock b).all = replaceBlock b p.all := by
  simp [NvPool.setBlock, NvPool.all, replaceBlock]

/-- Moving one bump pointer keeps the blocks in order. -/
theorem BlocksOk.replace (hl : BlocksOk l) {b' : PoolBlock} (hb : b ∈ l)
    (hid : b'.id = b.id) (hstart : b'.start = b.start) (hend : b'.endPtr = b.endPtr)
    (hok : BlockOk b') : BlocksOk (replaceBlock b' l) := by
  refine ⟨?_, ?_, ?_, ?_⟩
  · intro x hx
    rcases mem_replaceBlock.mp hx with ⟨rfl, -⟩ | ⟨hx', -⟩
    · exact hok
    · exact hl.ok x hx'
  · intro x hx y hy hne
    rcases mem_replaceBlock.mp hx with ⟨rfl, -⟩ | ⟨hx', -⟩ <;>
      rcases mem_replaceBlock.mp hy with ⟨rfl, -⟩ | ⟨hy', -⟩
    · exact absurd rfl hne
    · rw [hstart, hend]
      exact hl.apart b hb y hy' (hid ▸ hne)
    · rw [hstart, hend]
      exact hl.apart x hx' b hb (hid ▸ hne)
    · exact hl.apart x hx' y hy' hne
  · intro x hx y hy heq
    rcases mem_replaceBlock.mp hx with ⟨rfl, -⟩ | ⟨hx', hxne⟩ <;>
      rcases mem_replaceBlock.mp hy with ⟨rfl, -⟩ | ⟨hy', hyne⟩
    · rfl
    · exact absurd heq.symm hyne
    · exact absurd heq hxne
    · exact hl.unique x hx' y hy' heq
  · intro x hx
    have hlen : (replaceBlock b' l).length = l.length := by simp [replaceBlock]
    rw [hlen]
    rcases mem_replaceBlock.mp hx with ⟨rfl, -⟩ | ⟨hx', -⟩
    · rw [hid]
      exact hl.idLt b hb
    · exact hl.idLt x hx'

/-- Moving all bump pointers back keeps the blocks in order. -/
theorem BlocksOk.reset (hl : BlocksOk l) : BlocksOk (l.map PoolBlock.reset) := by
  have hback : ∀ x ∈ l.map PoolBlock.reset, ∃ b ∈ l, b.reset = x :=
    fun x hx => List.mem_map.mp hx
  refine ⟨?_, ?_, ?_, ?_⟩
  · intro x hx
    obtain ⟨b, hb, rfl⟩ := hback x hx
    exact ⟨(hl.ok b hb).endPtr, rfl, Nat.zero_le _, (hl.ok b hb).bound⟩
  · intro x hx y hy hne
    obtain ⟨b, hb, rfl⟩ := hback x hx
    obtain ⟨c, hc, rfl⟩ := hback y hy
    exact hl.apart b hb c hc hne
  · intro x hx y hy heq
    obtain ⟨b, hb, rfl⟩ := hback x hx
    obtain ⟨c, hc, rfl⟩ := hback y hy
    rw [hl.unique b hb c hc heq]
  · intro x hx
    obtain ⟨b, hb, rfl⟩ := hback x hx
    rw [List.length_map]
    exact hl.idLt b hb

theorem blockCreate_spec {p : NvPool} {offer : Option Nat}
    (h : nvPoolBlockCreate p size offer = some b) :
    BlockOk b ∧ b.id = p.all.length ∧
      ∀ c ∈ p.all, b.endPtr ≤ c.start ∨ c.endPtr ≤ b.start := by
  unfold nvPoolBlockCreate nvMalloc at h
  obtain ⟨a, ha, rfl⟩ := Option.map_eq_some_iff.mp h
  obtain ⟨-, hpromise⟩ := Option.filter_eq_some_iff.mp ha
  simp only [decide_eq_true_eq] at hpromise
  obtain ⟨-, hbound, hapart⟩ := hpromise
  have hwrap : wrap (a + nvPoolAlignSize size) = a + nvPoolAlignSize size :=
    Nat.mod_eq_of_lt (by omega)
  refine ⟨⟨hwrap, rfl, Nat.zero_le _, ?_⟩, rfl, ?_⟩
  · dsimp only
    rw [hwrap]
    exact hbound
  · dsimp only
    rw [hwrap]
    exact hapart

theorem BlocksOk.add {l' : List PoolBlock} (hl : BlocksOk l)
    (hmem : ∀ x, x ∈ l' ↔ x = b ∨ x ∈ l) (hlen : l'.length = l.length + 1)
    (hok : BlockOk b) (hid : b.id = l.length)
    (hapart : ∀ c ∈ l, b.endPtr ≤ c.start ∨ c.endPtr ≤ b.start) : BlocksOk l' := by
  refine ⟨?_, ?_, ?_, ?_⟩
  · intro x hx
    rcases (hmem x).mp hx with rfl | hx'
    · exact hok
    · exact hl.ok x hx'
  · intro x hx y hy hne
    rcases (hmem x).mp hx with rfl | hx' <;> rcases (hmem y).mp hy with rfl | hy'
    · exact absurd rfl hne
    · exact hapart y hy'
    · exact (hapart x hx').symm
    · exact hl.apart x hx' y hy' hne
  · intro x hx y hy heq
    rcases (hmem x).mp hx with rfl | hx' <;> rcases (hmem y).mp hy with rfl | hy'
    · rfl
    · have := hl.idLt y hy'
      omega
    · have := hl.idLt x hx'
      omega
    · exact hl.unique x hx' y hy' heq
  · intro x hx
    rw [hlen]
    rcases (hmem x).mp hx with rfl | hx'
    · omega
    · have := hl.idLt x hx'
      omega

end Blocks

section Alloc

variable {b : PoolBlock} {l : List PoolBlock} {n size : Nat} {offer : Option Nat} {p : NvPool}

/-- Every block is still there, with a bump pointer that may have moved on. -/
structure Extends (l l' : List PoolBlock) : Prop where
  ok : BlocksOk l'
  kept : ∀ b ∈ l, ∃ b' ∈ l',
    b'.start = b.start ∧ b'.endPtr = b.endPtr ∧ b.current ≤ b'.current

/-- The region was carved off at the bump pointer of a block of `l`, or off a new block. -/
def CarvedFrom (l l' : List PoolBlock) (r : Region) : Prop :=
  ∃ b ∈ l', b.start ≤ r.1 ∧ r.1 < b.current ∧ r.1 + r.2 ≤ b.current ∧
    r.1 + r.2 ≤ b.endPtr ∧ ∀ c ∈ l, c.current = r.1 ∧ c.endPtr = b.endPtr ∨
      b.endPtr ≤ c.start ∨ c.endPtr ≤ b.start

/-- What `nv_pool_alloc` can do to the blocks. -/
structure AllocSpec (l l' : List PoolBlock) (result : Option Nat) (n : Nat) : Prop where
  extends_ : Extends l l'
  carved : ∀ q, result = some q → CarvedFrom l l' (q, n)

theorem Extends.refl (hl : BlocksOk l) : Extends l l :=
  ⟨hl, fun b hb => ⟨b, hb, rfl, rfl, Nat.le_refl _⟩⟩

/-- A block of the list serves the request. -/
theorem AllocSpec.bump (hl : BlocksOk l) {b' : PoolBlock} (hb : b ∈ l)
    {q : Nat} (hn : n ≤ size) (hpos : 0 < size) (hsize : size < 2 ^ 63)
    (halloc : nvPoolBlockAlloc b size = some (b', q)) :
    AllocSpec l (replaceBlock b' l) (some q) n := by
  obtain ⟨rfl, hroom, rfl⟩ := blockAlloc_spec (hl.ok b hb) hsize halloc
  have hok := (hl.ok b hb).bump hroom
  obtain ⟨hend, hcur, -, -⟩ := hl.ok b hb
  refine ⟨⟨hl.replace hb rfl rfl rfl hok, ?_⟩, ?_⟩
  · intro c hc
    by_cases hid : c.id = b.id
    · obtain rfl := hl.unique c hc b hb hid
      exact ⟨_, mem_replaceBlock.mpr (Or.inl ⟨rfl, c, hc, rfl⟩), rfl, rfl,
        Nat.le_add_right _ _⟩
    · exact ⟨c, mem_replaceBlock.mpr (Or.inr ⟨hc, hid⟩), rfl, rfl, Nat.le_refl _⟩
  · rintro q ⟨⟩
    refine ⟨_, mem_replaceBlock.mpr (Or.inl ⟨rfl, b, hb, rfl⟩), ?_, ?_, ?_, ?_, ?_⟩
    · dsimp only
      omega
    · dsimp only
      omega
    · dsimp only
      omega
    · dsimp only
      omega
    · intro c hc
      by_cases hid : c.id = b.id
      · obtain rfl := hl.unique c hc b hb hid
        exact Or.inl ⟨rfl, rfl⟩
      · exact Or.inr (hl.apart b hb c hc (Ne.symm hid))

/-- A new block is added, and may serve the request. -/
theorem AllocSpec.create {l' : List PoolBlock} (hl : BlocksOk l)
    (hmem : ∀ x, x ∈ l' ↔ x = b ∨ x ∈ l) (hlen : l'.length = l.length + 1)
    (hok : BlockOk b) (hid : b.id = l.length)
    (hapart : ∀ c ∈ l, b.endPtr ≤ c.start ∨ c.endPtr ≤ b.start)
    (hn : n ≤ size) (hpos : 0 < size) (hsize : size < 2 ^ 63) :
    Extends l l' ∧ ∀ b' q, nvPoolBlockAlloc b size = some (b', q) →
      AllocSpec l (replaceBlock b' l') (some q) n := by
  have hl' := hl.add hmem hlen hok hid hapart
  refine ⟨⟨hl', fun c hc => ⟨c, (hmem c).mpr (Or.inr hc), rfl, rfl, Nat.le_refl _⟩⟩, ?_⟩
  intro b' q halloc
  have hb : b ∈ l' := (hmem b).mpr (Or.inl rfl)
  have hspec := AllocSpec.bump hl' hb hn hpos hsize halloc
  refine ⟨⟨hspec.extends_.ok, ?_⟩, ?_⟩
  · intro c hc
    exact hspec.extends_.kept c ((hmem c).mpr (Or.inr hc))
  · intro q' hq'
    obtain ⟨d, hd, hs, hc, hbelow, he, hothers⟩ := hspec.carved q' hq'
    refine ⟨d, hd, hs, hc, hbelow, he, ?_⟩
    intro c hcl
    exact hothers c ((hmem c).mpr (Or.inr hcl))

theorem serve_eq_some {q : Nat} {b' : PoolBlock} (h : serve size b = some (b', q)) :
    nvPoolBlockAlloc b size = some (b', q) := by
  unfold serve at h
  split at h
  · exact h
  · cases h

theorem currentBlock_mem (h : p.currentBlock = some b) : b ∈ p.blocks := by
  unfold NvPool.currentBlock at h
  obtain ⟨id, -, hfind⟩ := Option.bind_eq_some_iff.mp h
  exact List.mem_of_find?_eq_some hfind

theorem le_newSize (p : NvPool) (size : Nat) : size ≤ p.newSize size := by
  unfold NvPool.newSize
  split <;> omega

def NvPool.noRoom (p : NvPool) (size : Nat) : Prop := ∀ b ∈ p.blocks, serve size b = none

/-- The request is served from a block that is added to the normal ones. -/
def NvPool.addsBlock (p : NvPool) (size : Nat) (offer : Option Nat) : Prop :=
  p.noRoom size ∧ p.autoExtend = true ∧ p.newSize size ≤ p.maxSize ∧
    (nvPoolBlockCreate p (p.newSize size) offer).isSome = true

/-- The request goes to a block of the pool that was just added. -/
def NvPool.placeIn (p : NvPool) (block : PoolBlock) (size : Nat) : NvPool × Option Nat :=
  match nvPoolBlockAlloc block size with
  | some (b, ptr) => (nvPoolUpdateStats (p.setBlock b) size true, some ptr)
  | none => (p, none)

/-- All that `nv_pool_alloc` can do. -/
inductive AllocCase (p : NvPool) (n : Nat) (offer : Option Nat) : NvPool × Option Nat → Prop
  | refused (hadds : n ≠ 0 → ¬ p.addsBlock (nvPoolAlignSize n) offer) :
      AllocCase p n offer (p, none)
  | served {b b' : PoolBlock} {q : Nat} (hb : b ∈ p.blocks)
      (hserve : serve (nvPoolAlignSize n) b = some (b', q)) (current : Option Nat) :
      AllocCase p n offer
        (nvPoolUpdateStats { p.setBlock b' with current := current } (nvPoolAlignSize n) true,
          some q)
  | added {block : PoolBlock} (hn : n ≠ 0) (hadds : p.addsBlock (nvPoolAlignSize n) offer)
      (hcreate : nvPoolBlockCreate p (p.newSize (nvPoolAlignSize n)) offer = some block) :
      AllocCase p n offer
        (({ p with blocks := block :: p.blocks, current := some block.id }.countBlock
          (p.newSize (nvPoolAlignSize n))).placeIn block (nvPoolAlignSize n))
  | large {block : PoolBlock} (hadds : ¬ p.addsBlock (nvPoolAlignSize n) offer)
      (hcreate : nvPoolBlockCreate p (nvPoolAlignSize n) offer = some block) :
      AllocCase p n offer
        (({ p with large := block :: p.large }.countBlock (nvPoolAlignSize n)).placeIn block
          (nvPoolAlignSize n))

theorem allocLarge_cases (hadds : ¬ p.addsBlock (nvPoolAlignSize n) offer) :
    AllocCase p n offer (allocLarge p (nvPoolAlignSize n) offer) := by
  unfold allocLarge
  split
  · cases hcreate : nvPoolBlockCreate p (nvPoolAlignSize n) offer with
    | none => exact .refused fun _ => hadds
    | some block => exact .large hadds hcreate
  · exact .refused fun _ => hadds

theorem allocExtend_cases (hn : n ≠ 0) (hroom : p.noRoom (nvPoolAlignSize n)) :
    AllocCase p n offer (allocExtend p (nvPoolAlignSize n) offer) := by
  unfold allocExtend
  split
  · rename_i hextend
    cases hcreate : nvPoolBlockCreate p (p.newSize (nvPoolAlignSize n)) offer with
    | none =>
        refine allocLarge_cases ?_
        rintro ⟨-, -, -, hsome⟩
        rw [hcreate] at hsome
        cases hsome
    | some block =>
        have hadds : p.addsBlock (nvPoolAlignSize n) offer :=
          ⟨hroom, hextend.1, hextend.2, by rw [hcreate]; rfl⟩
        have hcase := AllocCase.added hn hadds hcreate
        unfold NvPool.placeIn at hcase
        dsimp only
        cases halloc : nvPoolBlockAlloc block (nvPoolAlignSize n) with
        | none =>
            -- the size is not above `max_size`, so no large block is tried
            have hmax : ¬ p.maxSize < nvPoolAlignSize n :=
              Nat.not_lt.mpr (Nat.le_trans (le_newSize p _) hextend.2)
            rw [halloc] at hcase
            dsimp only
            rw [allocLarge, if_neg (by exact hmax)]
            exact hcase
        | some result =>
            rw [halloc] at hcase
            exact hcase
  · rename_i hextend
    refine allocLarge_cases ?_
    rintro ⟨-, hauto, hle, -⟩
    exact hextend ⟨hauto, hle⟩

theorem nvPoolAlloc_cases (p : NvPool) (n : Nat) (offer : Option Nat) :
    AllocCase p n offer (nvPoolAlloc p n offer) := by
  unfold nvPoolAlloc
  split
  · rename_i hzero
    exact .refused fun hn => absurd hzero hn
  · rename_i hn
    dsimp only
    cases hcur : p.currentBlock.bind (serve (nvPoolAlignSize n)) with
    | some result =>
        obtain ⟨b', q⟩ := result
        obtain ⟨b, hb, hserve⟩ := Option.bind_eq_some_iff.mp hcur
        exact .served (currentBlock_mem hb) hserve p.current
    | none =>
        dsimp only
        cases hscan : p.blocks.findSome? (serve (nvPoolAlignSize n)) with
        | some result =>
            obtain ⟨b', q⟩ := result
            obtain ⟨b, hb, hserve⟩ := List.exists_of_findSome?_eq_some hscan
            exact .served hb hserve (some b'.id)
        | none => exact allocExtend_cases hn (List.findSome?_eq_none_iff.mp hscan)

theorem perm_large (p : NvPool) (b : PoolBlock) :
    { p with large := b :: p.large }.all.Perm (b :: p.all) :=
  List.perm_middle

/-- A block is added to the pool and asked for the request. -/
theorem AllocSpec.placeIn {p' : NvPool} (hl : BlocksOk p.all) {m : Nat}
    (hcreate : nvPoolBlockCreate p m offer = some b) (hperm : p'.all.Perm (b :: p.all))
    (hn : n ≤ size) (hpos : 0 < size) (hsize : size < 2 ^ 63) :
    AllocSpec p.all (p'.placeIn b size).1.all (p'.placeIn b size).2 n := by
  obtain ⟨hok, hid, hapart⟩ := blockCreate_spec hcreate
  have hmem : ∀ x, x ∈ p'.all ↔ x = b ∨ x ∈ p.all := fun x =>
    hperm.mem_iff.trans List.mem_cons
  obtain ⟨hext, hserve⟩ := AllocSpec.create hl hmem hperm.length_eq hok hid hapart hn hpos hsize
  unfold NvPool.placeIn
  cases halloc : nvPoolBlockAlloc b size with
  | none => exact ⟨hext, by simp⟩
  | some result =>
      obtain ⟨b', q⟩ := result
      simpa using hserve b' q halloc

theorem nvPoolAlloc_spec (hl : BlocksOk p.all) (hn : n + 8 ≤ 2 ^ 63) (offer : Option Nat) :
    AllocSpec p.all (nvPoolAlloc p n offer).1.all (nvPoolAlloc p n offer).2 n ∧
      ((nvPoolAlloc p n offer).2.isSome → 0 < n) := by
  by_cases hzero : n = 0
  · simp only [nvPoolAlloc, if_pos hzero]
    exact ⟨⟨Extends.refl hl, by simp⟩, by simp⟩
  · have hpos : 0 < n := Nat.pos_of_ne_zero hzero
    refine ⟨?_, fun _ => hpos⟩
    obtain ⟨hle, hlt, hsize⟩ := alignSize_of_le hn
    have hcase := nvPoolAlloc_cases p n offer
    generalize nvPoolAlloc p n offer = outcome at hcase
    cases hcase with
    | refused => exact ⟨Extends.refl hl, by simp⟩
    | served hb hserve current =>
        have hspec := AllocSpec.bump hl (List.mem_append_left _ hb) hle (hsize hpos) hlt
          (serve_eq_some hserve)
        rw [← all_setBlock] at hspec
        rw [all_updateStats]
        exact hspec
    | added _ hadds hcreate =>
        exact AllocSpec.placeIn hl hcreate (List.Perm.refl _) hle (hsize hpos) hlt
    | large hadds hcreate =>
        refine AllocSpec.placeIn hl hcreate ?_ hle (hsize hpos) hlt
        exact perm_large p _

theorem nvPoolExtend_cases (p : NvPool) (size : Nat) (offer : Option Nat) :
    (nvPoolExtend p size offer).1 = p ∨
      ∃ block, nvPoolBlockCreate p (nvPoolAlignSize size) offer = some block ∧
        (nvPoolExtend p size offer).1 =
          { p with blocks := block :: p.blocks, current := some block.id }.countBlock
            (nvPoolAlignSize size) := by
  unfold nvPoolExtend
  split
  · exact Or.inl rfl
  · dsimp only
    cases nvPoolBlockCreate p (nvPoolAlignSize size) offer with
    | none => exact Or.inl rfl
    | some block => exact Or.inr ⟨block, rfl, rfl⟩

theorem BlocksOk.create (hl : BlocksOk p.all) {block : PoolBlock}
    (hcreate : nvPoolBlockCreate p size offer = some block) (hperm : l.Perm (block :: p.all)) :
    BlocksOk l := by
  obtain ⟨hok, hid, hapart⟩ := blockCreate_spec hcreate
  have hmem : ∀ x, x ∈ l ↔ x = block ∨ x ∈ p.all := fun x =>
    hperm.mem_iff.trans List.mem_cons
  exact hl.add hmem hperm.length_eq hok hid hapart

end Alloc

end Libnv.Pool
