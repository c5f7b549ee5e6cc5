import Libnv.Base.PoolBlocks
import Mathlib.Data.List.Pairwise

/-!
# Live regions of the pool

A client allocates, reallocates, frees and writes.  `live` lists the regions
`(p, n)` last granted for pointers that were neither freed nor replaced.  Every
live region lies in one block and a moving `nv_pool_realloc` keeps the bytes;
what can fail is that two live regions overlap, and it fails in two kinds of
steps only:

* an address is carved off at a bump pointer that lies inside a live region,
  which an earlier `nv_pool_realloc` has grown in place past it;
* `nv_pool_realloc` grows a region in place over the start of another.

Neither happens in a run whose calls meet `GrowsInside`.
-/

namespace Libnv.Pool

open Transition

/-- The two regions do not overlap. -/
def Apart (r r' : Region) : Prop := r.1 + r.2 ≤ r'.1 ∨ r'.1 + r'.2 ≤ r.1

def Inside (a : Nat) (r : Region) : Prop := r.1 ≤ a ∧ a < r.1 + r.2

/-- The pool, the memory, and the client's live regions. -/
structure PoolState where
  pool : NvPool
  mem : Nat → UInt8
  live : List Region

/-- The calls of a client; `offer` is what `malloc` finds if it is asked. -/
inductive PoolAction where
  | alloc (n : Nat) (offer : Option Nat)
  | realloc (ptr : Option Nat) (n : Nat) (offer : Option Nat)
  | free (ptr : Option Nat)
  | write (a : Nat) (b : UInt8)

def PoolAction.size : PoolAction → Nat
  | .alloc n _ => n
  | .realloc _ n _ => n
  | .free _ => 0
  | .write _ _ => 0

/-- The regions without the one at `p`. -/
def dropRegion (live : List Region) (p : Nat) : List Region :=
  live.filter fun r => r.1 ≠ p

def grant (live : List Region) (result : Option Nat) (n : Nat) : List Region :=
  (result.map fun q => (q, n)).toList ++ live

/-- The live regions after a `nv_pool_realloc`. -/
def reallocLive (live : List Region) (ptr : Option Nat) (n : Nat) (result : Option Nat) :
    List Region :=
  match ptr with
  | none => grant live result n
  | some p => if n = 0 ∨ result.isSome then grant (dropRegion live p) result n else live

/-- The pointer is `NULL` or the start of a live region. -/
def validPtr (live : List Region) (ptr : Option Nat) : Bool :=
  ptr.all fun p => live.any fun r => r.1 = p

/-- One call.  A pointer that is not live is not passed to `nv_pool_realloc`. -/
def poolStep (s : PoolState) : PoolAction → PoolState
  | .alloc n offer =>
      let (pool, result) := nvPoolAlloc s.pool n offer
      { s with pool := pool, live := grant s.live result n }
  | .realloc ptr n offer =>
      if validPtr s.live ptr then
        let (pool, mem, result) := nvPoolRealloc s.pool s.mem ptr n offer
        { pool := pool, mem := mem, live := reallocLive s.live ptr n result }
      else s
  | .free ptr =>
      { s with
        pool := (nvPoolFree s.pool ptr).1
        live := match ptr with
          | none => s.live
          | some p => dropRegion s.live p }
  | .write a b => { s with mem := fun x => if x = a then b else s.mem x }

/-- Every live region lies in one block, and no two overlap. -/
structure RegionsSound (s : PoolState) : Prop where
  inBlock : ∀ r ∈ s.live, ∃ b ∈ s.pool.all, b.start ≤ r.1 ∧ r.1 + r.2 ≤ b.endPtr
  apart : s.live.Pairwise Apart

/-- The bytes of the old region, as far as the new size goes, are at the new address. -/
def ReallocKeepsBytes (s : PoolState) : PoolAction → Prop
  | .realloc (some p) n offer => ∀ q m, (p, m) ∈ s.live →
      (nvPoolRealloc s.pool s.mem (some p) n offer).2.2 = some q →
      ∀ i < min m n, (poolStep s (.realloc (some p) n offer)).mem (q + i) = s.mem (p + i)
  | _ => True

def CallSound (s : PoolState) (a : PoolAction) : Prop :=
  RegionsSound (poolStep s a) ∧ ReallocKeepsBytes s a

/-- The request is served at an address inside no live region. -/
def FreshAt (live : List Region) (result : Option Nat) : Prop :=
  ∀ q, result = some q → ∀ r ∈ live, ¬ Inside q r

/-- The block of a pointer has room for the size, so the region grows in place. -/
def fitsInPlace (p : NvPool) (ptr n : Nat) : Bool :=
  (p.holder ptr).any fun b => n ≤ b.room ptr

/--
The condition on a call: an address is carved off inside no live region, and a
region that is resized in place does not reach the start of another one.
-/
def CallOk (s : PoolState) : PoolAction → Prop
  | .alloc n offer => FreshAt s.live (nvPoolAlloc s.pool n offer).2
  | .realloc none n offer => FreshAt s.live (nvPoolAlloc s.pool n offer).2
  | .realloc (some p) n offer =>
      validPtr s.live (some p) → n ≠ 0 →
        if fitsInPlace s.pool p n then
          ∀ r ∈ s.live, r.1 ≠ p → ¬ Inside r.1 (p, n)
        else FreshAt (dropRegion s.live p) (nvPoolAlloc s.pool n offer).2
  | .free _ => True
  | .write _ _ => True

/--
The condition on the state before a call: where the block of the pointer has
room, so that `nv_pool_realloc` keeps the pointer, the new size stays at or below
the bump pointer of the block and reaches the start of no other live region.
-/
def GrowsInside (s : PoolState) : PoolAction → Prop
  | .realloc (some p) n _ =>
      validPtr s.live (some p) → ∀ b ∈ s.pool.holder p, n ≤ b.room p →
        p + n ≤ b.current ∧ ∀ r ∈ s.live, r.1 ≠ p → ¬ Inside r.1 (p, n)
  | _ => True

section Regions

variable {l l' : List PoolBlock} {live : List Region} {n : Nat} {r : Region}
variable {live' : List Region} {p q : Nat} {result : Option Nat}

/-- Every region starts below the bump pointer of a block that contains it. -/
def Placed (l : List PoolBlock) (live : List Region) : Prop :=
  ∀ r ∈ live, 0 < r.2 ∧
    ∃ b ∈ l, b.start ≤ r.1 ∧ r.1 < b.current ∧ r.1 + r.2 ≤ b.endPtr

theorem Placed.mono (hplaced : Placed l live) (hext : Extends l l') : Placed l' live := by
  intro r hr
  obtain ⟨hpos, b, hb, hstart, hcur, hend⟩ := hplaced r hr
  obtain ⟨b', hb', hs, he, hc⟩ := hext.kept b hb
  refine ⟨hpos, b', hb', ?_, ?_, ?_⟩ <;> omega

theorem Placed.subset (hplaced : Placed l live) (hsub : ∀ r ∈ live', r ∈ live) : Placed l live' :=
  fun r hr => hplaced r (hsub r hr)

/-- Every region ends at or below the bump pointer of its block. -/
def Below (l : List PoolBlock) (live : List Region) : Prop :=
  ∀ r ∈ live, ∃ b ∈ l, b.start ≤ r.1 ∧ r.1 + r.2 ≤ b.current

theorem Below.mono (hbelow : Below l live) (hext : Extends l l') : Below l' live := by
  intro r hr
  obtain ⟨b, hb, hstart, hcur⟩ := hbelow r hr
  obtain ⟨b', hb', hs, -, hc⟩ := hext.kept b hb
  refine ⟨b', hb', ?_, ?_⟩ <;> omega

theorem Below.subset (hbelow : Below l live) (hsub : ∀ r ∈ live', r ∈ live) : Below l live' :=
  fun r hr => hbelow r (hsub r hr)

theorem mem_dropRegion : r ∈ dropRegion live p ↔ r ∈ live ∧ r.1 ≠ p := by
  simp [dropRegion]

instance : Std.Symm Apart := ⟨fun _ _ h => h.symm⟩

theorem pairwise_dropRegion (h : live.Pairwise Apart) (p : Nat) :
    (dropRegion live p).Pairwise Apart :=
  h.filter _

/-- A carved region overlaps an old one only if the bump pointer was inside the old one. -/
theorem CarvedFrom.apart_iff (hcarved : CarvedFrom l l' (q, n)) (hn : 0 < n)
    (hplaced : ∃ b ∈ l, b.start ≤ r.1 ∧ r.1 < b.current ∧ r.1 + r.2 ≤ b.endPtr) :
    Apart (q, n) r ↔ ¬ Inside q r := by
  obtain ⟨b, -, hstart, -, -, hend, hothers⟩ := hcarved
  obtain ⟨c, hc, hcs, hcc, hce⟩ := hplaced
  unfold Apart Inside
  dsimp only at hstart hend hothers ⊢
  rcases hothers c hc with ⟨hcur, -⟩ | hapart
  · omega
  · omega

theorem grant_spec (hspec : AllocSpec l l' result n) (hpos : result.isSome → 0 < n)
    (hplaced : Placed l live) (hapart : live.Pairwise Apart) :
    Placed l' (grant live result n) ∧
      ((grant live result n).Pairwise Apart ↔ FreshAt live result) := by
  cases result with
  | none =>
      refine ⟨hplaced.mono hspec.extends_, ?_⟩
      simp [grant, FreshAt, hapart]
  | some q =>
      have hn := hpos rfl
      have hcarved := hspec.carved q rfl
      constructor
      · intro r hr
        rcases List.mem_cons.mp hr with rfl | hr'
        · obtain ⟨b, hb, hstart, hcur, -, hend, -⟩ := hcarved
          exact ⟨hn, b, hb, hstart, hcur, hend⟩
        · exact hplaced.mono hspec.extends_ r hr'
      · have hcons : (grant live (some q) n).Pairwise Apart ↔
            ∀ r ∈ live, Apart (q, n) r := by
          simp [grant, List.pairwise_cons, hapart]
        rw [hcons]
        constructor
        · rintro h q' ⟨⟩ r hr
          exact (hcarved.apart_iff hn (hplaced r hr).2).mp (h r hr)
        · intro h r hr
          exact (hcarved.apart_iff hn (hplaced r hr).2).mpr (h q rfl r hr)

theorem CarvedFrom.apart (hcarved : CarvedFrom l l' (q, n)) (hl : BlocksOk l)
    (hbelow : ∃ b ∈ l, b.start ≤ r.1 ∧ r.1 + r.2 ≤ b.current) : Apart (q, n) r := by
  obtain ⟨b, -, hstart, -, -, hend, hothers⟩ := hcarved
  obtain ⟨c, hc, hcs, hcc⟩ := hbelow
  obtain ⟨hcend, hccur, hcused, -⟩ := hl.ok c hc
  unfold Apart
  dsimp only at hstart hend hothers ⊢
  rcases hothers c hc with ⟨hcur, -⟩ | hapart
  · omega
  · omega

theorem Apart.not_inside (hapart : Apart (q, n) r) (hn : 0 < n) : ¬ Inside q r := by
  unfold Apart at hapart
  unfold Inside
  dsimp only at hapart
  omega

theorem grant_below (hspec : AllocSpec l l' result n) (hpos : result.isSome → 0 < n)
    (hl : BlocksOk l) (hbelow : Below l live) :
    FreshAt live result ∧ Below l' (grant live result n) := by
  constructor
  · rintro q rfl r hr
    exact ((hspec.carved q rfl).apart hl (hbelow r hr)).not_inside (hpos rfl)
  · intro r hr
    rcases List.mem_append.mp hr with hnew | hold
    · obtain ⟨q, rfl, rfl⟩ := Option.map_eq_some_iff.mp (Option.mem_toList.mp hnew)
      obtain ⟨b, hb, hstart, -, hend, -, -⟩ := hspec.carved q rfl
      exact ⟨b, hb, hstart, hend⟩
    · exact hbelow.mono hspec.extends_ r hold

/-- The block found for an address is the one that contains it. -/
theorem holder_eq {p : NvPool} (hl : BlocksOk p.all) {b : PoolBlock} (hb : b ∈ p.all) {ptr : Nat}
    (hstart : b.start ≤ ptr) (hend : ptr < b.endPtr) : p.holder ptr = some b := by
  have hin : ∀ c, p.holder ptr = some c → c ∈ p.all ∧ c.start ≤ ptr ∧ ptr < c.endPtr := by
    intro c hc
    unfold NvPool.holder findBlock at hc
    rcases Option.or_eq_some_iff.mp hc with h | ⟨-, h⟩
    · have hprop := List.find?_some h
      simp only [decide_eq_true_eq] at hprop
      exact ⟨List.mem_append_left _ (List.mem_of_find?_eq_some h), hprop⟩
    · have hprop := List.find?_some h
      simp only [decide_eq_true_eq] at hprop
      exact ⟨List.mem_append_right _ (List.mem_of_find?_eq_some h), hprop⟩
  cases hc : p.holder ptr with
  | some c =>
      obtain ⟨hmem, hcs, hce⟩ := hin c hc
      by_cases hid : c.id = b.id
      · rw [hl.unique c hmem b hb hid]
      · have := hl.apart c hmem b hb hid
        omega
  | none =>
      unfold NvPool.holder findBlock at hc
      obtain ⟨h₁, h₂⟩ := Option.or_eq_none_iff.mp hc
      rcases List.mem_append.mp hb with h | h
      · have := List.find?_eq_none.mp h₁ b h
        simp [hstart, hend] at this
      · have := List.find?_eq_none.mp h₂ b h
        simp [hstart, hend] at this

/-- A region resized in place meets no other exactly if it reaches no other's start. -/
theorem apart_inPlace_iff {m : Nat} (hm : 0 < m) (hr : 0 < r.2)
    (hold : Apart (p, m) r) : Apart (p, n) r ↔ ¬ Inside r.1 (p, n) := by
  unfold Apart Inside at *
  dsimp only at hold ⊢
  omega

end Regions

section Calls

variable {m n p : Nat}

/-- The invariant of the client's view. -/
structure PoolInv (s : PoolState) : Prop where
  blocks : BlocksOk s.pool.all
  placed : Placed s.pool.all s.live
  apart : s.live.Pairwise Apart

/-- What every call does, and when it keeps the regions apart. -/
structure CallSpec (s : PoolState) (a : PoolAction) : Prop where
  blocks : BlocksOk (poolStep s a).pool.all
  placed : Placed (poolStep s a).pool.all (poolStep s a).live
  apart_iff : (poolStep s a).live.Pairwise Apart ↔ CallOk s a
  bytes : ReallocKeepsBytes s a
  below : Below s.pool.all s.live → GrowsInside s a →
    CallOk s a ∧ Below (poolStep s a).pool.all (poolStep s a).live

variable {s : PoolState}

theorem validPtr_of_mem {live : List Region} (h : (p, m) ∈ live) :
    validPtr live (some p) = true := by
  simp only [validPtr, Option.all_some, List.any_eq_true, decide_eq_true_eq]
  exact ⟨(p, m), h, rfl⟩

variable (hi : PoolInv s)
include hi

theorem PoolInv.alloc (hn : n < 2 ^ 32) (offer : Option Nat) : CallSpec s (.alloc n offer) := by
  have hle : n + 8 ≤ 2 ^ 63 := by omega
  obtain ⟨hspec, hpos⟩ := nvPoolAlloc_spec hi.blocks hle offer
  obtain ⟨hplaced, hapart⟩ := grant_spec hspec hpos hi.placed hi.apart
  exact ⟨hspec.extends_.ok, hplaced, hapart, trivial,
    fun hbelow _ => grant_below hspec hpos hi.blocks hbelow⟩

theorem PoolInv.realloc_null (hn : n < 2 ^ 32) (offer : Option Nat) :
    CallSpec s (.realloc none n offer) := by
  obtain ⟨hblocks, hplaced, hapart, -, hbelow⟩ := hi.alloc hn offer
  exact ⟨hblocks, hplaced, hapart, trivial, hbelow⟩

theorem PoolInv.region_unique {m' : Nat} (h : (p, m) ∈ s.live) (h' : (p, m') ∈ s.live) :
    m' = m := by
  by_contra hne
  have hold := hi.apart.forall h h' (fun heq => hne (congrArg Prod.snd heq).symm)
  have hpos := (hi.placed (p, m) h).1
  have hpos' := (hi.placed (p, m') h').1
  unfold Apart at hold
  dsimp only at hold hpos hpos'
  omega

theorem PoolInv.apart_other (h : (p, m) ∈ s.live) {r : Region}
    (hr : r ∈ s.live) (hne : r.1 ≠ p) : Apart (p, m) r :=
  hi.apart.forall h hr fun heq => hne (congrArg Prod.fst heq).symm

theorem PoolInv.realloc_inPlace (offer : Option Nat) (hlive : (p, m) ∈ s.live)
    (hn : n ≠ 0) {b : PoolBlock} (hb : b ∈ s.pool.all) (hstart : b.start ≤ p) (hcur : p < b.current)
    (hholder : s.pool.holder p = some b) (hroom : n ≤ b.room p) :
    CallSpec s (.realloc (some p) n offer) := by
  have hvalid := validPtr_of_mem hlive
  have hstep : poolStep s (.realloc (some p) n offer) =
      { s with live := (p, n) :: dropRegion s.live p } := by
    simp [poolStep, hvalid, nvPoolRealloc, hn, hholder, hroom, reallocLive, grant]
  have hcond : CallOk s (.realloc (some p) n offer) ↔
      ∀ r ∈ s.live, r.1 ≠ p → ¬ Inside r.1 (p, n) := by
    simp [CallOk, hvalid, hn, fitsInPlace, hholder, hroom]
  obtain ⟨hend, hused, hle, -⟩ := hi.blocks.ok b hb
  refine ⟨?_, ?_, ?_, ?_, ?_⟩
  · rw [hstep]
    exact hi.blocks
  · rw [hstep]
    intro r hr
    rcases List.mem_cons.mp hr with rfl | hr'
    · refine ⟨Nat.pos_of_ne_zero hn, b, hb, hstart, hcur, ?_⟩
      unfold PoolBlock.room at hroom
      dsimp only
      omega
    · exact hi.placed r (mem_dropRegion.mp hr').1
  · rw [hstep, hcond, List.pairwise_cons]
    have hm := (hi.placed (p, m) hlive).1
    constructor
    · rintro ⟨h, -⟩ r hr hne
      exact (apart_inPlace_iff hm (hi.placed r hr).1 (hi.apart_other hlive hr hne)).mp
        (h r (mem_dropRegion.mpr ⟨hr, hne⟩))
    · intro h
      refine ⟨?_, pairwise_dropRegion hi.apart p⟩
      intro r hr
      obtain ⟨hr, hne⟩ := mem_dropRegion.mp hr
      exact (apart_inPlace_iff hm (hi.placed r hr).1
        (hi.apart_other hlive hr hne)).mpr (h r hr hne)
  · intro q m' _ hq i _
    have hqp : q = p := by
      simpa [nvPoolRealloc, hn, hholder, hroom, eq_comm] using hq
    rw [hstep, hqp]
  · intro hbelow hgrows
    obtain ⟨hcurrent, hothers⟩ := hgrows hvalid b hholder hroom
    rw [hstep]
    refine ⟨hcond.mpr hothers, ?_⟩
    intro r hr
    rcases List.mem_cons.mp hr with rfl | hr'
    · exact ⟨b, hb, hstart, hcurrent⟩
    · exact hbelow r (mem_dropRegion.mp hr').1

theorem PoolInv.realloc_move (offer : Option Nat) (hlive : (p, m) ∈ s.live)
    (hn : n ≠ 0) (hlt : n < 2 ^ 32) {b : PoolBlock} (hb : b ∈ s.pool.all)
    (hstart : b.start ≤ p) (hregion : p + m ≤ b.endPtr)
    (hholder : s.pool.holder p = some b) (hroom : ¬ n ≤ b.room p) :
    CallSpec s (.realloc (some p) n offer) := by
  have hvalid := validPtr_of_mem hlive
  have hcond : CallOk s (.realloc (some p) n offer) ↔
      FreshAt (dropRegion s.live p) (nvPoolAlloc s.pool n offer).2 := by
    simp [CallOk, hvalid, hn, fitsInPlace, hholder, hroom]
  have hle : n + 8 ≤ 2 ^ 63 := by omega
  obtain ⟨hspec, hpos⟩ := nvPoolAlloc_spec hi.blocks hle offer
  obtain ⟨hend, -, -, -⟩ := hi.blocks.ok b hb
  cases halloc : nvPoolAlloc s.pool n offer with
  | mk pool result =>
      rw [halloc] at hspec hpos hcond
      cases result with
      | none =>
          have hstep : poolStep s (.realloc (some p) n offer) = { s with pool := pool } := by
            simp [poolStep, hvalid, nvPoolRealloc, hn, hholder, hroom, halloc, reallocLive]
          refine ⟨?_, ?_, ?_, ?_, ?_⟩
          · rw [hstep]
            exact hspec.extends_.ok
          · rw [hstep]
            exact hi.placed.mono hspec.extends_
          · rw [hstep, hcond]
            exact ⟨fun _ => by simp [FreshAt], fun _ => hi.apart⟩
          · intro q m' _ hq
            simp [nvPoolRealloc, hn, hholder, hroom, halloc] at hq
          · intro hbelow _
            rw [hstep]
            exact ⟨hcond.mpr (by simp [FreshAt]), hbelow.mono hspec.extends_⟩
      | some q =>
          have hstep : poolStep s (.realloc (some p) n offer) =
              { pool := (nvPoolFree pool (some p)).1
                mem := memcpy s.mem q p (min n (b.room p))
                live := grant (dropRegion s.live p) (some q) n } := by
            simp [poolStep, hvalid, nvPoolRealloc, hn, hholder, hroom, halloc, reallocLive]
          have hsub : ∀ r ∈ dropRegion s.live p, r ∈ s.live :=
            fun r hr => (mem_dropRegion.mp hr).1
          obtain ⟨hplaced, hapart⟩ :=
            grant_spec hspec hpos (hi.placed.subset hsub) (pairwise_dropRegion hi.apart p)
          refine ⟨?_, ?_, ?_, ?_, ?_⟩
          · rw [hstep, all_free]
            exact hspec.extends_.ok
          · rw [hstep, all_free]
            exact hplaced
          · rw [hstep, hcond]
            exact hapart
          · intro q' m' hm' hq i hlen
            have hq' : q' = q := by
              simpa [nvPoolRealloc, hn, hholder, hroom, halloc, eq_comm] using hq
            rw [hi.region_unique hlive hm'] at hlen
            rw [hstep, hq']
            unfold memcpy PoolBlock.room
            dsimp only
            rw [if_pos (by omega), Nat.add_sub_cancel_left]
          · intro hbelow _
            obtain ⟨hfresh, hbelow'⟩ :=
              grant_below hspec hpos hi.blocks (hbelow.subset hsub)
            rw [hstep, all_free]
            exact ⟨hcond.mpr hfresh, hbelow'⟩

theorem PoolInv.realloc_zero (offer : Option Nat) (hlive : (p, m) ∈ s.live) :
    CallSpec s (.realloc (some p) 0 offer) := by
  have hvalid := validPtr_of_mem hlive
  have hstep : poolStep s (.realloc (some p) 0 offer) =
      { s with pool := (nvPoolFree s.pool (some p)).1, live := dropRegion s.live p } := by
    simp [poolStep, hvalid, nvPoolRealloc, reallocLive, grant]
  have hsub : ∀ r ∈ dropRegion s.live p, r ∈ s.live :=
    fun r hr => (mem_dropRegion.mp hr).1
  refine ⟨?_, ?_, ?_, ?_, ?_⟩
  · rw [hstep, all_free]
    exact hi.blocks
  · rw [hstep, all_free]
    exact hi.placed.subset hsub
  · rw [hstep]
    exact ⟨fun _ _ h => absurd rfl h, fun _ => pairwise_dropRegion hi.apart p⟩
  · intro q m' _ hq
    simp [nvPoolRealloc] at hq
  · intro hbelow _
    rw [hstep, all_free]
    exact ⟨fun _ h => absurd rfl h, hbelow.subset hsub⟩

theorem PoolInv.realloc (p : Nat) (hlt : n < 2 ^ 32) (offer : Option Nat) :
    CallSpec s (.realloc (some p) n offer) := by
  by_cases hvalid : ∃ m, (p, m) ∈ s.live
  · obtain ⟨m, hlive⟩ := hvalid
    obtain ⟨-, b, hb, hstart, hcur, hend⟩ := hi.placed _ hlive
    obtain ⟨hendb, hcurb, hused, -⟩ := hi.blocks.ok b hb
    have hholder := holder_eq hi.blocks hb hstart (by dsimp only at hcur; omega)
    by_cases hn : n = 0
    · rw [hn]
      exact hi.realloc_zero offer hlive
    · by_cases hroom : n ≤ b.room p
      · exact hi.realloc_inPlace offer hlive hn hb hstart hcur hholder hroom
      · exact hi.realloc_move offer hlive hn hlt hb hstart hend hholder hroom
  · -- not a call that a client makes
    have hinvalid : ¬ validPtr s.live (some p) = true := by
      simp only [validPtr, Option.all_some, List.any_eq_true, decide_eq_true_eq]
      rintro ⟨⟨p', m⟩, hmem, rfl⟩
      exact hvalid ⟨m, hmem⟩
    have hstep : poolStep s (.realloc (some p) n offer) = s := by
      simp only [poolStep, if_neg hinvalid]
    refine ⟨?_, ?_, ?_, ?_, ?_⟩
    · rw [hstep]
      exact hi.blocks
    · rw [hstep]
      exact hi.placed
    · rw [hstep]
      exact ⟨fun _ h => absurd h hinvalid, fun _ => hi.apart⟩
    · intro q m hm
      exact absurd ⟨m, hm⟩ hvalid
    · intro hbelow _
      rw [hstep]
      exact ⟨fun h => absurd h hinvalid, hbelow⟩

theorem PoolInv.call (a : PoolAction) (hsize : a.size < 2 ^ 32) : CallSpec s a := by
  cases a with
  | alloc n offer => exact hi.alloc hsize offer
  | realloc ptr n offer =>
      cases ptr with
      | none => exact hi.realloc_null hsize offer
      | some p => exact hi.realloc p hsize offer
  | free ptr =>
      have hsub : ∀ r ∈ (poolStep s (.free ptr)).live, r ∈ s.live := by
        intro r hr
        cases ptr with
        | none => exact hr
        | some p => exact (mem_dropRegion.mp hr).1
      refine ⟨?_, ?_, ⟨fun _ => trivial, fun _ => ?_⟩, trivial, fun hbelow _ => ⟨trivial, ?_⟩⟩
      · simpa [poolStep] using hi.blocks
      · have hplaced := hi.placed.subset hsub
        simpa [poolStep] using hplaced
      · cases ptr with
        | none => exact hi.apart
        | some p => exact pairwise_dropRegion hi.apart p
      · have hbelow' := hbelow.subset hsub
        simpa [poolStep] using hbelow'
  | write x b =>
      exact ⟨hi.blocks, hi.placed, ⟨fun _ => trivial, fun _ => hi.apart⟩, trivial,
        fun hbelow _ => ⟨trivial, hbelow⟩⟩

theorem PoolInv.callSound_iff (a : PoolAction) (hsize : a.size < 2 ^ 32) :
    CallSound s a ↔ CallOk s a := by
  obtain ⟨-, hplaced, hapart, hbytes, -⟩ := hi.call a hsize
  rw [← hapart]
  constructor
  · rintro ⟨⟨-, h⟩, -⟩
    exact h
  · intro h
    refine ⟨⟨?_, h⟩, hbytes⟩
    intro r hr
    obtain ⟨-, b, hb, hstart, -, hend⟩ := hplaced r hr
    exact ⟨b, hb, hstart, hend⟩

theorem PoolInv.step (a : PoolAction) (hsize : a.size < 2 ^ 32) (hok : CallOk s a) :
    PoolInv (poolStep s a) := by
  obtain ⟨hblocks, hplaced, hapart, -, -⟩ := hi.call a hsize
  exact ⟨hblocks, hplaced, hapart.mpr hok⟩

end Calls

/-- A pool that was just created, with arbitrary memory. -/
def freshPool (pool : NvPool) (mem : Nat → UInt8) : PoolState :=
  { pool := pool, mem := mem, live := [] }

theorem poolInv_create {config : PoolConfig} {offer : Option Nat} {pool : NvPool}
    (h : nvPoolCreate config offer = some pool) (mem : Nat → UInt8) :
    PoolInv (freshPool pool mem) := by
  have hempty : BlocksOk [] := ⟨by simp, by simp, by simp, by simp⟩
  refine ⟨?_, by simp [Placed, freshPool], List.Pairwise.nil⟩
  unfold nvPoolCreate at h
  dsimp only at h
  split at h
  · cases h
    exact hempty
  · obtain ⟨block, hcreate, rfl⟩ := Option.map_eq_some_iff.mp h
    obtain ⟨hok, hid, hapart⟩ := blockCreate_spec hcreate
    exact hempty.add (by intro x; simp [freshPool, NvPool.all])
      (by simp [freshPool, NvPool.all]) hok hid hapart

/--
For every configuration and every run of calls with sizes below `2 ^ 32`: each
call leaves every live region in one block and no two overlapping, and keeps
the bytes of a reallocated region, exactly when each call meets `CallOk`.
-/
theorem nvPool_regions_sound_iff
    (config : PoolConfig) (offer : Option Nat) (pool : NvPool) (mem : Nat → UInt8)
    (hcreate : nvPoolCreate config offer = some pool)
    (as : List PoolAction) (hsizes : ∀ a ∈ as, a.size < 2 ^ 32) :
    Along poolStep CallSound (freshPool pool mem) as ↔
      Along poolStep CallOk (freshPool pool mem) as :=
  along_iff_along
    (fun _ a hi hsize hok => hi.step a hsize hok)
    (fun _ a hi hsize => hi.callSound_iff a hsize)
    (poolInv_create hcreate mem) hsizes

/--
For every configuration and every run of calls with sizes below `2 ^ 32` that
grow in place only as far as `GrowsInside` allows: after each call every live
region lies in one block and no two overlap, and the bytes of a reallocated
region are kept.
-/
theorem nvPool_regions_sound
    (config : PoolConfig)
    (offer : Option Nat)
    (pool : NvPool)
    (mem : Nat → UInt8)
    (hcreate : nvPoolCreate config offer = some pool)
    (as : List PoolAction)
    (hsizes : ∀ a ∈ as, a.size < 2 ^ 32)
    (hgrows : Transition.Along poolStep GrowsInside (freshPool pool mem) as) :
    Transition.Along poolStep CallSound (freshPool pool mem) as := by
  have hstep : ∀ s a, PoolInv s ∧ Below s.pool.all s.live → a.size < 2 ^ 32 →
      GrowsInside s a → CallSound s a ∧
        PoolInv (poolStep s a) ∧ Below (poolStep s a).pool.all (poolStep s a).live := by
    rintro s a ⟨hi, hbelow⟩ hsize hgrow
    obtain ⟨hok, hbelow'⟩ := (hi.call a hsize).below hbelow hgrow
    exact ⟨(hi.callSound_iff a hsize).mpr hok, hi.step a hsize hok, hbelow'⟩
  exact along_of_along hstep
    ⟨poolInv_create hcreate mem, by simp [Below, freshPool]⟩ hsizes hgrows

def defaultPool : NvPool :=
  (nvPoolCreate nvPoolConfigDefault (some 4096)).getD
    ⟨[], none, [], 0, 0, ⟨0, 0, 0, 0, 0, 0⟩, false, false⟩

theorem defaultPool_eq : nvPoolCreate nvPoolConfigDefault (some 4096) = some defaultPool := rfl

theorem nvPool_shrinking_realloc_sound :
    Transition.Along poolStep CallSound (freshPool defaultPool fun _ => 0)
      [.alloc 16 none, .alloc 16 none, .realloc (some 4096) 8 none] := by
  refine nvPool_regions_sound nvPoolConfigDefault (some 4096) defaultPool _
    defaultPool_eq _ (by decide) ⟨trivial, trivial, ?_, trivial⟩
  have hcurrent : ((poolStep (poolStep (freshPool defaultPool fun _ => 0) (.alloc 16 none))
      (.alloc 16 none)).pool.holder 4096).map PoolBlock.current = some 4128 := by
    decide +kernel
  have hlive : (poolStep (poolStep (freshPool defaultPool fun _ => 0) (.alloc 16 none))
      (.alloc 16 none)).live = [(4112, 16), (4096, 16)] := by
    decide +kernel
  intro _ b hb _
  rw [Option.mem_def.mp hb, Option.map_some, Option.some_inj] at hcurrent
  rw [hcurrent, hlive]
  simp [Inside]

/-- The first of two neighbours is grown in place over the second. -/
theorem realloc_grows_over_neighbour :
    ¬ Transition.Along poolStep CallSound (freshPool defaultPool fun _ => 0)
      [.alloc 16 none, .alloc 16 none, .realloc (some 4096) 32 none] := by
  rintro ⟨-, -, ⟨⟨-, hapart⟩, -⟩, -⟩
  have hlive : (run poolStep (freshPool defaultPool fun _ => 0)
      [.alloc 16 none, .alloc 16 none, .realloc (some 4096) 32 none]).live =
      [(4096, 32), (4112, 16)] := by decide +kernel
  rw [show poolStep (poolStep (poolStep (freshPool defaultPool fun _ => 0) (.alloc 16 none))
      (.alloc 16 none)) (.realloc (some 4096) 32 none) = run poolStep
        (freshPool defaultPool fun _ => 0) [.alloc 16 none, .alloc 16 none,
          .realloc (some 4096) 32 none] from rfl, hlive] at hapart
  simp [Apart] at hapart

end Libnv.Pool
