import Libnv.Base.PoolRegions
import Mathlib.Data.Nat.Bitwise

/-!
# Regions granted by `nv_pool_alloc` and `nv_pool_align`

`nv_pool_align_size`, the slack of `nv_pool_align` and the test `used + size`
add `size_t` values before they compare them.  A request that is too large for
any object can wrap to a small one and be granted a region it does not fit in,
or move a bump pointer back over regions that were granted before.

No block ends above `2 ^ 63`, so no larger request can be served.  As long as the
bytes asked of `nv_pool_alloc` are at most `2 ^ 63 - 8` nothing wraps, and each
region lies in one block and overlaps none granted since the last reset.
-/

namespace Libnv.Pool

theorem and_high_mask {x k : Nat} (hk : k ≤ 64) (hx : x < 2 ^ 64) :
    x &&& (2 ^ 64 - 2 ^ k) = x / 2 ^ k * 2 ^ k := by
  have hmask : 2 ^ 64 - 2 ^ k = (2 ^ (64 - k) - 1) * 2 ^ k := by
    rw [Nat.sub_mul, ← Nat.pow_add, Nat.sub_add_cancel hk, Nat.one_mul]
  rw [hmask]
  refine Nat.eq_of_testBit_eq fun i => ?_
  rw [Nat.testBit_and, Nat.testBit_mul_two_pow, Nat.testBit_mul_two_pow,
    Nat.testBit_two_pow_sub_one, Nat.testBit_div_two_pow]
  by_cases hi : k ≤ i
  · by_cases h64 : i < 64
    · simp [hi, show i - k < 64 - k by omega, Nat.sub_add_cancel hi]
    · have hzero : x.testBit i = false :=
        Nat.testBit_lt_two_pow (hx.trans_le (Nat.pow_le_pow_right (by omega) (by omega)))
      simp [hi, hzero, Nat.sub_add_cancel hi]
  · simp [hi]

theorem pred64_of_lt {n : Nat} (hpos : 0 < n) (hlt : n < 2 ^ 64) : pred64 n = n - 1 := by
  have hwrap : wrap n = n := Nat.mod_eq_of_lt hlt
  rw [pred64, hwrap, if_neg (Nat.ne_of_gt hpos)]

theorem alignedAddr_spec {addr k : Nat} (hk : k < 64) (hsum : addr + 2 ^ k < 2 ^ 64) :
    2 ^ k ∣ alignedAddr addr (2 ^ k) ∧ addr ≤ alignedAddr addr (2 ^ k) ∧
      alignedAddr addr (2 ^ k) < addr + 2 ^ k := by
  have hpos : 0 < 2 ^ k := Nat.two_pow_pos k
  have hmask : 2 ^ 64 - 1 - pred64 (2 ^ k) = 2 ^ 64 - 2 ^ k := by
    rw [pred64_of_lt hpos (by omega)]
    omega
  have heq : alignedAddr addr (2 ^ k) = (addr + 2 ^ k - 1) / 2 ^ k * 2 ^ k := by
    rw [alignedAddr, hmask, pred64_of_lt (by omega) hsum]
    exact and_high_mask (by omega) (by omega)
  have hdiv := Nat.div_add_mod (addr + 2 ^ k - 1) (2 ^ k)
  have hmod := Nat.mod_lt (addr + 2 ^ k - 1) hpos
  rw [Nat.mul_comm] at hdiv
  rw [heq]
  refine ⟨Nat.dvd_mul_left _ _, ?_, ?_⟩
  · omega
  · omega

section Grants

variable {n : Nat} {s : GrantState}

/-- The pool and the regions granted since the last reset. -/
structure GrantState where
  pool : NvPool
  granted : List Region

/-- The calls; `offer` is what `malloc` finds if it is asked. -/
inductive GrantCall where
  | alloc (n : Nat) (offer : Option Nat)
  | align (n a : Nat) (offer : Option Nat)
  | extend (size : Nat) (offer : Option Nat)
  | reset

/-- One call. -/
def grantStep (s : GrantState) : GrantCall → GrantState
  | .alloc n offer =>
      let (pool, result) := nvPoolAlloc s.pool n offer
      { pool := pool, granted := grant s.granted result n }
  | .align n a offer =>
      let (pool, result) := nvPoolAlign s.pool n a offer
      { pool := pool, granted := grant s.granted result n }
  | .extend size offer => { s with pool := (nvPoolExtend s.pool size offer).1 }
  | .reset => { pool := nvPoolReset s.pool, granted := [] }

/-- The alignment passed to `nv_pool_align` is a power of two of type `size_t`. -/
def GrantCall.PowerOfTwo : GrantCall → Prop
  | .align _ a _ => ∃ k < 64, a = 2 ^ k
  | _ => True

/-- The bytes asked of `nv_pool_alloc` are at most `2 ^ 63 - 8`. -/
def GrantCall.Fits : GrantCall → Prop
  | .alloc n _ => n + 8 ≤ 2 ^ 63
  | .align n a _ => n + (a - 1) + 8 ≤ 2 ^ 63
  | _ => True

/-- The region lies in one block of the pool and overlaps no other region. -/
def Granted (pool : NvPool) (granted : List Region) (r : Region) : Prop :=
  (∃ b ∈ pool.all, b.start ≤ r.1 ∧ r.1 + r.2 ≤ b.endPtr) ∧ ∀ r' ∈ granted, Apart r r'

/-- What is expected of a call. -/
def GrantSound (s : GrantState) : GrantCall → Prop
  | .alloc n offer => ∀ q, (nvPoolAlloc s.pool n offer).2 = some q →
      Granted (nvPoolAlloc s.pool n offer).1 s.granted (q, n)
  | .align n a offer => ∀ q, (nvPoolAlign s.pool n a offer).2 = some q →
      Granted (nvPoolAlign s.pool n a offer).1 s.granted (q, n) ∧ a ∣ q
  | _ => True

/-- The blocks are in order, and every region ends below the bump pointer of its block. -/
structure GrantInv (s : GrantState) : Prop where
  blocks : BlocksOk s.pool.all
  below : Below s.pool.all s.granted

section Calls

variable (h : GrantInv s)
include h

theorem GrantInv.grant_part {pool : NvPool} {q q' m : Nat}
    (hspec : AllocSpec s.pool.all pool.all (some q) m) (hlo : q ≤ q') (hhi : q' + n ≤ q + m) :
    Granted pool s.granted (q', n) ∧ GrantInv ⟨pool, (q', n) :: s.granted⟩ := by
  have hcarved := hspec.carved q rfl
  obtain ⟨b, hb, hstart, -, hcurrent, hend, -⟩ := id hcarved
  dsimp only at hstart hcurrent hend
  refine ⟨⟨⟨b, hb, ?_, ?_⟩, ?_⟩, hspec.extends_.ok, ?_⟩
  · dsimp only
    omega
  · dsimp only
    omega
  · intro r hr
    have hapart := hcarved.apart h.blocks (h.below r hr)
    unfold Apart at hapart ⊢
    dsimp only at hapart ⊢
    omega
  · intro r hr
    rcases List.mem_cons.mp hr with rfl | hold
    · refine ⟨b, hb, ?_, ?_⟩
      · dsimp only
        omega
      · dsimp only
        omega
    · exact h.below.mono hspec.extends_ r hold

theorem GrantInv.alloc (hn : n + 8 ≤ 2 ^ 63) (offer : Option Nat) :
    GrantSound s (.alloc n offer) ∧ GrantInv (grantStep s (.alloc n offer)) := by
  obtain ⟨hspec, -⟩ := nvPoolAlloc_spec h.blocks hn offer
  cases hcase : nvPoolAlloc s.pool n offer with
  | mk pool result =>
      rw [hcase] at hspec
      simp only [GrantSound, grantStep, hcase]
      cases result with
      | none =>
          exact ⟨fun q hq => absurd hq (by simp),
            hspec.extends_.ok, h.below.mono hspec.extends_⟩
      | some q =>
          obtain ⟨hgranted, hinv⟩ := h.grant_part hspec (Nat.le_refl q) (Nat.le_refl (q + n))
          refine ⟨?_, hinv⟩
          rintro q' ⟨⟩
          exact hgranted

theorem GrantInv.align {k : Nat} (hk : k < 64)
    (hn : n + (2 ^ k - 1) + 8 ≤ 2 ^ 63) (offer : Option Nat) :
    GrantSound s (.align n (2 ^ k) offer) ∧ GrantInv (grantStep s (.align n (2 ^ k) offer)) := by
  have hpos : 0 < 2 ^ k := Nat.two_pow_pos k
  have hsize : alignedSize n (2 ^ k) = n + (2 ^ k - 1) := by
    rw [alignedSize, pred64_of_lt (by omega) (by omega)]
    omega
  obtain ⟨hspec, -⟩ := nvPoolAlloc_spec h.blocks hn offer
  cases hcase : nvPoolAlloc s.pool (n + (2 ^ k - 1)) offer with
  | mk pool result =>
      rw [hcase] at hspec
      simp only [GrantSound, grantStep, nvPoolAlign, hsize, hcase]
      have hkeep : GrantInv ⟨pool, s.granted⟩ :=
        ⟨hspec.extends_.ok, h.below.mono hspec.extends_⟩
      cases result with
      | none => exact ⟨fun q hq => absurd hq (by simp), hkeep⟩
      | some q =>
          have hbound : q < 2 ^ 63 := by
            obtain ⟨b, hb, -, hcur, -, -, -⟩ := hspec.carved q rfl
            obtain ⟨hend, hcurrent, hused, hle⟩ := hspec.extends_.ok.ok b hb
            dsimp only at hcur
            omega
          have hsum : q + 2 ^ k < 2 ^ 64 := by omega
          obtain ⟨hdvd, hlo, hhi⟩ := alignedAddr_spec hk hsum
          obtain ⟨hgranted, hinv⟩ := h.grant_part (n := n) hspec hlo (by omega)
          by_cases hzero : alignedAddr q (2 ^ k) = 0
          · simp only [Option.map_some, Option.filter, hzero]
            exact ⟨fun q' hq' => absurd hq' (by simp), hkeep⟩
          · have hresult : ((some q).map fun addr => alignedAddr addr (2 ^ k)).filter
                (fun addr => addr ≠ 0) = some (alignedAddr q (2 ^ k)) := by
              simp [Option.filter, hzero]
            rw [hresult]
            refine ⟨?_, hinv⟩
            rintro q' ⟨⟩
            exact ⟨hgranted, hdvd⟩

theorem GrantInv.extend (size : Nat) (offer : Option Nat) :
    GrantInv (grantStep s (.extend size offer)) := by
  simp only [grantStep]
  rcases nvPoolExtend_cases s.pool size offer with hstep | ⟨block, hcreate, hstep⟩
  · rw [hstep]
    exact h
  · rw [hstep]
    refine ⟨h.blocks.create hcreate (List.Perm.refl _), ?_⟩
    intro r hr
    obtain ⟨b, hb, hin⟩ := h.below r hr
    exact ⟨b, List.mem_cons_of_mem block hb, hin⟩

theorem GrantInv.reset : GrantInv (grantStep s .reset) := by
  have hall : (nvPoolReset s.pool).all = s.pool.all.map PoolBlock.reset := by
    simp [nvPoolReset, NvPool.all]
  refine ⟨?_, by simp [Below, grantStep]⟩
  simp only [grantStep]
  rw [hall]
  exact h.blocks.reset

theorem GrantInv.call (c : GrantCall) (hpow : c.PowerOfTwo) (hfits : c.Fits) :
    GrantSound s c ∧ GrantInv (grantStep s c) := by
  cases c with
  | alloc n offer => exact h.alloc hfits offer
  | align n a offer =>
      obtain ⟨k, hk, rfl⟩ := hpow
      exact h.align hk hfits offer
  | extend size offer => exact ⟨trivial, h.extend size offer⟩
  | reset => exact ⟨trivial, h.reset⟩

end Calls

/-- A pool that was just created. -/
def freshGrants (pool : NvPool) : GrantState := { pool := pool, granted := [] }

/--
For every configuration and every sequence of calls with power-of-two alignments
in which no more than `2 ^ 63 - 8` bytes are asked of `nv_pool_alloc`: each region
that is granted lies in one block of the pool, overlaps no region granted since
the last reset, and is aligned as requested.
-/
theorem nvPool_grants_sound
    (config : PoolConfig)
    (offer : Option Nat)
    (pool : NvPool)
    (hcreate : nvPoolCreate config offer = some pool)
    (cs : List GrantCall)
    (hpow : ∀ c ∈ cs, c.PowerOfTwo)
    (hfits : Transition.Along grantStep (fun _ c => c.Fits) (freshGrants pool) cs) :
    Transition.Along grantStep GrantSound (freshGrants pool) cs := by
  have hinit : GrantInv (freshGrants pool) :=
    ⟨(poolInv_create hcreate fun _ => 0).blocks, by simp [Below, freshGrants]⟩
  exact Transition.along_of_along (fun _ c h hok hfit => h.call c hok hfit) hinit hpow hfits

theorem nvPool_default_grants_sound :
    Transition.Along grantStep GrantSound (freshGrants defaultPool)
      [.alloc 100 none, .align 10 64 none, .reset, .align 0 4096 none] :=
  nvPool_grants_sound nvPoolConfigDefault (some 4096) defaultPool defaultPool_eq _
    (by
      intro c hc
      simp only [List.mem_cons, List.not_mem_nil, or_false] at hc
      rcases hc with rfl | rfl | rfl | rfl
      · trivial
      · exact ⟨6, by decide, rfl⟩
      · trivial
      · exact ⟨12, by decide, rfl⟩)
    ⟨by unfold GrantCall.Fits; decide, by unfold GrantCall.Fits; decide, trivial,
      by unfold GrantCall.Fits; decide, trivial⟩

/--
Sixteen bytes, and then a request that wraps: `used + size` is zero, so the bump
pointer moves back to the start of the block and the next region is the first one
again.
-/
theorem nvPoolAlloc_wraps_back :
    ¬ Transition.Along grantStep GrantSound (freshGrants defaultPool)
        [.alloc 16 none, .alloc (2 ^ 64 - 16) none, .alloc 16 none] ∧
      (Transition.run grantStep (freshGrants defaultPool)
        [.alloc 16 none, .alloc (2 ^ 64 - 16) none, .alloc 16 none]).granted =
          [(4096, 16), (4112, 2 ^ 64 - 16), (4096, 16)] := by
  refine ⟨?_, by decide +kernel⟩
  rintro ⟨-, h, -⟩
  obtain ⟨⟨b, hb, -, hend⟩, -⟩ := h 4112 (by decide +kernel)
  have hall : ∀ b ∈ (nvPoolAlloc (grantStep (freshGrants defaultPool) (.alloc 16 none)).pool
      (2 ^ 64 - 16) none).1.all, b.endPtr = 20480 := by decide +kernel
  rw [hall b hb] at hend
  omega

end Grants

end Libnv.Pool
